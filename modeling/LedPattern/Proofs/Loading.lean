import LedPattern.Graph.Schema
import LedPattern.Kernel.Program

/-!
# What a loaded graph satisfies

Loading yields a graph only if it reports no error. `Graph.WellFormed` collects what the later
stages rely on: the width of the strip is positive and within its limit, no two nodes share an
identifier, and a node without a fallback list holds no nodes. `Graph.wellFormed_of_load` derives
it from the absence of errors: `duplicateIds` is empty exactly if the identifiers are distinct
(`duplicateIds_eq_nil_iff`), and the rest is read off the width and the members of each node.
-/

namespace LedPattern

/-- A node that its declaration gives no fallback list holds no nodes. -/
def Node.Consistent (n : Node) : Prop := n.hasFallback = false → n.fallback = []

/-- The nodes of two lists are those of the one and those of the other. -/
theorem Node.preorderAll_append (xs ys : List Node) :
    Node.preorderAll (xs ++ ys) = Node.preorderAll xs ++ Node.preorderAll ys := by
  induction xs with
  | nil => simp [Node.preorderAll]
  | cons n rest ih => simp [Node.preorderAll, ih]

/-- A node comes before those that it holds. -/
theorem Node.preorder_eq (n : Node) : n.preorder = n :: Node.preorderAll n.fallback := by
  cases n
  rfl

/-- Some nodes come among those that they hold, in the same order. -/
theorem Node.sublist_preorderAll (nodes : List Node) :
    nodes.Sublist (Node.preorderAll nodes) := by
  induction nodes with
  | nil => exact List.Sublist.refl _
  | cons n rest ih =>
    rw [Node.preorderAll, Node.preorder_eq]
    exact (ih.trans (List.sublist_append_right _ _)).cons_cons n

namespace Graph

/-- What loading guarantees of a graph. -/
structure WellFormed (g : Graph) : Prop where
  /-- The strip has a pixel. -/
  width_pos : 0 < g.frameWidth
  /-- The strip is not too long. -/
  width_le : g.frameWidth ≤ maxFrameWidth
  /-- No two nodes share an identifier, be they in a fallback list or not. -/
  ids_nodup : (g.allNodes.map Node.id).Nodup
  /-- Only nodes with a fallback list hold nodes. -/
  consistent : ∀ n ∈ g.allNodes, n.Consistent

/-- The width of a graph in order is a word. -/
theorem WellFormed.width_lt {g : Graph} (hg : g.WellFormed) : g.frameWidth < Index.limit :=
  Nat.lt_of_le_of_lt hg.width_le (by decide)

/-- Every diagnostic about a repeated identifier is an error. -/
theorem isError_of_mem_duplicateIds {seen : List String} {nodes : List Node} {d : Diagnostic}
    (h : d ∈ duplicateIds seen nodes) : d.isError = true := by
  induction nodes generalizing seen with
  | nil => simp [duplicateIds] at h
  | cons n rest ih =>
    unfold duplicateIds at h
    split at h
    · rcases List.mem_cons.1 h with rfl | h
      · rfl
      · exact ih h
    · exact ih h

/-- No identifier is reported as repeated exactly if they are distinct, and none of them has been
seen before. -/
theorem duplicateIds_eq_nil_iff {seen : List String} {nodes : List Node} :
    duplicateIds seen nodes = [] ↔
      (nodes.map Node.id).Nodup ∧ ∀ n ∈ nodes, n.id ∉ seen := by
  induction nodes generalizing seen with
  | nil => simp [duplicateIds]
  | cons n rest ih =>
    unfold duplicateIds
    split
    · next hseen =>
      have hmem : n.id ∈ seen := by simpa using hseen
      simp [hmem]
    · next hseen =>
      have hmem : n.id ∉ seen := by simpa using hseen
      rw [ih]
      simp only [List.map_cons, List.nodup_cons, List.mem_map, List.mem_cons, not_or]
      constructor
      · rintro ⟨hnodup, hrest⟩
        refine ⟨⟨?_, hnodup⟩, ?_⟩
        · rintro ⟨m, hm, hid⟩
          exact (hrest m hm).1 hid
        · rintro m (rfl | hm)
          · exact hmem
          · exact (hrest m hm).2
      · rintro ⟨⟨hfresh, hnodup⟩, hrest⟩
        exact ⟨hnodup, fun m hm => ⟨fun hid => hfresh ⟨m, hm, hid⟩, hrest m (.inr hm)⟩⟩

/-- A width that is accepted lies between one and the limit. -/
theorem loadWidth_bounds {field : String} {value : Json} {w : Nat}
    (h : (loadWidth field value).value = some w) : 0 < w ∧ w ≤ maxFrameWidth := by
  unfold loadWidth at h
  dsimp only at h
  split at h
  · next v =>
    split at h
    · simp at h
    · split at h
      · simp at h
      · split at h
        · next hpos hle =>
          simp only [Option.some.injEq] at h
          omega
        · simp at h
  · simp at h

/-- The width of a strip lies between one and the limit. -/
theorem loadFrameWidth_bounds {members : Json.Members} {w : Nat}
    (h : (loadFrameWidth members).value = some w) : 0 < w ∧ w ≤ maxFrameWidth := by
  unfold loadFrameWidth at h
  split at h
  · exact loadWidth_bounds h
  · exact loadWidth_bounds h
  · simp at h

/-- The nodes that loading yields hold nodes only if they have a fallback list. The three parts are
proved together, since a node's members hold lists of nodes. -/
theorem load_consistent :
    (∀ path value, ∀ n ∈ (loadNode path value).value, ∀ m ∈ n.preorder, m.Consistent) ∧
    (∀ path id members, ((loadFields path id members).value.hasFallback = false →
        (loadFields path id members).value.fallback = []) ∧
      ∀ m ∈ Node.preorderAll (loadFields path id members).value.fallback, m.Consistent) ∧
    (∀ path i items, ∀ m ∈ Node.preorderAll (loadNodes path i items).value, m.Consistent) := by
  apply loadNode.mutual_induct
  case case1 =>
    intro path members id ih n hn m hm
    simp only [loadNode] at hn
    split at hn
    · obtain rfl := Option.some.inj hn
      rw [Node.preorder_eq] at hm
      rcases List.mem_cons.1 hm with rfl | hm
      · exact ih.1
      · exact ih.2 m hm
    · simp at hn
  case case2 =>
    intro value path hvalue n hn
    cases value <;> simp_all [loadNode]
  case case3 =>
    intro path i m hm
    simp [loadNodes, Node.preorderAll] at hm
  case case4 =>
    intro path i item rest ih1 ih2 m hm
    simp only [loadNodes, Node.preorderAll_append, List.mem_append] at hm
    rcases hm with hm | hm
    · rcases hv : (loadNode (path ++ "[" ++ natText i ++ "]") item).value with _ | n
      · simp [hv, Node.preorderAll] at hm
      · simp only [hv, Option.toList_some, Node.preorderAll, List.append_nil] at hm
        exact ih1 n hv m hm
    · exact ih2 m hm
  case case5 =>
    intro path id
    simp [loadFields, Node.preorderAll]
  case case6 =>
    intro path id key value rest hkey ih
    rw [loadFields.eq_def]
    dsimp only
    rw [if_pos hkey]
    exact ih
  case case7 =>
    intro path id rest items hkey ih1 ih2
    rw [loadFields, if_neg hkey, if_pos rfl]
    exact ⟨by simp, ih2⟩
  case case8 =>
    intro path id value rest hvalue hkey ih
    rw [loadFields, if_neg hkey, if_pos rfl]
    · exact ⟨by simp, ih.2⟩
    · exact hvalue
  case case9 =>
    intro path id key value rest hkey hfallback param hparam ih
    rw [loadFields.eq_def]
    dsimp only
    rw [if_neg hkey, if_neg hfallback, hparam]
    exact ih
  case case10 =>
    intro path id key value rest hkey hfallback hparam ih
    rw [loadFields.eq_def]
    dsimp only
    rw [if_neg hkey, if_neg hfallback, hparam]
    exact ih

/-- The nodes of a chain hold nodes only if they have a fallback list. -/
theorem loadChain_consistent {members : Json.Members} {nodes : List Node}
    (h : (loadChain members).value = some nodes) : ∀ n ∈ Node.preorderAll nodes, n.Consistent := by
  unfold loadChain at h
  dsimp only at h
  split at h
  · simp at h
  · simp at h
  · obtain rfl := Option.some.inj h
    exact load_consistent.2.2 _ _ _
  · simp at h

/-- The members of an object that describe a graph without an error describe one that is well
formed. -/
theorem wellFormed_of_loadMembers {members : Json.Members} {g : Graph}
    (h : (loadMembers members).value = some g)
    (herr : Diagnostic.anyError (loadMembers members).diagnostics = false) : g.WellFormed := by
  unfold loadMembers at h herr
  dsimp only at h herr
  split at h
  · next w nodes hwidth hchain =>
    obtain rfl := Option.some.inj h
    rw [hchain] at herr
    simp only [Diagnostic.anyError, List.any_append, Bool.or_eq_false_iff] at herr
    have hnil : duplicateIds [] (Node.preorderAll nodes) = [] := by
      rw [List.eq_nil_iff_forall_not_mem]
      intro d hd
      have := List.any_eq_false.1 herr.2 d hd
      exact this (isError_of_mem_duplicateIds hd)
    obtain ⟨hpos, hle⟩ := loadFrameWidth_bounds hwidth
    exact ⟨hpos, hle, (duplicateIds_eq_nil_iff.1 hnil).1, loadChain_consistent hchain⟩
  · simp at h

/-- A graph that a JSON value describes is well formed. -/
theorem wellFormed_of_ofJson {value : Json} {g : Graph} (h : (ofJson value).value = some g) :
    g.WellFormed := by
  unfold ofJson at h
  cases value with
  | object members =>
    dsimp only at h
    split at h
    · simp at h
    · next herr => exact wellFormed_of_loadMembers h (Bool.not_eq_true _ ▸ herr)
  | _ => simp [Diagnostic.anyError, Diagnostic.isError, Diagnostic.error] at h

/-- A graph that a text describes is well formed. -/
theorem wellFormed_of_load {source : String} {g : Graph} (h : (load source).value = some g) :
    g.WellFormed := by
  unfold load at h
  split at h
  · exact wellFormed_of_ofJson h
  · simp at h

end Graph

end LedPattern
