import LedPattern.Proofs.Descriptions
import LedPattern.Proofs.Loading
import LedPattern.Proofs.Naming

/-!
# Loading accepts exactly the schema

Loading goes on after an error, drops what is wrong and reports everything, so that its result says
little about a description with errors. `Loaded.Checks` is what each of its functions is good for:
it reports errors only, none of them exactly if its part of the description is valid, and then
yields what that part describes. One lemma a function says so. `load_checks` goes through the tree
of nodes by the recursion of the functions themselves, and `loadMembers_checks` adds what is asked
of the tree as a whole. Repeated identifiers are searched for among the nodes that are left, which
are all nodes if no error has been found before.

`load_accepts_schema` draws the conclusion for texts.
-/

namespace LedPattern

/-- A check of a part of a description: it reports errors only, and none exactly if the part is
`valid`, and then yields a value that is `good`. -/
structure Loaded.Checks {α : Type} (r : Loaded α) (valid : Prop) (good : α → Prop) : Prop where
  errors : ∀ d ∈ r.diagnostics, d.isError = true
  nil_iff : r.diagnostics = [] ↔ valid
  value : valid → good r.value

namespace Loaded

variable {α β γ : Type} {P Q : Prop} {f : α → Prop} {g : β → Prop}

/-- A check of what is valid may report nothing. -/
theorem Checks.pass {a : α} (hP : P) (ha : f a) : (⟨a, []⟩ : Loaded α).Checks P f :=
  ⟨by simp, by simp [hP], fun _ => ha⟩

/-- A check of what is not valid may report one error. -/
theorem Checks.fail {a : α} {d : Diagnostic} (hP : ¬P) (hd : d.isError = true) :
    (⟨a, [d]⟩ : Loaded α).Checks P f :=
  ⟨by simp [hd], by simp [hP], fun h => absurd h hP⟩

/-- What is checked may be said in other words. -/
theorem Checks.congr {r : Loaded α} (h : r.Checks P f) (hPQ : P ↔ Q) : r.Checks Q f :=
  ⟨h.errors, h.nil_iff.trans hPQ, fun hQ => h.value (hPQ.2 hQ)⟩

/-- A check with one more error, of something that makes the whole wrong. -/
theorem Checks.reject {r : Loaded α} (h : r.Checks P f) (hQ : ¬Q) {d : Diagnostic}
    (hd : d.isError = true) {b : β} : (⟨b, d :: r.diagnostics⟩ : Loaded β).Checks Q g :=
  ⟨List.forall_mem_cons.2 ⟨hd, h.errors⟩, by simp [hQ], fun h => absurd h hQ⟩

/-- A check with something made of its value. -/
theorem Checks.map {r : Loaded α} (h : r.Checks P f) {b : β} (hb : f r.value → g b) :
    (⟨b, r.diagnostics⟩ : Loaded β).Checks P g :=
  ⟨h.errors, h.nil_iff, fun hP => hb (h.value hP)⟩

/-- Two checks that report together check both parts. -/
theorem Checks.append {a : Loaded α} {b : Loaded β} (ha : a.Checks P f) (hb : b.Checks Q g)
    {c : γ} {good : γ → Prop} (hc : f a.value → g b.value → good c) :
    (⟨c, a.diagnostics ++ b.diagnostics⟩ : Loaded γ).Checks (P ∧ Q) good := by
  refine ⟨?_, ?_, fun hPQ => hc (ha.value hPQ.1) (hb.value hPQ.2)⟩
  · exact List.forall_mem_append.2 ⟨ha.errors, hb.errors⟩
  · rw [List.append_eq_nil_iff, ha.nil_iff, hb.nil_iff]

/-- A check after another one, which may look at the value of the first if that has passed. -/
theorem Checks.andThen {a : Loaded α} {d : List Diagnostic} (ha : a.Checks P f)
    (hd : ∀ x ∈ d, x.isError = true) (hnil : f a.value → (d = [] ↔ Q)) :
    (⟨a.value, a.diagnostics ++ d⟩ : Loaded α).Checks (P ∧ Q) f := by
  refine ⟨List.forall_mem_append.2 ⟨ha.errors, hd⟩, ?_, fun h => ha.value h.1⟩
  rw [List.append_eq_nil_iff, ha.nil_iff]
  exact and_congr_right fun hP => hnil (ha.value hP)

/-- A check finds no error exactly if what it looks at is valid. -/
theorem Checks.anyError_iff {r : Loaded α} (h : r.Checks P f) :
    Diagnostic.anyError r.diagnostics = false ↔ P := by
  rw [← h.nil_iff, Diagnostic.anyError, List.any_eq_false]
  constructor
  · intro hnone
    exact List.eq_nil_iff_forall_not_mem.2 fun d hd => hnone d hd (h.errors d hd)
  · intro hnil
    simp [hnil]

end Loaded

namespace Graph

open Json

/-- The identifier of a node is checked. -/
theorem loadId_checks (path : String) (members : Json.Members) :
    (loadId path members).Checks (∃ s, members.get? "id" = some (.string s) ∧ s ≠ "")
      fun id => ∃ s ∈ id, members.get? "id" = some (.string s) := by
  unfold loadId
  dsimp only
  split
  · next s hs =>
    split
    · next hempty => exact .fail (by simp_all [String.isEmpty_iff]) rfl
    · next hne => exact .pass ⟨s, hs, by simpa [String.isEmpty_iff] using hne⟩ ⟨s, rfl, hs⟩
  · next value hne hvalue =>
    refine .fail ?_ rfl
    rintro ⟨s, hs, -⟩
    exact hne s (Option.some.inj (hvalue.symm.trans hs))
  · next hnone => exact .fail (by simp [hnone]) rfl

/-- Where an error is placed does not change that it is one. -/
theorem isError_placed (id : Option String) (code : Diagnostic.Code) (message field : String) :
    ((placed id (Diagnostic.error code message)).atField field).isError = true := by
  cases id <;> rfl

/-- The kind of a node is checked. -/
theorem loadKind_checks (path : String) (id : Option String) (members : Json.Members) :
    (loadKind path id members).Checks
      (∃ s, (members.get? "kind").or (members.get? "type") = some (.string s))
      fun kind => ∃ s ∈ kind,
        (members.get? "kind").or (members.get? "type") = some (.string s) := by
  unfold loadKind
  dsimp only
  split
  · next s hs => exact .pass ⟨s, hs⟩ ⟨s, rfl, hs⟩
  · next value hne hvalue =>
    refine .fail ?_ (isError_placed _ _ _ _)
    rintro ⟨s, hs⟩
    exact hne s (Option.some.inj (hvalue.symm.trans hs))
  · next hnone => exact .fail (by simp [hnone]) (isError_placed _ _ _ _)

/-- A value gives a parameter exactly if it is read as that. -/
theorem loadParam?_eq_some_iff {value : Json} {param : Param} :
    loadParam? value = some param ↔ value.GivesParam param := by
  constructor
  · intro h
    cases value <;> cases h
    · exact .bool _
    · exact .number _
    · exact .text _
  · rintro ⟨⟩ <;> rfl

/-- A node's description and those inside it fit the schema exactly if its parts do. -/
theorem isNode_declarations_iff {members : Json.Members} :
    (∀ d ∈ (Json.object members).declarations, d.IsNode) ↔
      ((∃ s, members.get? "id" = some (.string s) ∧ s ≠ "") ∧
        ∃ s, (members.get? "kind").or (members.get? "type") = some (.string s)) ∧
      FieldsFit members := by
  rw [declarations, List.forall_mem_cons]
  constructor
  · rintro ⟨⟨_, ⟨⟩, hnode⟩, hinside⟩
    exact ⟨⟨hnode.id, hnode.kind⟩, hnode.fallback, hnode.params, hinside⟩
  · rintro ⟨⟨hid, hkind⟩, hfit⟩
    exact ⟨⟨members, rfl, hid, hkind, hfit.fallback, hfit.params⟩, hfit.nodes⟩

/-- A node's description is checked, if the rest of its members is. -/
theorem loadNode_checks {path : String} {members : Json.Members}
    (hfields : (loadFields path (loadId path members).value members).Checks (FieldsFit members)
      (GivesFields members)) :
    (loadNode path (.object members)).Checks
      (∀ d ∈ (Json.object members).declarations, d.IsNode) fun node => ∃ n ∈ node,
        (Json.object members).Describes n ∧
          List.Forall₂ Describes (Json.object members).declarations n.preorder := by
  have hid := loadId_checks path members
  have hkind := loadKind_checks path (loadId path members).value members
  have hnames : (⟨(), _⟩ : Loaded Unit).Checks _ fun _ => _ ∧ _ := hid.append hkind And.intro
  refine (hnames.append hfields ?_).congr isNode_declarations_iff.symm
  rintro ⟨⟨id, hid, hid'⟩, kind, hkind, hkind'⟩ hgiven
  rw [Option.mem_def] at hid hkind
  rw [hid] at hkind hgiven
  have hnode : (Json.object members).Describes ⟨id, kind, _, _, _⟩ :=
    .node hid' hkind' hgiven.params hgiven.hasFallback hgiven.fallback
  rw [hid, hkind]
  exact ⟨_, rfl, hnode, .cons hnode hgiven.inside⟩

/-- The nodes of a list are checked one after another. -/
theorem loadNodes_checks {path : String} {i : Nat} {item : Json} {rest : List Json}
    (hfirst : (loadNode (path ++ "[" ++ natText i ++ "]") item).Checks
      (∀ d ∈ item.declarations, d.IsNode) fun node => ∃ n ∈ node,
        item.Describes n ∧ List.Forall₂ Describes item.declarations n.preorder)
    (hrest : (loadNodes path (i + 1) rest).Checks (∀ d ∈ allDeclarations rest, d.IsNode)
      fun nodes => List.Forall₂ Describes rest nodes ∧
        List.Forall₂ Describes (allDeclarations rest) (Node.preorderAll nodes)) :
    (loadNodes path i (item :: rest)).Checks (∀ d ∈ allDeclarations (item :: rest), d.IsNode)
      fun nodes => List.Forall₂ Describes (item :: rest) nodes ∧
        List.Forall₂ Describes (allDeclarations (item :: rest)) (Node.preorderAll nodes) := by
  rw [loadNodes, allDeclarations]
  refine (hfirst.append hrest ?_).congr List.forall_mem_append.symm
  rintro ⟨n, hn, hnode, hinside⟩ ⟨hnodes, hall⟩
  rw [Option.mem_def.1 hn]
  exact ⟨.cons hnode hnodes, List.rel_append hinside hall⟩

section Members

variable {path : String} {id : Option String} {key : String} {value : Json} {rest : Json.Members}

/-- The identifier and the kind have been read before, and are passed over. -/
theorem loadFields_skip (hkey : key = "id" ∨ key = "kind" ∨ key = "type")
    (hrest : (loadFields path id rest).Checks (FieldsFit rest) (GivesFields rest)) :
    (loadFields path id ((key, value) :: rest)).Checks (FieldsFit ((key, value) :: rest))
      (GivesFields ((key, value) :: rest)) := by
  have hne : key ≠ "fallback" := by rcases hkey with rfl | rfl | rfl <;> decide
  have hreserved := mem_reservedKeys.2 (.inl hkey)
  rw [loadFields.eq_def]
  dsimp only
  rw [if_pos hkey]
  refine (hrest.map fun h => h.skip hne hreserved).congr ?_
  simp [fieldsFit_cons hne, hreserved]

/-- A fallback list is checked, if its nodes are. All nodes inside come from it, since no other
member is a fallback list. -/
theorem loadFields_list {items : List Json} (hkey : "fallback" ∉ rest.map Prod.fst)
    (hnodes : (loadNodes (path ++ ".fallback") 0 items).Checks
      (∀ d ∈ allDeclarations items, d.IsNode) fun nodes => List.Forall₂ Describes items nodes ∧
        List.Forall₂ Describes (allDeclarations items) (Node.preorderAll nodes))
    (hrest : (loadFields path id rest).Checks (FieldsFit rest) (GivesFields rest)) :
    (loadFields path id (("fallback", .array items) :: rest)).Checks
      (FieldsFit (("fallback", .array items) :: rest))
      (GivesFields (("fallback", .array items) :: rest)) := by
  rw [loadFields, if_neg (by decide), if_pos rfl]
  refine (hnodes.append hrest ?_).congr (fieldsFit_fallback hkey items).symm
  rintro ⟨hlist, hinside⟩ hgiven
  exact .list hkey hlist hinside hgiven

/-- A fallback list that is none is an error, whatever the rest holds. -/
theorem loadFields_noList (hvalue : ∀ items, value ≠ .array items)
    (hrest : (loadFields path id rest).Checks (FieldsFit rest) (GivesFields rest)) :
    (loadFields path id (("fallback", value) :: rest)).Checks
      (FieldsFit (("fallback", value) :: rest)) (GivesFields (("fallback", value) :: rest)) := by
  have hwrong : ¬FieldsFit (("fallback", value) :: rest) := by
    intro hfit
    obtain ⟨items, hitems⟩ := hfit.fallback value (Members.get?_cons_self _ _ _)
    exact hvalue items hitems
  rw [loadFields, if_neg (by decide), if_pos rfl]
  · exact hrest.reject hwrong (isError_placed _ _ _ _)
  · exact hvalue

/-- Any other member is checked for being a parameter. -/
theorem loadFields_param (hkey : ¬(key = "id" ∨ key = "kind" ∨ key = "type"))
    (hfallback : key ≠ "fallback")
    (hrest : (loadFields path id rest).Checks (FieldsFit rest) (GivesFields rest)) :
    (loadFields path id ((key, value) :: rest)).Checks (FieldsFit ((key, value) :: rest))
      (GivesFields ((key, value) :: rest)) := by
  have hreserved : key ∉ reservedKeys := fun h => (mem_reservedKeys.1 h).elim hkey hfallback
  rw [loadFields.eq_def]
  dsimp only
  rw [if_neg hkey, if_neg hfallback]
  cases hparam : loadParam? value with
  | some param =>
    have hgives := loadParam?_eq_some_iff.1 hparam
    refine (hrest.map fun h => h.param hreserved hgives).congr ?_
    rw [fieldsFit_cons hfallback, and_iff_right fun _ => ⟨param, hgives⟩]
  | none =>
    refine hrest.reject (fun hfit => ?_) (isError_placed _ _ _ _)
    obtain ⟨param, hgives⟩ := ((fieldsFit_cons hfallback value rest).1 hfit).1 hreserved
    rw [loadParam?_eq_some_iff.2 hgives] at hparam
    cases hparam

end Members

/-- Descriptions of nodes are checked. The three parts are proved together, since a node's members
hold lists of nodes. -/
theorem load_checks :
    (∀ path value, value.Ordered → (loadNode path value).Checks
      (∀ d ∈ value.declarations, d.IsNode) fun node => ∃ n ∈ node,
        value.Describes n ∧ List.Forall₂ Describes value.declarations n.preorder) ∧
    (∀ path id members, (members.map Prod.fst).Nodup → (∀ m ∈ members, m.2.Ordered) →
      (loadFields path id members).Checks (FieldsFit members) (GivesFields members)) ∧
    (∀ path i items, (∀ item ∈ items, item.Ordered) → (loadNodes path i items).Checks
      (∀ d ∈ allDeclarations items, d.IsNode) fun nodes => List.Forall₂ Describes items nodes ∧
        List.Forall₂ Describes (allDeclarations items) (Node.preorderAll nodes)) := by
  apply loadNode.mutual_induct
  -- A node is an object or wrong, and the nodes of a list are loaded in order.
  case case1 =>
    intro path members id ih hordered
    exact loadNode_checks (ih hordered.members.1 hordered.members.2)
  case case2 =>
    intro value path hvalue _
    have hnode : ¬value.IsNode := by
      rintro ⟨members, hmembers, -⟩
      exact hvalue members hmembers
    cases value with
    | object members => exact absurd rfl (hvalue members)
    | _ =>
      rw [loadNode]
      · exact .fail (by simpa [declarations] using hnode) rfl
      · exact hvalue
  case case3 =>
    intro path i _
    exact .pass (by simp [allDeclarations]) ⟨.nil, .nil⟩
  case case4 =>
    intro path i item rest ih1 ih2 hitems
    rw [List.forall_mem_cons] at hitems
    exact loadNodes_checks (ih1 hitems.1) (ih2 hitems.2)
  -- The members of a node are looked at one by one, up to the last.
  case case5 =>
    intro path id _ _
    exact .pass ⟨by simp [Members.get?], by simp, by simp [fallbackDeclarations]⟩
      ⟨.nil, rfl, .nil, .nil⟩
  case case6 =>
    intro path id key value rest hkey ih hkeys hvalues
    exact loadFields_skip hkey (ih (List.nodup_cons.1 hkeys).2 (List.forall_mem_cons.1 hvalues).2)
  case case7 =>
    intro path id rest items _ ih1 ih2 hkeys hvalues
    rw [List.map_cons, List.nodup_cons] at hkeys
    rw [List.forall_mem_cons] at hvalues
    exact loadFields_list hkeys.1 (ih2 hvalues.1.items) (ih1 hkeys.2 hvalues.2)
  case case8 =>
    intro path id value rest hvalue _ ih hkeys hvalues
    exact loadFields_noList hvalue
      (ih (List.nodup_cons.1 hkeys).2 (List.forall_mem_cons.1 hvalues).2)
  -- Whether the value of another member can be read makes no difference to the rest.
  case case9 =>
    intro path id key value rest hkey hfallback _ _ ih hkeys hvalues
    exact loadFields_param hkey hfallback
      (ih (List.nodup_cons.1 hkeys).2 (List.forall_mem_cons.1 hvalues).2)
  case case10 =>
    intro path id key value rest hkey hfallback _ ih hkeys hvalues
    exact loadFields_param hkey hfallback
      (ih (List.nodup_cons.1 hkeys).2 (List.forall_mem_cons.1 hvalues).2)

/-- The width that a value gives is checked. -/
theorem loadWidth_checks (field : String) (value : Json) :
    (loadWidth field value).Checks
      (∃ w : Int, value = .number (.int w) ∧ 1 ≤ w ∧ w ≤ 4096)
      fun width => ∃ w ∈ width, value = .number (.int w) := by
  unfold loadWidth
  dsimp only
  split
  · next w =>
    have hiff : (∃ w' : Int, Json.number (.int w) = .number (.int w') ∧ 1 ≤ w' ∧
        w' ≤ 4096) ↔ 1 ≤ w ∧ w ≤ 4096 := by simp
    have hmax : (maxFrameWidth : Int) = 4096 := rfl
    have hword : (4096 : Int) ≤ Int64.maxValue.toInt := by decide
    split
    · exact .fail (by rw [hiff]; omega) rfl
    · split
      · exact .fail (by rw [hiff]; omega) rfl
      · split
        · refine .pass (by rw [hiff]; omega) ⟨w.toNat, rfl, ?_⟩
          rw [Int.toNat_of_nonneg (by omega)]
        · exact .fail (by rw [hiff]; omega) rfl
  · next hvalue =>
    refine .fail ?_ rfl
    rintro ⟨w, rfl, -⟩
    exact hvalue w rfl

/-- The width of the strip is checked. -/
theorem loadFrameWidth_checks (members : Json.Members) :
    (loadFrameWidth members).Checks
      (∃ w : Int, (members.get? "frame_width").or (members.get? "num_leds") =
        some (.number (.int w)) ∧ 1 ≤ w ∧ w ≤ 4096)
      fun width => ∃ w ∈ width, (members.get? "frame_width").or (members.get? "num_leds") =
        some (.number (.int w)) := by
  unfold loadFrameWidth
  split
  · next value hvalue =>
    rw [hvalue]
    simpa using loadWidth_checks "frame_width" value
  · next value hnone hvalue =>
    rw [hnone, hvalue]
    simpa using loadWidth_checks "num_leds" value
  · next hnone hnone' =>
    rw [hnone, hnone']
    exact .fail (by simp) rfl

/-- The chain of nodes is checked. -/
theorem loadChain_checks {members : Json.Members} (h : ∀ m ∈ members, m.2.Ordered) :
    (loadChain members).Checks
      ((∃ items, members.get? "nodes" = some (.array items) ∧ items ≠ []) ∧
        ∀ d ∈ (Json.object members).nodeDeclarations, d.IsNode)
      fun chain => ∃ nodes ∈ chain, List.Forall₂ Describes (members.items "nodes") nodes ∧
        List.Forall₂ Describes (Json.object members).nodeDeclarations (Node.preorderAll nodes) := by
  unfold loadChain
  dsimp only
  split
  · next hnone => exact .fail (by simp [hnone]) rfl
  · next hempty => exact .fail (by simp [hempty]) rfl
  · next items hne hitems =>
    have hmembers : members.items "nodes" = items := by simp [Members.items, hitems]
    have hordered := (h _ (Members.mem_of_get? hitems)).items
    rw [nodeDeclarations, hmembers]
    refine ((load_checks.2.2 "nodes" 0 items hordered).map fun h => ⟨_, rfl, h⟩).congr ?_
    exact (and_iff_right ⟨items, hitems, hne⟩).symm
  · next value hne hne' hvalue =>
    refine .fail ?_ rfl
    rintro ⟨⟨items, hitems, -⟩, -⟩
    exact hne' items (Option.some.inj (hvalue.symm.trans hitems))

/-- What the members of a graph's description give is checked. -/
theorem loadMembers_checks {members : Json.Members} (h : ∀ m ∈ members, m.2.Ordered) :
    (loadMembers members).Checks (GraphSchema members) fun graph => ∃ g ∈ graph,
      (Json.object members).DescribesGraph g ∧
        List.Forall₂ Describes (Json.object members).nodeDeclarations g.allNodes := by
  have hboth : (⟨(), _⟩ : Loaded Unit).Checks _ fun _ => _ ∧ _ :=
    (loadFrameWidth_checks members).append (loadChain_checks h) And.intro
  unfold loadMembers
  dsimp only
  -- Only nodes that are described well are searched for repeated identifiers.
  refine ((hboth.andThen (Q := (Json.object members).nodeIds.Nodup) ?_ ?_).map ?_).congr ?_
  · intro d hd
    split at hd
    · exact isError_of_mem_duplicateIds hd
    · cases hd
  · rintro ⟨-, nodes, hnodes, -, hinside⟩
    rw [Option.mem_def.1 hnodes]
    simp [duplicateIds_eq_nil_iff, nodeIds, filterMap_declaredId? hinside]
  · rintro ⟨⟨w, hw, hwidth⟩, nodes, hnodes, hlist, hinside⟩
    rw [Option.mem_def.1 hw, Option.mem_def.1 hnodes]
    refine ⟨_, rfl, .graph (fun s => ?_) hwidth hlist, hinside⟩
    dsimp only
    split
    · next hname => simp [hname]
    · next hname => exact iff_of_false (Option.some_ne_none s).symm (hname s)
  · constructor
    · rintro ⟨⟨hwidth, hlist, hnodes⟩, hdistinct⟩
      exact ⟨hwidth, hlist, hnodes, hdistinct⟩
    · rintro ⟨hwidth, hlist, hnodes, hdistinct⟩
      exact ⟨⟨hwidth, hlist, hnodes⟩, hdistinct⟩

/-- A description is checked, and gives a graph only if no error is found. -/
theorem ofJson_checks {value : Json} (h : value.Ordered) :
    (ofJson value).Checks value.IsGraph fun graph => ∃ g ∈ graph, value.DescribesGraph g ∧
      List.Forall₂ Describes value.nodeDeclarations g.allNodes := by
  cases value with
  | object members =>
    have hchecks := loadMembers_checks h.members.2
    have hiff : GraphSchema members ↔ (Json.object members).IsGraph := by simp [IsGraph]
    unfold ofJson
    dsimp only
    split
    · next herror =>
      refine ⟨hchecks.errors, hchecks.nil_iff.trans hiff, fun hgraph => ?_⟩
      rw [hchecks.anyError_iff.2 (hiff.2 hgraph)] at herror
      cases herror
    · exact hchecks.congr hiff
  | _ => exact .fail (by simp [IsGraph]) rfl

/-- A description with an error gives no graph. -/
theorem ofJson_eq_none {value : Json}
    (h : Diagnostic.anyError (ofJson value).diagnostics = true) : (ofJson value).value = none := by
  cases value with
  | object members =>
    unfold ofJson at h ⊢
    dsimp only at h ⊢
    split
    · rfl
    · next hnone =>
      rw [if_neg hnone] at h
      exact absurd h hnone
  | _ => rfl

/-- A text gives a graph exactly if no error is found. -/
theorem load_isSome_iff (source : String) :
    (load source).value.isSome ↔ Diagnostic.anyError (load source).diagnostics = false := by
  unfold load
  split
  · next value hparse =>
    have hchecks := ofJson_checks (ordered_of_parse hparse)
    constructor
    · intro hsome
      refine Bool.eq_false_iff.2 fun herror => ?_
      rw [ofJson_eq_none herror] at hsome
      cases hsome
    · intro hnone
      obtain ⟨g, hg, -⟩ := hchecks.value (hchecks.anyError_iff.1 hnone)
      exact Option.isSome_of_mem hg
  · exact iff_of_false nofun nofun

/-- A graph that is loaded is the one described. -/
theorem described_of_load {source : String} {value : Json} {g : Graph}
    (hparse : parse source = .ok value) (hg : (load source).value = some g) :
    value.IsGraph ∧ value.DescribesGraph g ∧
      List.Forall₂ Describes value.nodeDeclarations g.allNodes := by
  have hload : load source = ofJson value := by rw [load, hparse]
  have hchecks := ofJson_checks (ordered_of_parse hparse)
  rw [← hload] at hchecks
  have hgraph := hchecks.anyError_iff.1 ((load_isSome_iff source).1 (Option.isSome_of_mem hg))
  obtain ⟨g', hg', hdescribed⟩ := hchecks.value hgraph
  obtain rfl : g = g' := Option.some.inj (hg.symm.trans hg')
  exact ⟨hgraph, hdescribed⟩

/-- A graph that is loaded has a node. -/
theorem nodes_ne_nil_of_load {source : String} {g : Graph} (hg : (load source).value = some g) :
    g.nodes ≠ [] := by
  cases hparse : parse source with
  | error e =>
    rw [load, hparse] at hg
    cases hg
  | ok value =>
    obtain ⟨⟨members, rfl, hschema⟩, ⟨-, -, hnodes⟩, -⟩ := described_of_load hparse hg
    obtain ⟨items, hitems, hne⟩ := hschema.list
    rw [Members.items, hitems] at hnodes
    intro hnil
    rw [hnil] at hnodes
    exact hne (List.forall₂_nil_right_iff.1 hnodes)

end Graph

/-- Exactly the descriptions that fit the schema are loaded. Of a text that is JSON, a graph is
loaded exactly if no error is reported, and exactly if the value that is read describes one. The
graph is then the one that is described: it has as many nodes as there are descriptions, each can be
found by its identifier, and nothing is found by any other text. -/
theorem load_accepts_schema {source : String} {value : Json}
    (hparse : Json.parse source = .ok value) :
    ((Graph.load source).value.isSome ↔
      Diagnostic.anyError (Graph.load source).diagnostics = false) ∧
    ((Graph.load source).value.isSome ↔ value.IsGraph) ∧
    ∀ g, (Graph.load source).value = some g →
      value.DescribesGraph g ∧ g.nodeCount = value.nodeDeclarations.length ∧
      (∀ id ∈ value.nodeIds, ∃ n ∈ g.allNodes, n.id = id ∧ g.find? id = some n ∧
        ∀ m ∈ g.allNodes, m.id = id → m = n) ∧
      ∀ id, id ∉ value.nodeIds → g.find? id = none := by
  have hsome := Graph.load_isSome_iff source
  have hload : Graph.load source = Graph.ofJson value := by rw [Graph.load, hparse]
  have hchecks := Graph.ofJson_checks (Json.ordered_of_parse hparse)
  rw [← hload] at hchecks
  refine ⟨hsome, hsome.trans hchecks.anyError_iff, fun g hg => ?_⟩
  obtain ⟨-, hdescribes, hinside⟩ := Graph.described_of_load hparse hg
  have hids : value.nodeIds = g.allNodes.map Node.id := Json.filterMap_declaredId? hinside
  have hnodup := (Graph.wellFormed_of_load hg).ids_nodup
  refine ⟨hdescribes, hinside.length_eq.symm, fun id hid => ?_, fun id hid => ?_⟩
  · rw [hids] at hid
    obtain ⟨n, hn, rfl⟩ := List.mem_map.1 hid
    have hunique := fun m hm hid => List.inj_on_of_nodup_map (y := n) hnodup (x := m) hm hn hid
    exact ⟨n, hn, rfl, find?_key hnodup hn, hunique⟩
  · rw [hids] at hid
    rw [Graph.find?, List.find?_eq_none]
    intro n hn heq
    exact hid (of_decide_eq_true heq ▸ List.mem_map_of_mem hn)

/-- Lists inside a list, with the other keys for the width and for a kind. -/
def nestedSource : String :=
  "\x7b\"num_leds\":4096,\"nodes\":[\x7b\"id\":\"a\",\"type\":\"X\",\"fallback\":[" ++
  "\x7b\"id\":\"b\",\"kind\":\"Y\",\"fallback\":[" ++
  "\x7b\"id\":\"c\",\"kind\":\"\",\"k\":true\x7d]\x7d]\x7d]\x7d"

/-- All three nodes are loaded, and the innermost can be found. -/
theorem nestedSource_accepted :
    ∃ value g, Json.parse nestedSource = .ok value ∧
      (Graph.load nestedSource).value = some g ∧ value.IsGraph ∧ value.DescribesGraph g ∧
      value.nodeIds = ["a", "b", "c"] ∧ g.nodeCount = value.nodeDeclarations.length ∧
      (∃ n, g.find? "c" = some n) ∧ g.find? "k" = none := by
  have hresult : (Json.parse nestedSource).toOption.map
      (fun value => (value.nodeIds, (Graph.ofJson value).value.isSome)) =
      some (["a", "b", "c"], true) := by
    decide +kernel
  obtain ⟨value, hparse, hvalue⟩ := Except.exists_ok_of_map hresult
  obtain ⟨hids, hsome⟩ := Prod.mk.inj hvalue
  have hload : Graph.load nestedSource = Graph.ofJson value := by rw [Graph.load, hparse]
  rw [← hload] at hsome
  obtain ⟨g, hg⟩ := Option.isSome_iff_exists.1 hsome
  obtain ⟨-, hiff, hloaded⟩ := load_accepts_schema hparse
  obtain ⟨hdescribes, hcount, hfound, hnot⟩ := hloaded g hg
  obtain ⟨n, -, -, hn, -⟩ := hfound "c" (by simp [hids])
  exact ⟨value, g, hparse, hg, hiff.1 hsome, hdescribes, hids, hcount, ⟨n, hn⟩,
    hnot "k" (by simp [hids])⟩

end LedPattern
