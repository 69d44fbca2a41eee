import LedPattern.Proofs.Agreement
import LedPattern.Proofs.Preservation
import LedPattern.Proofs.Reports

/-!
# Identifiers cannot be seen

The identifiers of nodes become names of slots and functions, comments of artifacts and keys of
states. None of this reaches the pixels: `rename_keeps_pixels` says that a graph whose nodes get
other identifiers, all different again, renders as before, and so does its artifact.

The names of the two programs have nothing in common, so the programs are not compared. Both render
what their graphs mean, and the meaning of a chain uses an identifier only to keep the vector of a
node (`Meaning.node_rename`). The invariant from node to node and from frame to frame is that the
vectors of both graphs are equal up to the renaming (`Vectors.Renamed`).
-/

namespace LedPattern

mutual

/-- A node with other identifiers for itself and for the nodes inside it. -/
def Node.rename (ρ : String → String) : Node → Node
  | ⟨id, kind, params, hasFallback, fallback⟩ =>
    ⟨ρ id, kind, params, hasFallback, Node.renameAll ρ fallback⟩

/-- Some nodes with other identifiers. -/
def Node.renameAll (ρ : String → String) : List Node → List Node
  | [] => []
  | n :: rest => n.rename ρ :: Node.renameAll ρ rest

end

/-- A graph with other identifiers for all its nodes. -/
def Graph.rename (ρ : String → String) (g : Graph) : Graph :=
  { g with nodes := g.nodes.map (Node.rename ρ) }

variable {ρ : String → String}

/-! ## Nodes -/

namespace Node

/-- Nodes of a list are renamed one by one. -/
theorem renameAll_eq_map (nodes : List Node) : renameAll ρ nodes = nodes.map (rename ρ) := by
  induction nodes with
  | nil => rfl
  | cons n rest ih => rw [renameAll, ih, List.map_cons]

@[simp]
theorem rename_id (n : Node) : (n.rename ρ).id = ρ n.id := by
  cases n
  rfl

@[simp]
theorem rename_kind (n : Node) : (n.rename ρ).kind = n.kind := by
  cases n
  rfl

@[simp]
theorem rename_param? (n : Node) (name : String) : (n.rename ρ).param? name = n.param? name := by
  cases n
  rfl

@[simp]
theorem rename_hasFallback (n : Node) : (n.rename ρ).hasFallback = n.hasFallback := by
  cases n
  rfl

@[simp]
theorem rename_fallback (n : Node) : (n.rename ρ).fallback = n.fallback.map (rename ρ) := by
  cases n
  exact renameAll_eq_map _

mutual

/-- The nodes in a node are renamed with it. -/
theorem preorder_rename : ∀ n : Node, (n.rename ρ).preorder = n.preorder.map (rename ρ)
  | ⟨id, kind, params, hasFallback, fallback⟩ => by
    rw [preorder_eq, preorder_eq, rename_fallback, preorderAll_rename fallback, List.map_cons]

/-- All nodes are renamed with the nodes of a list. -/
theorem preorderAll_rename : ∀ nodes : List Node,
    preorderAll (nodes.map (rename ρ)) = (preorderAll nodes).map (rename ρ)
  | [] => rfl
  | n :: rest => by
    rw [List.map_cons, preorderAll, preorderAll, preorder_rename n, preorderAll_rename rest,
      List.map_append]

end

/-- An error at a field of a node is placed at its new identifier. -/
@[simp]
theorem fieldError_rename (n : Node) (code : Diagnostic.Code) (field message : String) :
    (n.rename ρ).fieldError code field message =
      (n.fieldError code field message).atNode (ρ n.id) := by
  rw [fieldError, rename_id]
  rfl

/-- An error about a parameter of a node is placed at its new identifier. -/
@[simp]
theorem badParam_rename (n : Node) (field message : String) :
    (n.rename ρ).badParam field message = (n.badParam field message).atNode (ρ n.id) :=
  fieldError_rename n _ field message

/-- Errors are changed alike in two checks, one after the other. -/
theorem mapError_bind {α β : Type} {x : Except Diagnostic α} {f : α → Except Diagnostic β}
    {h : Diagnostic → Diagnostic} :
    (x >>= f).mapError h = x.mapError h >>= fun a => (f a).mapError h := by
  cases x <;> rfl

/-- A number is checked as before, but for the place of an error. -/
theorem finiteParam_rename (n : Node) (field : String) :
    (n.rename ρ).finiteParam field =
      (n.finiteParam field).mapError fun d => d.atNode (ρ n.id) := by
  simp only [finiteParam, rename_param?, badParam_rename]
  rcases n.param? field with _ | x | s | b
  · rfl
  · dsimp only
    split_ifs <;> rfl
  · rfl
  · rfl

/-- A decay is checked as before, but for the place of an error. -/
theorem decayParam_rename (n : Node) :
    (n.rename ρ).decayParam = n.decayParam.mapError fun d => d.atNode (ρ n.id) := by
  simp only [decayParam, rename_param?, fieldError_rename]
  rcases n.param? "decay_factor" with _ | x | s | b
  · rfl
  · dsimp only
    split_ifs <;> rfl
  · rfl
  · rfl

/-- A number of bins is checked as before, but for the place of an error. -/
theorem binsParam_rename (n : Node) :
    (n.rename ρ).binsParam = n.binsParam.mapError fun d => d.atNode (ρ n.id) := by
  simp only [binsParam, rename_param?, badParam_rename]
  rcases n.param? "bins" with _ | x | s | b
  · rfl
  · dsimp only
    rcases Double.toNat? x with _ | count
    · rfl
    · dsimp only
      split_ifs <;> rfl
  · rfl
  · rfl

/-- A color map is checked as before, but for the place of an error. -/
theorem colorMapParam_rename (n : Node) :
    (n.rename ρ).colorMapParam = n.colorMapParam.mapError fun d => d.atNode (ρ n.id) := by
  simp only [colorMapParam, rename_param?, badParam_rename, finiteParam_rename]
  split_ifs
  · rfl
  · simp only [mapError_bind]
    rfl
  · rfl

/-- A way of mirroring is checked as before, but for the place of an error. -/
theorem mirrorVariant_rename (n : Node) :
    (n.rename ρ).mirrorVariant = n.mirrorVariant.mapError fun d => d.atNode (ρ n.id) := by
  have hparam : (n.rename ρ).variantParam = n.variantParam.mapError fun d => d.atNode (ρ n.id) := by
    simp only [variantParam, rename_param?, fieldError_rename]
    rcases n.param? "variant" with _ | param
    · rfl
    · dsimp only
      rcases param.asText?.bind variantOfText? with _ | variant <;> rfl
  simp only [mirrorVariant, hparam, rename_kind, fieldError_rename, mapError_bind]
  congr 1
  funext given
  rcases variantOfKind? n.kind with _ | k <;> rcases given with _ | p
  · rfl
  · rfl
  · rfl
  · dsimp only
    split_ifs <;> rfl

/-- A predicate is checked as before, but for the place of an error. -/
theorem predicateParam_rename (n : Node) :
    (n.rename ρ).predicateParam = n.predicateParam.mapError fun d => d.atNode (ρ n.id) := by
  simp only [predicateParam, rename_param?, badParam_rename, finiteParam_rename]
  split_ifs
  · rfl
  · rw [mapError_bind]
    congr 1
    funext threshold
    cases threshold <;> rfl
  · rfl

/-- What a node does is found as before, but for the place of an error. -/
theorem operation_rename (n : Node) :
    (n.rename ρ).operation = n.operation.mapError fun d => d.atNode (ρ n.id) := by
  simp only [operation, rename_kind, rename_hasFallback, fieldError_rename, badParam_rename]
  rcases NodeKind.ofName? n.kind with _ | kind
  · rfl
  · dsimp only
    split_ifs
    · rfl
    · cases kind <;> simp only [operationOf, binsParam_rename, decayParam_rename,
        colorMapParam_rename, mirrorVariant_rename, predicateParam_rename, mapError_bind] <;> rfl

/-- A node does the same under another identifier. -/
theorem operation_rename_eq_ok {n : Node} {op : Operation} :
    (n.rename ρ).operation = .ok op ↔ n.operation = .ok op := by
  rw [operation_rename]
  cases n.operation <;> simp [Except.mapError]

/-- A node with another identifier is of the same kind. -/
@[simp]
theorem isKind_rename {n : Node} {kind : NodeKind} : (n.rename ρ).IsKind kind ↔ n.IsKind kind := by
  rw [IsKind, rename_kind]
  rfl

end Node

/-- A list of nodes starts with a source as before. -/
@[simp]
theorem startsWithSource_rename {nodes : List Node} :
    StartsWithSource (nodes.map (Node.rename ρ)) ↔ StartsWithSource nodes := by
  cases nodes <;> simp [StartsWithSource, Node.IsSource]

/-! ## Graphs -/

/-- A node that has a stage has one under another identifier. -/
theorem Staged.rename {width : Nat} {n : Node} {rest : List Node} {t u : Option Shape} {s : Stage}
    (h : Staged width n rest t s u) (ρ : String → String) :
    ∃ s', Staged width (n.rename ρ) (rest.map (Node.rename ρ)) t s' u := by
  cases h with
  | idle hop hnext =>
    exact ⟨_, .idle (Node.operation_rename_eq_ok.2 hop) (startsWithSource_rename.2 hnext)⟩
  | sample hop hnext hbins =>
    exact ⟨_, .sample (Node.operation_rename_eq_ok.2 hop) (startsWithSource_rename.not.2 hnext)
      hbins⟩
  | ramp hop => exact ⟨_, .ramp (Node.operation_rename_eq_ok.2 hop)⟩
  | decay hop hbins => exact ⟨_, .decay (Node.operation_rename_eq_ok.2 hop) hbins⟩
  | color hop => exact ⟨_, .color (Node.operation_rename_eq_ok.2 hop)⟩
  | mirror hop heven => exact ⟨_, .mirror (Node.operation_rename_eq_ok.2 hop) heven⟩

/-- The nodes of a branch have stages as before. -/
theorem StagedAll.rename {width : Nat} {nodes : List Node} {t u : Option Shape} {ss : List Stage}
    (h : StagedAll width nodes t ss u) (ρ : String → String) :
    ∃ ss', StagedAll width (nodes.map (Node.rename ρ)) t ss' u := by
  induction h with
  | nil => exact ⟨[], .nil⟩
  | cons hfirst _ ih =>
    obtain ⟨s', hfirst'⟩ := hfirst.rename ρ
    obtain ⟨ss', hrest'⟩ := ih
    exact ⟨s' :: ss', .cons hfirst' hrest'⟩

/-- A chain that has a plan has one with other identifiers. -/
theorem Planned.rename {width : Nat} {nodes : List Node} {t : Option Shape} {p : Plan}
    (h : Planned width t nodes p) (ρ : String → String) :
    ∃ p', Planned width t (nodes.map (Node.rename ρ)) p' := by
  cases h with
  | straight hlead hlast =>
    obtain ⟨lead', hlead'⟩ := hlead.rename ρ
    rw [List.map_append]
    exact ⟨_, .straight hlead' (Node.operation_rename_eq_ok.2 hlast)⟩
  | forked hlead hop hfallback hprimary hfirst hsecond hlast =>
    obtain ⟨lead', hlead'⟩ := hlead.rename ρ
    obtain ⟨first', hfirst'⟩ := hfirst.rename ρ
    obtain ⟨second', hsecond'⟩ := hsecond.rename ρ
    rw [← Node.rename_fallback] at hsecond'
    rw [List.map_append, List.map_cons, List.map_append]
    exact ⟨_, .forked hlead' (Node.operation_rename_eq_ok.2 hop) (by simpa using hfallback)
      (by simpa using hprimary) hfirst' hsecond' (Node.operation_rename_eq_ok.2 hlast)⟩

namespace Graph

variable {g : Graph}

/-- The nodes of a graph with other identifiers. -/
theorem allNodes_rename (g : Graph) : (g.rename ρ).allNodes = g.allNodes.map (Node.rename ρ) :=
  Node.preorderAll_rename g.nodes

/-- The graph is in order if its new identifiers differ. -/
theorem WellFormed.rename (hg : g.WellFormed) (hρ : Set.InjOn ρ {id | id ∈ g.ids}) :
    (g.rename ρ).WellFormed := by
  refine ⟨hg.width_pos, hg.width_le, ?_, ?_⟩
  · have hids : (g.rename ρ).allNodes.map Node.id = g.ids.map ρ := by
      simp [allNodes_rename, ids, Function.comp_def]
    rw [hids]
    exact hg.ids_nodup.map_on fun a ha b hb => hρ ha hb
  · intro n hn hnone
    rw [allNodes_rename] at hn
    obtain ⟨m, hm, rfl⟩ := List.mem_map.1 hn
    rw [Node.rename_hasFallback] at hnone
    rw [Node.rename_fallback, hg.consistent m hm hnone, List.map_nil]

end Graph

/-! ## Meanings -/

/-- The vectors of nodes called `ids` are kept under their new identifiers. -/
def Vectors.Renamed (ρ : String → String) (ids : List String) (v w : Vectors) : Prop :=
  ∀ id ∈ ids, w (ρ id) = v id

variable {ids : List String} {v w : Vectors}

/-- Replacing the vector of a node in both keeps them equal up to the renaming. -/
theorem Vectors.Renamed.set (h : Renamed ρ ids v w) (hρ : Set.InjOn ρ {id | id ∈ ids}) {id : String}
    (hid : id ∈ ids) (xs : List Float32) : Renamed ρ ids (v.set id xs) (w.set (ρ id) xs) := by
  intro other hother
  by_cases heq : other = id
  · rw [heq, Vectors.set, Vectors.set, if_pos rfl, if_pos rfl]
  · rw [Vectors.set, Vectors.set, if_neg heq, if_neg fun h => heq (hρ hother hid h), h other hother]

namespace Meaning

variable {width : Nat} {f : Frame}

/-- What a node means under another identifier. -/
theorem node_rename (hρ : Set.InjOn ρ {id | id ∈ ids}) {n : Node} (hn : n.id ∈ ids)
    {rest : List Node} {x y : Option Samples} {v' : Vectors} (hw : v.Renamed ρ ids w)
    (h : node width f n rest x v = some (y, v')) :
    ∃ w', node width f (n.rename ρ) (rest.map (Node.rename ρ)) x w = some (y, w') ∧
      v'.Renamed ρ ids w' := by
  rcases hop : n.operation with d | op
  · simp [node, hop] at h
  have hop' := (Node.operation_rename_eq_ok (ρ := ρ)).2 hop
  rcases op with bins | _ | ⟨decay, bins⟩ | map | variant | predicate | _ <;>
    simp only [node, hop, hop', startsWithSource_rename] at h ⊢
  · split_ifs at h ⊢
    all_goals
      obtain ⟨rfl, rfl⟩ := Prod.mk.inj (Option.some.inj h)
      exact ⟨w, rfl, hw⟩
  · obtain ⟨rfl, rfl⟩ := Prod.mk.inj (Option.some.inj h)
    exact ⟨w, rfl, hw⟩
  -- Only a node with a state looks at its identifier, to find and to replace its vector.
  · rcases x with _ | xs | cs
    · cases h
    · obtain ⟨rfl, rfl⟩ := Prod.mk.inj (Option.some.inj h)
      rw [Node.rename_id, hw n.id hn]
      exact ⟨_, rfl, hw.set hρ hn _⟩
    · cases h
  · rcases x with _ | xs | cs
    · cases h
    · obtain ⟨rfl, rfl⟩ := Prod.mk.inj (Option.some.inj h)
      exact ⟨w, rfl, hw⟩
    · cases h
  · rcases x with _ | xs | cs
    · cases h
    · cases h
    · obtain ⟨rfl, rfl⟩ := Prod.mk.inj (Option.some.inj h)
      exact ⟨w, rfl, hw⟩
  · cases h
  · cases h

/-- What a segment means under other identifiers, from node to node. -/
theorem segment_rename (hρ : Set.InjOn ρ {id | id ∈ ids}) {nodes : List Node}
    (hnodes : ∀ n ∈ nodes, n.id ∈ ids) {x y : Option Samples} {v' : Vectors}
    (hw : v.Renamed ρ ids w) (h : segment width f nodes x v = some (y, v')) :
    ∃ w', segment width f (nodes.map (Node.rename ρ)) x w = some (y, w') ∧
      v'.Renamed ρ ids w' := by
  induction nodes generalizing x v w with
  | nil =>
    obtain ⟨rfl, rfl⟩ := Prod.mk.inj (Option.some.inj h)
    exact ⟨w, rfl, hw⟩
  | cons n rest ih =>
    rw [List.forall_mem_cons] at hnodes
    obtain ⟨⟨z, u⟩, hnode, hrest⟩ := Option.bind_eq_some_iff.1 h
    obtain ⟨u', hnode', hu⟩ := node_rename hρ hnodes.1 hw hnode
    obtain ⟨w', hrest', hw'⟩ := ih hnodes.2 hu hrest
    exact ⟨w', Option.bind_eq_some_iff.2 ⟨_, hnode', hrest'⟩, hw'⟩

/-- What a chain means under other identifiers. -/
theorem chain_rename (hρ : Set.InjOn ρ {id | id ∈ ids}) {nodes : List Node}
    (hnodes : ∀ n ∈ nodes, n.id ∈ ids ∧ ∀ m ∈ n.fallback, m.id ∈ ids) {x : Option Samples}
    {pixels : List Pixel} {v' : Vectors} (hw : v.Renamed ρ ids w)
    (h : chain width f nodes x v = some (pixels, v')) :
    ∃ w', chain width f (nodes.map (Node.rename ρ)) x w = some (pixels, w') ∧
      v'.Renamed ρ ids w' := by
  induction nodes generalizing x v w with
  | nil => cases h
  | cons n rest ih =>
    rw [List.forall_mem_cons] at hnodes
    obtain ⟨⟨hn, hfallback⟩, hrest⟩ := hnodes
    rcases hop : n.operation with d | op
    · simp [chain, node, hop] at h
    have hop' := (Node.operation_rename_eq_ok (ρ := ρ)).2 hop
    rw [List.map_cons]
    cases op with
    | pixelOutput =>
      simp only [chain, hop] at h
      obtain ⟨shown, houtput, h⟩ := Option.bind_eq_some_iff.1 h
      obtain ⟨rfl, rfl⟩ := Prod.mk.inj (Option.some.inj h)
      refine ⟨w, ?_, hw⟩
      simp only [chain, hop', houtput]
      rfl
    | conditionalFallback predicate =>
      simp only [chain, hop] at h
      obtain ⟨⟨joined, u⟩, hsegment, h⟩ := Option.bind_eq_some_iff.1 h
      obtain ⟨shown, houtput, h⟩ := Option.bind_eq_some_iff.1 h
      obtain ⟨rfl, rfl⟩ := Prod.mk.inj (Option.some.inj h)
      -- Either way consists of nodes of the graph, and is renamed as they are.
      have hway : ∀ m ∈ if predicate.holds f then rest.dropLast else n.fallback, m.id ∈ ids := by
        intro m hm
        split at hm
        · exact (hrest m ((List.dropLast_sublist rest).subset hm)).1
        · exact hfallback m hm
      obtain ⟨w', hsegment', hw'⟩ := segment_rename hρ hway hw hsegment
      refine ⟨w', ?_, hw'⟩
      rw [apply_ite (List.map (Node.rename ρ)), List.map_dropLast, ← Node.rename_fallback]
        at hsegment'
      simp only [chain, hop']
      exact Option.bind_eq_some_iff.2 ⟨_, hsegment', Option.bind_eq_some_iff.2 ⟨_, houtput, rfl⟩⟩
    | audioInput | rampShape | persistDecay | colorize | mirror =>
      simp only [chain, hop] at h
      obtain ⟨⟨z, u⟩, hnode, hchain⟩ := Option.bind_eq_some_iff.1 h
      obtain ⟨u', hnode', hu⟩ := node_rename hρ hn hw hnode
      obtain ⟨w', hchain', hw'⟩ := ih hrest hu hchain
      refine ⟨w', ?_, hw'⟩
      simp only [chain, hop']
      exact Option.bind_eq_some_iff.2 ⟨_, hnode', hchain'⟩

/-- A node leaves as many samples as before. -/
theorem lengthAfter_rename (width : Nat) (n : Node) (rest : List Node) (len : Nat) :
    lengthAfter width (n.rename ρ) (rest.map (Node.rename ρ)) len =
      lengthAfter width n rest len := by
  simp only [lengthAfter, Node.operation_rename, startsWithSource_rename]
  cases n.operation <;> rfl

/-- The states of a segment have the lengths that they had. -/
theorem segmentStates_rename (width len : Nat) (nodes : List Node) :
    segmentStates width len (nodes.map (Node.rename ρ)) =
      (segmentStates width len nodes).map (Prod.map ρ id) := by
  induction nodes generalizing len with
  | nil => rfl
  | cons n rest ih =>
    simp only [List.map_cons, segmentStates, Node.isKind_rename, lengthAfter_rename, ih,
      List.map_append]
    split_ifs <;> simp

/-- The states of a chain have the lengths that they had. -/
theorem chainStates_rename (width len : Nat) (nodes : List Node) :
    chainStates width len (nodes.map (Node.rename ρ)) =
      (chainStates width len nodes).map (Prod.map ρ id) := by
  induction nodes generalizing len with
  | nil => rfl
  | cons n rest ih =>
    simp only [List.map_cons, chainStates, Node.isKind_rename, Node.rename_fallback,
      segmentStates_rename, lengthAfter_rename, ih, List.map_append]
    split_ifs <;> simp

end Meaning

/-- Looking up a new key finds what was under the old one, if no other key has become the same. -/
theorem lookup_rename {l : List (String × Nat)} {key : String}
    (h : ∀ e ∈ l, ρ e.1 = ρ key → e.1 = key) :
    (l.map (Prod.map ρ id)).lookup (ρ key) = l.lookup key := by
  induction l with
  | nil => rfl
  | cons e rest ih =>
    rw [List.forall_mem_cons] at h
    have hkey : (ρ key == ρ e.1) = (key == e.1) := by
      rw [Bool.eq_iff_iff, beq_iff_eq, beq_iff_eq]
      exact ⟨fun heq => (h.1 heq.symm).symm, fun heq => congrArg ρ heq⟩
    rw [List.map_cons, List.lookup_cons, List.lookup_cons, ih h.2]
    simp only [Prod.map_fst, Prod.map_snd, hkey, id]

namespace Graph

variable {g : Graph}

/-- Before the first frame all nodes have the vectors that they had. -/
theorem restingVectors_rename (hρ : Set.InjOn ρ {id | id ∈ g.ids}) :
    g.restingVectors.Renamed ρ g.ids (g.rename ρ).restingVectors := by
  intro id hid
  have hkeys := (Meaning.chainStates_sublist g.frameWidth 0 g.nodes).subset
  rw [restingVectors, restingVectors]
  show List.replicate (((Meaning.chainStates g.frameWidth 0 (g.nodes.map (Node.rename ρ))).lookup
    (ρ id)).getD 0) 0 = _
  rw [Meaning.chainStates_rename, lookup_rename]
  intro e he heq
  exact hρ (hkeys (List.mem_map_of_mem he)) hid heq

/-- The pixels of all frames are those that they were. -/
theorem meanings_rename (hρ : Set.InjOn ρ {id | id ∈ g.ids}) {frames : List Frame}
    {steps : List (List Pixel × Vectors)} (hw : v.Renamed ρ g.ids w)
    (h : g.meanings v frames = some steps) :
    ∃ steps', (g.rename ρ).meanings w frames = some steps' ∧
      steps'.map Prod.fst = steps.map Prod.fst := by
  have hstep : ∀ f v w ps v', v.Renamed ρ g.ids w → g.meaning f v = some (ps, v') →
      ∃ qs w', (g.rename ρ).meaning f w = some (qs, w') ∧ ps = qs ∧ v'.Renamed ρ g.ids w' := by
    intro f v w ps v' hw hfirst
    obtain ⟨w', hfirst', hw'⟩ := Meaning.chain_rename hρ (fun n hn => ids_of_mem hn) hw hfirst
    exact ⟨ps, w', hfirst', rfl, hw'⟩
  obtain ⟨steps', hsteps', hpixels⟩ := meanings_related hstep hw h
  refine ⟨steps', hsteps', ?_⟩
  rw [eq_comm, ← List.forall₂_eq_eq_eq]
  exact List.forall₂_map_left_iff.2 (List.forall₂_map_right_iff.2 hpixels)

/-- A simulator of a graph's program shows the pixels that the graph means. -/
theorem trace_pixels (hg : g.WellFormed) {pl : Plan} (hplan : Planned g.frameWidth none g.nodes pl)
    {sim : Simulator} (hsim : sim.Models (g.programOf pl) Store.blank) {frames : List Frame}
    (hframes : ∀ f ∈ frames, f.Complete) :
    ∃ ss steps, sim.trace frames = .ok ss ∧ g.meanings g.restingVectors frames = some steps ∧
      ss.map Simulator.pixels = (steps.map Prod.fst).map List.toArray := by
  obtain ⟨ss, steps, htrace, hsteps, hmeanings⟩ := trace_meanings hg hplan hsim hframes
  have hpixels : List.Forall₂ (fun s step => s.pixels = step.1.toArray) ss steps := by
    refine hmeanings.imp ?_
    rintro s step ⟨hstep, -⟩
    rw [← hstep, Array.toArray_toList]
  refine ⟨ss, steps, htrace, hsteps, ?_⟩
  rw [List.map_map, ← List.forall₂_eq_eq_eq]
  exact List.forall₂_map_left_iff.2 (List.forall₂_map_right_iff.2 hpixels)

/-- Simulators of a graph's program and of the graph's program under other identifiers show the same
pixels. -/
theorem trace_rename (hg : g.WellFormed) (hρ : Set.InjOn ρ {id | id ∈ g.ids}) {pl pl' : Plan}
    (hplan : Planned g.frameWidth none g.nodes pl)
    (hplan' : Planned g.frameWidth none (g.rename ρ).nodes pl') {sim sim' : Simulator}
    (hsim : sim.Models (g.programOf pl) Store.blank)
    (hsim' : sim'.Models ((g.rename ρ).programOf pl') Store.blank) {frames : List Frame}
    (hframes : ∀ f ∈ frames, f.Complete) :
    ∃ ss ss', sim.trace frames = .ok ss ∧ sim'.trace frames = .ok ss' ∧
      ss'.map Simulator.pixels = ss.map Simulator.pixels := by
  obtain ⟨ss, steps, htrace, hsteps, hpixels⟩ := trace_pixels hg hplan hsim hframes
  obtain ⟨ss', steps', htrace', hsteps', hpixels'⟩ :=
    trace_pixels (hg.rename hρ) hplan' hsim' hframes
  obtain ⟨other, hother, hsame⟩ := meanings_rename hρ (restingVectors_rename hρ) hsteps
  obtain rfl : steps' = other := Option.some.inj (hsteps'.symm.trans hother)
  exact ⟨ss, ss', htrace, htrace', by rw [hpixels', hpixels, hsame]⟩

end Graph

/-- Identifiers cannot be seen. A graph that is lowered is lowered, too, if all its nodes get other
identifiers that differ from each other, be they like those of before or not. On every sequence of
frames the simulators of both programs show the same pixels. So do the instances of what is read
from the artifacts that are printed for them, in either profile. -/
theorem rename_keeps_pixels {source : String} {g : Graph} {p : Program} {ρ : String → String}
    (hload : (Graph.load source).value = some g) (hlower : g.lower.program = some p)
    (hρ : Set.InjOn ρ {id | id ∈ g.ids}) :
    ∃ p' sim sim', (g.rename ρ).lower.program = some p' ∧
      Simulator.ofProgram p = .ok sim ∧ Simulator.ofProgram p' = .ok sim' ∧
      ∀ (source' : String) (profile : Profile), ∃ q q' emitted emitted',
        Program.ofArtifact (p.print (.ofSource source) ⟨profile, none⟩).text = .ok q ∧
        Program.ofArtifact (p'.print (.ofSource source') ⟨profile, none⟩).text = .ok q' ∧
        Simulator.ofProgram q = .ok emitted ∧ Simulator.ofProgram q' = .ok emitted' ∧
        ∀ frames : List Frame, (∀ f ∈ frames, f.Complete) → ∃ rs rs' es es',
          sim.trace frames = .ok rs ∧ sim'.trace frames = .ok rs' ∧
          emitted.trace frames = .ok es ∧ emitted'.trace frames = .ok es' ∧
          rs'.map Simulator.pixels = rs.map Simulator.pixels ∧
          es'.map Simulator.pixels = es.map Simulator.pixels := by
  have hg := Graph.wellFormed_of_load hload
  have hg' := hg.rename hρ
  obtain ⟨pl, hplan, rfl⟩ := Graph.exists_plan_of_lower hlower
  obtain ⟨pl', hplan'⟩ := hplan.rename ρ
  have hlower' := (Graph.lower_of_plan hg' (Graph.plan_result_iff.2 hplan')).2
  have hsound := Graph.programOf_sound hg hplan
  have hsound' := Graph.programOf_sound hg' hplan'
  have hversion := Provenance.newline_not_mem_version
  obtain ⟨sim, hsim, hr⟩ := Simulator.exists_ofProgram hsound
  obtain ⟨sim', hsim', hr'⟩ := Simulator.exists_ofProgram hsound'
  obtain ⟨emitted, hemitted, he⟩ := Simulator.exists_ofProgram hsound.erased
  obtain ⟨emitted', hemitted', he'⟩ := Simulator.exists_ofProgram hsound'.erased
  refine ⟨_, sim, sim', by rw [hlower'], hsim, hsim', fun source' profile =>
    ⟨_, _, emitted, emitted',
      Program.ofArtifact_print (Graph.programOf_printable hg.width_lt hplan) _ (hversion _) profile,
      Program.ofArtifact_print (Graph.programOf_printable hg'.width_lt hplan') _ (hversion _)
        profile,
      hemitted, hemitted', fun frames hframes => ?_⟩⟩
  -- What is read back from either artifact renders as the program it was printed from.
  obtain ⟨rs, rs', hrs, hrs', hsame⟩ := Graph.trace_rename hg hρ hplan hplan' hr hr' hframes
  obtain ⟨es, ts, hes, hts, herased⟩ := Simulator.trace_erased hsound he hr hframes
  obtain ⟨es', ts', hes', hts', herased'⟩ := Simulator.trace_erased hsound' he' hr' hframes
  obtain rfl : rs = ts := Except.ok.inj (hrs.symm.trans hts)
  obtain rfl : rs' = ts' := Except.ok.inj (hrs'.symm.trans hts')
  exact ⟨rs, rs', es, es', hrs, hrs', hes, hes', hsame, by rw [herased', herased, hsame]⟩

/-- Levels that fade three times, one after another. -/
def fadingSource : String :=
  "\x7b\"frame_width\":2,\"nodes\":[\x7b\"id\":\"a\",\"kind\":\"AudioInput\"\x7d," ++
  "\x7b\"id\":\"p\",\"kind\":\"PersistDecay\"\x7d," ++
  "\x7b\"id\":\"q\",\"kind\":\"PersistDecay\"\x7d," ++
  "\x7b\"id\":\"r\",\"kind\":\"PersistDecay\"\x7d," ++
  "\x7b\"id\":\"c\",\"kind\":\"Colorize\"\x7d,\x7b\"id\":\"o\",\"kind\":\"PixelOutput\"\x7d]\x7d"

/-- Identifiers for its nodes that give the same symbol or are no symbols at all. -/
def awkwardNames : String → String
  | "p" => "a-b"
  | "q" => "a_b"
  | "r" => "a_b_2"
  | "c" => "*/\n"
  | id => id

/-- The levels fade as before, although the slots have to be told apart by numbers. -/
theorem fadingSource_keeps_pixels :
    ∃ g p p', (Graph.load fadingSource).value = some g ∧ g.lower.program = some p ∧
      Set.InjOn awkwardNames {id | id ∈ g.ids} ∧
      (g.rename awkwardNames).lower.program = some p' ∧
      p'.slots.map Slot.symbol = ["state_a_b", "state_a_b_2", "state_a_b_2_2"] ∧
      ∃ sim sim' rs rs', Simulator.ofProgram p = .ok sim ∧ Simulator.ofProgram p' = .ok sim' ∧
        sim.trace [loudFrame, silentFrame] = .ok rs ∧
        sim'.trace [loudFrame, silentFrame] = .ok rs' ∧
        rs'.map Simulator.pixels = rs.map Simulator.pixels := by
  have hresult : (Graph.load fadingSource).value.map (fun g => (g.ids, g.lower.program.isSome,
      (g.rename awkwardNames).lower.program.map fun p => p.slots.map Slot.symbol)) =
      some (["a", "p", "q", "r", "c", "o"], true,
        some ["state_a_b", "state_a_b_2", "state_a_b_2_2"]) := by
    decide +kernel
  obtain ⟨g, hload, hg⟩ := Option.map_eq_some_iff.1 hresult
  simp only [Prod.mk.injEq] at hg
  obtain ⟨hids, hsome, hslots⟩ := hg
  obtain ⟨p, hlower⟩ := Option.isSome_iff_exists.1 hsome
  have hdistinct : ∀ a ∈ ["a", "p", "q", "r", "c", "o"], ∀ b ∈ ["a", "p", "q", "r", "c", "o"],
      awkwardNames a = awkwardNames b → a = b := by
    decide
  have hρ : Set.InjOn awkwardNames {id | id ∈ g.ids} := by
    rw [hids]
    exact fun a ha b hb => hdistinct a ha b hb
  obtain ⟨p', sim, sim', hlower', hsim, hsim', htraces⟩ := rename_keeps_pixels hload hlower hρ
  rw [hlower'] at hslots
  have hframes : ∀ f ∈ [loudFrame, silentFrame], f.Complete := by
    simp [loudFrame, silentFrame, Frame.Complete]
  obtain ⟨q, q', emitted, emitted', -, -, -, -, hrender⟩ := htraces "" .firmware
  obtain ⟨rs, rs', es, es', hrs, hrs', -, -, hsame, -⟩ := hrender _ hframes
  exact ⟨g, p, p', hload, hlower, hρ, hlower', Option.some.inj hslots, sim, sim', rs, rs', hsim,
    hsim', hrs, hrs', hsame⟩

end LedPattern
