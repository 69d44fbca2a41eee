import LedPattern.Proofs.Emission
import LedPattern.Proofs.Meaning
import LedPattern.Proofs.Typing

/-!
# Slots and nodes with a state

A program has one slot for each node with a state, as long as the samples that reach the node. The
nodes and their lengths are read off the chain by `Meaning.chainStates`, and `states_perm` says that
the slots of a graph's program are these, though a fork's ways come in another order. In which order
they come is said by `owners_eq`.

Where no two nodes with a state share an identifier (`Graph.DistinctStates`), the owners of the
slots differ (`owners_nodup`). In a graph that has been loaded no two nodes at all do, and before
the first frame every slot holds the vector of its owner (`restingVectors_slot`). What is known of
slots and their loops is put together in `slots_match_states`.
-/

namespace LedPattern

/-- The nodes of a graph in the order in which they are lowered: first those of the chain, where a
conditional node is followed by its primary way, and then those of the fallback list. -/
def Graph.loweringOrder (g : Graph) : List Node := g.nodes ++ g.nodes.flatMap Node.fallback

/-- The owners of slots with the lengths of the slots. -/
def Storage.states (s : Storage) : List (String × Nat) := s.slots.map fun x => (x.owner, x.len)

/-- What reaches a node after another one has the length that was foreseen. -/
theorem Staged.lengthAfter_eq {width : Nat} {n : Node} {rest : List Node} {t u : Option Shape}
    {st : Stage} (h : Staged width n rest t st u) {len : Nat} (hlen : ∀ sh ∈ t, len = sh.len) :
    ∀ sh ∈ u, Meaning.lengthAfter width n rest len = sh.len := by
  intro sh hsh
  cases h with
  | idle hop hnext => simpa [Meaning.lengthAfter, hop, hnext] using hlen sh hsh
  | sample hop hnext =>
    obtain rfl := Option.some.inj hsh
    simp [Meaning.lengthAfter, hop, hnext]
  | ramp hop =>
    obtain rfl := Option.some.inj hsh
    simp [Meaning.lengthAfter, hop]
  | decay hop | color hop | mirror hop =>
    obtain rfl := Option.some.inj hsh
    simpa [Meaning.lengthAfter, hop] using hlen _ rfl

namespace Kernel

variable {width : Nat} {s : Storage} {cur : Buffer} {t u : Option Shape} {len : Nat}

/-- A node with a state gets a slot as long as its input, and no other node gets one. -/
theorem stage_states {n : Node} {rest : List Node} {st : Stage} (h : Staged width n rest t st u)
    (hs : s.Named) (hcur : s.Holds cur t) (hlen : ∀ sh ∈ t, len = sh.len) :
    (stage width s cur st).storage.states =
      s.states ++ if n.IsKind .persistDecay then [(n.id, len)] else [] := by
  -- All stages but one leave the slots as they are.
  have hquiet : ∀ op, n.operation = .ok op → op.kind ≠ .persistDecay →
      (stage width s cur st).storage.slots = s.slots → (stage width s cur st).storage.states =
        s.states ++ if n.IsKind .persistDecay then [(n.id, len)] else [] := by
    intro op hop hkind hslots
    rw [if_neg ((Node.operation_ok hop).1.ne hkind), List.append_nil, Storage.states, hslots]
    rfl
  cases h with
  | idle hop => exact hquiet _ hop (by simp [Operation.kind]) rfl
  | @sample bins _ hop =>
    exact hquiet _ hop (by simp [Operation.kind])
      (Storage.acquire_spec hs .float (bins.getD width) "").1.slots
  | ramp hop =>
    exact hquiet _ hop (by simp [Operation.kind])
      (Storage.acquire_spec hs .float width cur.symbol).1.slots
  | decay hop =>
    have hkind : n.IsKind .persistDecay := (Node.operation_ok hop).1
    obtain ⟨-, -, rfl, -⟩ := Storage.holds_some.1 hcur
    obtain ⟨symbol, -, -, hstorage, -⟩ := Storage.slotFor_spec hs n.id cur.len
    rw [if_pos hkind, hlen _ rfl]
    simp only [stage, hstorage, Storage.states, List.map_append, List.map_singleton]
  | color hop =>
    exact hquiet _ hop (by simp [Operation.kind]) (Storage.acquire_spec hs .rgb cur.len "").1.slots
  | mirror hop =>
    exact hquiet _ hop (by simp [Operation.kind])
      (Storage.acquire_spec hs .rgb cur.len cur.symbol).1.slots

/-- The slots that a segment adds are those of its nodes with a state. -/
theorem stages_states {nodes : List Node} {ss : List Stage} (h : StagedAll width nodes t ss u)
    (hwidth : width < Index.limit) (hs : s.Named) (hcur : s.Holds cur t)
    (hlen : ∀ sh ∈ t, len = sh.len) :
    (stages width s cur ss).storage.states = s.states ++ Meaning.segmentStates width len nodes := by
  induction h generalizing s cur len with
  | nil => simp [stages, Meaning.segmentStates]
  | cons hfirst _ ih =>
    obtain ⟨hnamed, -, hholds⟩ := stage_storage hfirst.fits hwidth hs hcur
    rw [stages, ih hnamed hholds (hfirst.lengthAfter_eq hlen), stage_states hfirst hs hcur hlen,
      Meaning.segmentStates, List.append_assoc]

/-- The slots that a fork adds are those of its two ways. -/
theorem fork_states {primary fallback : List Node} (fk : Fork) {sh : Shape}
    (hfirst : StagedAll width primary t fk.primary (some sh))
    (hsecond : StagedAll width fallback t fk.fallback (some sh)) (hwidth : width < Index.limit)
    (hs : s.Named) (hcur : s.Holds cur t) (hlen : ∀ sh ∈ t, len = sh.len) :
    (fork width s cur fk).storage.states = s.states ++
      Meaning.segmentStates width len primary ++ Meaning.segmentStates width len fallback := by
  obtain ⟨hnamed, hstep, -, -, -, -, hdst⟩ :=
    fork_ways hfirst.fits hsecond.fits hwidth hs hcur
  have hslots : (fork width s cur fk).storage.slots = _ := hdst.slots
  rw [← stages_states hfirst hwidth hs hcur hlen,
    ← stages_states hsecond hwidth hnamed (hstep.holds hcur) hlen, Storage.states, hslots]
  rfl

/-- The slots of a straight chain's plan. -/
theorem main_states_straight {chain : List Node} {lead : List Stage} {out : String}
    (hlead : StagedAll width chain none lead u) (hwidth : width < Index.limit) :
    (main width ⟨lead, none, out⟩).storage.states = Meaning.segmentStates width 0 chain :=
  stages_states hlead hwidth Storage.named_empty (holds_none _ Buffer.empty) (by simp)

/-- The slots of a forked chain's plan: those of the nodes before the fork, of the primary way, and
of the fallback list, if `after` samples reach the fork. -/
theorem main_states_forked {before primary fallback : List Node} {lead : List Stage} {out : String}
    (fk : Fork) {sh : Shape} (hlead : StagedAll width before none lead t)
    (hfirst : StagedAll width primary t fk.primary (some sh))
    (hsecond : StagedAll width fallback t fk.fallback (some sh)) (hwidth : width < Index.limit)
    {after : Nat} (hafter : ∀ sh ∈ t, after = sh.len) :
    (main width ⟨lead, some fk, out⟩).storage.states = Meaning.segmentStates width 0 before ++
      Meaning.segmentStates width after primary ++ Meaning.segmentStates width after fallback := by
  obtain ⟨hnamed, -, hholds⟩ :=
    stages_storage hlead.fits hwidth Storage.named_empty (holds_none _ Buffer.empty)
  have hslots := fork_states fk hfirst hsecond hwidth hnamed hholds hafter
  rwa [stages_states hlead hwidth Storage.named_empty (holds_none _ Buffer.empty) (by simp)]
    at hslots

end Kernel

namespace Meaning

/-- The states of a chain that starts with a segment, with the length of what the segment leaves. -/
theorem chainStates_append {width : Nat} {before tail : List Node} {t u : Option Shape}
    {ss : List Stage} (h : StagedAll width before t ss u) (hleaf : ∀ n ∈ before, n.fallback = [])
    (htail : ¬StartsWithSource tail) {len : Nat} (hlen : ∀ sh ∈ t, len = sh.len) :
    ∃ after, (∀ sh ∈ u, after = sh.len) ∧ chainStates width len (before ++ tail) =
      segmentStates width len before ++ chainStates width after tail := by
  induction h generalizing len with
  | nil => exact ⟨len, hlen, rfl⟩
  | @cons n rest t u w st ss hfirst _ ih =>
    rw [List.forall_mem_cons] at hleaf
    obtain ⟨after, hafter, hstates⟩ := ih hleaf.2 (hfirst.lengthAfter_eq hlen)
    refine ⟨after, hafter, ?_⟩
    have hcongr : lengthAfter width n (rest ++ tail) len = lengthAfter width n rest len := by
      simp only [lengthAfter, startsWithSource_append rest htail]
    rw [List.cons_append, chainStates, hleaf.1, hcongr, hstates]
    simp only [segmentStates, List.append_nil, List.append_assoc]

/-- The nodes of a segment that have a state are some of its nodes. -/
theorem segmentStates_sublist (width len : Nat) (nodes : List Node) :
    ((segmentStates width len nodes).map Prod.fst).Sublist (nodes.map Node.id) := by
  induction nodes generalizing len with
  | nil => exact List.Sublist.refl _
  | cons n rest ih =>
    rw [segmentStates, List.map_append, List.map_cons]
    split
    · exact (ih _).cons_cons _
    · exact (ih _).cons _

/-- The nodes of a segment that have a state, in order. -/
theorem segmentStates_owners (width len : Nat) (nodes : List Node) :
    (segmentStates width len nodes).map Prod.fst =
      (nodes.filter fun n => n.IsKind .persistDecay).map Node.id := by
  induction nodes generalizing len with
  | nil => rfl
  | cons n rest ih =>
    rw [segmentStates, List.map_append, ih, List.filter_cons]
    by_cases hkind : n.IsKind .persistDecay
    · simp [hkind]
    · simp [hkind]

/-- The nodes of a chain that have a state are some of its nodes. -/
theorem chainStates_sublist (width len : Nat) (nodes : List Node) :
    ((chainStates width len nodes).map Prod.fst).Sublist
      ((Node.preorderAll nodes).map Node.id) := by
  induction nodes generalizing len with
  | nil => exact List.Sublist.refl _
  | cons n rest ih =>
    rw [chainStates, Node.preorderAll, Node.preorder_eq]
    simp only [List.map_append, List.map_cons, List.cons_append]
    have hrest := ((segmentStates_sublist width len n.fallback).trans
      ((Node.sublist_preorderAll n.fallback).map Node.id)).append
      (ih (lengthAfter width n rest len))
    split
    · exact hrest.cons_cons _
    · exact hrest.cons _

/-- A node of a chain that has a state, or one of a fallback list, is found. -/
theorem mem_chainStates (width : Nat) {nodes : List Node} {n : Node}
    (hkind : n.IsKind .persistDecay)
    (hmem : n ∈ nodes ∨ ∃ m ∈ nodes, n ∈ m.fallback) (len : Nat) :
    n.id ∈ (chainStates width len nodes).map Prod.fst := by
  have hsegment : ∀ (nodes : List Node) (len : Nat), n ∈ nodes →
      n.id ∈ (segmentStates width len nodes).map Prod.fst := by
    intro nodes
    induction nodes with
    | nil => simp
    | cons m rest ih =>
      intro len hn
      rw [segmentStates, List.map_append, List.mem_append]
      rcases List.mem_cons.1 hn with rfl | hn
      · exact .inl (by rw [if_pos hkind]; simp)
      · exact .inr (ih _ hn)
  induction nodes generalizing len with
  | nil => simp at hmem
  | cons m rest ih =>
    rw [chainStates, List.map_append, List.map_append, List.mem_append, List.mem_append]
    rcases hmem with hmem | ⟨k, hk, hn⟩
    · rcases List.mem_cons.1 hmem with rfl | hn
      · exact .inl (.inl (by rw [if_pos hkind]; simp))
      · exact .inr (ih (.inl hn) _)
    · rcases List.mem_cons.1 hk with rfl | hk
      · exact .inl (.inr (hsegment _ _ hn))
      · exact .inr (ih (.inr ⟨k, hk, hn⟩) _)

end Meaning

namespace Graph

variable {g : Graph} {p : Plan}

/-- The output has no state. -/
theorem chainStates_output {width len : Nat} {last : Node}
    (hlast : last.operation = .ok .pixelOutput)
    (hleaf : last.fallback = []) : Meaning.chainStates width len [last] = [] := by
  have hout : last.IsKind .pixelOutput := (Node.operation_ok hlast).1
  simp [Meaning.chainStates, Meaning.segmentStates, hleaf, hout.ne (show NodeKind.pixelOutput ≠
    .persistDecay by decide)]

/-- Nodes of a chain that are in order hold nodes only if they are conditional. -/
theorem leaf_of_mem (hg : g.WellFormed) {n : Node} (hmem : n ∈ g.nodes) (hr : n.Resolves)
    (hkind : ¬n.IsKind .conditionalFallback) : n.fallback = [] :=
  Node.fallback_eq_nil (hg.consistent n ((Node.sublist_preorderAll _).subset hmem)) hr hkind

/-- The nodes of a segment hold no nodes. -/
theorem leaves_of_staged (hg : g.WellFormed) {nodes : List Node} {t u : Option Shape}
    {ss : List Stage} (h : StagedAll g.frameWidth nodes t ss u) (hmem : nodes ⊆ g.nodes) :
    ∀ n ∈ nodes, n.fallback = [] :=
  fun n hn => leaf_of_mem hg (hmem hn) (h.inner n hn).1 (h.inner n hn).2.1

/-- The output holds no nodes. -/
theorem leaf_of_output (hg : g.WellFormed) {last : Node} (hlast : last.operation = .ok .pixelOutput)
    (hmem : last ∈ g.nodes) : last.fallback = [] := by
  have hout : last.IsKind .pixelOutput := (Node.operation_ok hlast).1
  exact leaf_of_mem hg hmem ⟨_, hlast⟩ (hout.ne (by decide))

/-- The slots of a graph's program are those of its nodes with a state. -/
theorem states_perm (hg : g.WellFormed) (h : Planned g.frameWidth none g.nodes p) :
    (Kernel.main g.frameWidth p).storage.states.Perm
      (Meaning.chainStates g.frameWidth 0 g.nodes) := by
  have hwidth := hg.width_lt
  have hstart : ∀ sh ∈ (none : Option Shape), 0 = sh.len := by simp
  generalize hnodes : g.nodes = nodes at h
  cases h with
  | @straight chain last lead hlead hlast =>
    have hout : last.IsKind .pixelOutput := (Node.operation_ok hlast).1
    have hleaf := leaves_of_staged hg hlead (by simp [hnodes])
    have hleafLast := leaf_of_output hg hlast (by simp [hnodes])
    obtain ⟨after, -, hstates⟩ := Meaning.chainStates_append hlead hleaf
      (not_startsWithSource hout rfl []) hstart
    rw [hstates, chainStates_output hlast hleafLast, List.append_nil,
      Kernel.main_states_straight hlead hwidth]
  | @forked before primary n last u predicate lead first second hlead hop _ _ hfirst hsecond
      hlast =>
    have hout : last.IsKind .pixelOutput := (Node.operation_ok hlast).1
    have hkind : n.IsKind .conditionalFallback := (Node.operation_ok hop).1
    have hleaf := leaves_of_staged hg hlead (by simp [hnodes])
    have hleafPrimary := leaves_of_staged hg hfirst fun m hm => by simp [hnodes, hm]
    have hleafLast := leaf_of_output hg hlast (by simp [hnodes])
    obtain ⟨after, hafter, hstates⟩ := Meaning.chainStates_append hlead hleaf
      (not_startsWithSource hkind rfl (primary ++ [last])) hstart
    obtain ⟨final, -, hstates'⟩ := Meaning.chainStates_append hfirst hleafPrimary
      (not_startsWithSource hout rfl []) hafter
    have hlength : Meaning.lengthAfter g.frameWidth n (primary ++ [last]) after = after := by
      simp [Meaning.lengthAfter, hop]
    rw [hstates, Meaning.chainStates, if_neg (hkind.ne (by decide)), hlength, hstates',
      chainStates_output hlast hleafLast, List.append_nil, List.nil_append,
      Kernel.main_states_forked _ hlead hfirst hsecond hwidth hafter, List.append_assoc]
    -- The program has the primary way first, the chain the fallback list.
    exact List.Perm.append_left _ List.perm_append_comm

/-- The owners of the slots of a graph's program are those with a state among some of its nodes,
though a fork's ways come in another order. The graph may hold other nodes, which are not
lowered. -/
theorem owners_perm (hwidth : g.frameWidth < Index.limit)
    (h : Planned g.frameWidth none g.nodes p) :
    ∃ nodes : List Node, nodes.Sublist g.allNodes ∧
      ((Kernel.main g.frameWidth p).storage.slots.map Slot.owner).Perm
        ((nodes.filter fun n => n.IsKind .persistDecay).map Node.id) := by
  have howners : (Kernel.main g.frameWidth p).storage.slots.map Slot.owner =
      (Kernel.main g.frameWidth p).storage.states.map Prod.fst := by
    rw [Storage.states, List.map_map]
    rfl
  rw [howners, allNodes]
  generalize g.nodes = nodes at h
  cases h with
  | @straight chain last lead hlead hlast =>
    refine ⟨chain, (List.sublist_append_left _ _).trans (Node.sublist_preorderAll _), ?_⟩
    rw [Kernel.main_states_straight hlead hwidth, Meaning.segmentStates_owners]
  | @forked before primary n last u predicate lead first second hlead hop _ _ hfirst hsecond
      hlast =>
    have hafter : ∀ sh ∈ u, (u.map Shape.len).getD 0 = sh.len := by
      rintro sh ⟨⟩
      rfl
    -- In the tree the fallback list comes before the primary way, in the storage after it.
    refine ⟨before ++ (n.fallback ++ primary), ?_, ?_⟩
    · rw [Node.preorderAll_append, Node.preorderAll, Node.preorder_eq, Node.preorderAll_append,
        List.cons_append]
      refine (Node.sublist_preorderAll _).append (((Node.sublist_preorderAll _).append ?_).cons _)
      exact (Node.sublist_preorderAll _).trans (List.sublist_append_left _ _)
    · rw [Kernel.main_states_forked ⟨n.id, predicate, first, second⟩ hlead hfirst hsecond hwidth
        hafter]
      simp only [List.map_append, Meaning.segmentStates_owners, List.filter_append,
        List.append_assoc]
      exact List.Perm.append_left _ List.perm_append_comm

/-- No two nodes with a state share an identifier. -/
def DistinctStates (g : Graph) : Prop :=
  ((g.allNodes.filter fun n => n.IsKind .persistDecay).map Node.id).Nodup

/-- No two nodes of a graph in order share an identifier, and so no two with a state do. -/
theorem WellFormed.distinctStates (hg : g.WellFormed) : g.DistinctStates :=
  hg.ids_nodup.sublist (List.filter_sublist.map _)

/-- No two slots of a graph's program have the same owner, if no two nodes with a state do. -/
theorem owners_nodup (hwidth : g.frameWidth < Index.limit) (hstates : g.DistinctStates)
    (h : Planned g.frameWidth none g.nodes p) :
    ((Kernel.main g.frameWidth p).storage.slots.map Slot.owner).Nodup := by
  obtain ⟨nodes, hsublist, hperm⟩ := owners_perm hwidth h
  exact hperm.nodup_iff.2 (hstates.sublist ((hsublist.filter _).map _))

/-- A chain without a fork is lowered from its start to its end. -/
theorem loweringOrder_straight (hg : g.WellFormed) {chain : List Node} {last : Node}
    {t u : Option Shape} {lead : List Stage} (hnodes : g.nodes = chain ++ [last])
    (hlead : StagedAll g.frameWidth chain t lead u) (hlast : last.operation = .ok .pixelOutput) :
    g.loweringOrder = chain ++ [last] := by
  have hlists : (chain ++ [last]).flatMap Node.fallback = [] := by
    rw [List.flatMap_eq_nil_iff, List.forall_mem_append, List.forall_mem_singleton]
    exact ⟨leaves_of_staged hg hlead (by simp [hnodes]), leaf_of_output hg hlast (by simp [hnodes])⟩
  rw [loweringOrder, hnodes, hlists, List.append_nil]

/-- The fallback list of a fork is lowered last, since only the conditional node holds nodes. -/
theorem loweringOrder_forked (hg : g.WellFormed) {before primary : List Node} {n last : Node}
    {t u v w : Option Shape} {lead first : List Stage}
    (hnodes : g.nodes = before ++ n :: (primary ++ [last]))
    (hlead : StagedAll g.frameWidth before t lead u)
    (hfirst : StagedAll g.frameWidth primary v first w)
    (hlast : last.operation = .ok .pixelOutput) :
    g.loweringOrder = before ++ n :: (primary ++ [last]) ++ n.fallback := by
  have hleaf := leaves_of_staged hg hlead (by simp [hnodes])
  have hleafPrimary := leaves_of_staged hg hfirst fun m hm => by simp [hnodes, hm]
  have hleafLast := leaf_of_output hg hlast (by simp [hnodes])
  have hlists : (before ++ n :: (primary ++ [last])).flatMap Node.fallback = n.fallback := by
    rw [List.flatMap_append, List.flatMap_cons, List.flatMap_append,
      List.flatMap_eq_nil_iff.2 hleaf, List.flatMap_eq_nil_iff.2 hleafPrimary,
      List.flatMap_singleton, hleafLast]
    simp
  rw [loweringOrder, hnodes, hlists]

/-- The order of lowering lists all nodes of a graph with a plan, and the owners of the slots are
those with a state, in this order. -/
theorem owners_eq (hg : g.WellFormed) (h : Planned g.frameWidth none g.nodes p) :
    g.loweringOrder.Perm g.allNodes ∧ (g.programOf p).slots.map Slot.owner =
      (g.loweringOrder.filter fun n => n.IsKind .persistDecay).map Node.id := by
  have hwidth := hg.width_lt
  have howners : (g.programOf p).slots.map Slot.owner =
      (Kernel.main g.frameWidth p).storage.states.map Prod.fst := by
    rw [Storage.states, List.map_map]
    rfl
  rw [howners]
  generalize hnodes : g.nodes = nodes at h
  cases h with
  | @straight chain last lead hlead hlast =>
    have hout : last.IsKind .pixelOutput := (Node.operation_ok hlast).1
    have hlast' : ¬last.IsKind .persistDecay := hout.ne (by decide)
    rw [loweringOrder_straight hg hnodes hlead hlast, allNodes_straight hg hnodes hlead hlast,
      Kernel.main_states_straight hlead hwidth, Meaning.segmentStates_owners, List.filter_append]
    exact ⟨.refl _, by simp [hlast']⟩
  | @forked before primary n last u predicate lead first second hlead hop _ _ hfirst hsecond
      hlast =>
    have hout : last.IsKind .pixelOutput := (Node.operation_ok hlast).1
    have hkind : n.IsKind .conditionalFallback := (Node.operation_ok hop).1
    have hafter : ∀ sh ∈ u, (u.map Shape.len).getD 0 = sh.len := by
      rintro sh ⟨⟩
      rfl
    have hn : ¬n.IsKind .persistDecay := hkind.ne (by decide)
    have hlast' : ¬last.IsKind .persistDecay := hout.ne (by decide)
    rw [loweringOrder_forked hg hnodes hlead hfirst hlast,
      allNodes_forked hg hnodes hlead hfirst hsecond hlast,
      Kernel.main_states_forked ⟨n.id, predicate, first, second⟩ hlead hfirst hsecond hwidth hafter]
    constructor
    · rw [List.append_assoc, List.append_assoc, List.cons_append, List.cons_append]
      exact List.Perm.append_left _ (List.Perm.cons _ List.perm_append_comm)
    · simp [Meaning.segmentStates_owners, hn, hlast']

/-- Looking up a key that occurs once finds its value. -/
theorem lookup_of_mem {l : List (String × Nat)} (hn : (l.map Prod.fst).Nodup) {key : String}
    {value : Nat} (h : (key, value) ∈ l) : l.lookup key = some value := by
  induction l with
  | nil => simp at h
  | cons entry rest ih =>
    obtain ⟨k, x⟩ := entry
    rw [List.map_cons, List.nodup_cons] at hn
    rcases List.mem_cons.1 h with heq | hrest
    · obtain ⟨rfl, rfl⟩ := Prod.mk.inj heq
      exact List.lookup_cons_self
    · have hne : key ≠ k := fun heq =>
        hn.1 (List.mem_map.2 ⟨(key, value), hrest, heq⟩)
      simp only [List.lookup_cons, beq_eq_false_iff_ne.2 hne]
      exact ih hn.2 hrest

/-- Before the first frame the vector of a slot's owner is as long as the slot, and zero. -/
theorem restingVectors_slot (hg : g.WellFormed) (h : Planned g.frameWidth none g.nodes p)
    {slot : Slot} (hslot : slot ∈ (Kernel.main g.frameWidth p).storage.slots) :
    g.restingVectors slot.owner = List.replicate slot.len 0 := by
  have hkeys : ((Meaning.chainStates g.frameWidth 0 g.nodes).map Prod.fst).Nodup :=
    hg.ids_nodup.sublist (Meaning.chainStates_sublist _ _ _)
  have hmem : (slot.owner, slot.len) ∈ Meaning.chainStates g.frameWidth 0 g.nodes :=
    (states_perm hg h).subset (List.mem_map_of_mem hslot)
  rw [restingVectors, lookup_of_mem hkeys hmem, Option.getD_some]

/-- Every node with a state owns a slot of the program. -/
theorem exists_slot (hg : g.WellFormed) (h : Planned g.frameWidth none g.nodes p) {n : Node}
    (hn : n ∈ g.allNodes) (hkind : n.IsKind .persistDecay) :
    ∃ slot ∈ (Kernel.main g.frameWidth p).storage.slots, slot.owner = n.id := by
  have hmem : n ∈ g.nodes ∨ ∃ m ∈ g.nodes, n ∈ m.fallback := by
    generalize hnodes : g.nodes = nodes at h
    cases h with
    | straight hlead hlast => exact .inl (allNodes_straight hg hnodes hlead hlast ▸ hn)
    | @forked before primary m last u predicate lead first second hlead hop _ _ hfirst hsecond
        hlast =>
      rw [allNodes_forked hg hnodes hlead hfirst hsecond hlast] at hn
      simp only [List.mem_append, List.mem_cons, List.not_mem_nil, or_false] at hn ⊢
      rcases hn with (hn | hn | hn) | hn
      · exact .inl (.inl hn)
      · exact .inl (.inr (.inl hn))
      · exact .inr ⟨m, .inr (.inl rfl), hn⟩
      · exact .inl (.inr (.inr hn))
  have hstate := Meaning.mem_chainStates g.frameWidth hkind hmem 0
  have hstate' := ((states_perm hg h).map Prod.fst).symm.subset hstate
  rw [Storage.states, List.map_map] at hstate'
  exact List.mem_map.1 hstate'

end Graph

/-- A slot and a loop for each state. The owners of the slots of a graph's program are the graph's
nodes with a state, each once and in the order in which they are lowered. Their symbols differ from
each other and from those of the temporaries, and they are identifiers and no keywords. A slot is as
long as the samples that reach its owner are many. Exactly one loop of the whole program stores to
it, and this loop goes through the whole slot with a buffer of the same length as its input. -/
theorem slots_match_states {source : String} {g : Graph} {p : Program}
    (hload : (Graph.load source).value = some g) (hlower : g.lower.program = some p) :
    g.loweringOrder.Perm g.allNodes ∧
    p.slots.map Slot.owner = (g.loweringOrder.filter fun n => n.IsKind .persistDecay).map Node.id ∧
    (p.slots.map Slot.owner).Nodup ∧ (p.slots.map Slot.symbol).Nodup ∧
    ∀ slot ∈ p.slots,
      Lexer.isWord slot.symbol = true ∧ Keyword.ofText? slot.symbol = none ∧
      (∀ t ∈ p.temps, slot.symbol ≠ t.symbol) ∧
      (slot.owner, slot.len) ∈ Meaning.chainStates g.frameWidth 0 g.nodes ∧
      ∃ l, p.body.loops.filter (fun l => storesTo slot.symbol l.2) = [l] ∧
        slot.KeptBy p.storage l := by
  have hg := Graph.wellFormed_of_load hload
  have hwidth := hg.width_lt
  obtain ⟨pl, hplan, rfl⟩ := Graph.exists_plan_of_lower hlower
  have hnamed : (g.programOf pl).storage.Named := (Kernel.main_storage hplan.fits hwidth).1
  obtain ⟨hperm, howners⟩ := Graph.owners_eq hg hplan
  have hnodup := Graph.owners_nodup hwidth hg.distinctStates hplan
  refine ⟨hperm, howners, hnodup, hnamed.slots_nodup, fun slot hslot => ?_⟩
  obtain ⟨k, hk⟩ := hnamed.slots slot hslot
  have hname := (Slot.isName_candidate slot.owner k).1
  rw [← hk, Lexer.isName, Bool.and_eq_true, Option.isNone_iff_eq_none] at hname
  exact ⟨hname.1, hname.2, fun t ht => hnamed.slot_ne_temp hslot ht,
    (Graph.states_perm hg hplan).subset (List.mem_map_of_mem hslot),
    Graph.exists_slot_loop hplan.fits hwidth hslot⟩

/-- A state before a fork and one on either way, with identifiers that give the same symbol. -/
def threeStatesSource : String :=
  "\x7b\"frame_width\":2,\"nodes\":[\x7b\"id\":\"s\",\"kind\":\"AudioInput\"\x7d," ++
  "\x7b\"id\":\"a-b\",\"kind\":\"PersistDecay\"\x7d," ++
  "\x7b\"id\":\"f\",\"kind\":\"ConditionalFallback\",\"fallback\":[" ++
  "\x7b\"id\":\"a b\",\"kind\":\"PersistDecay\"\x7d," ++
  "\x7b\"id\":\"d\",\"kind\":\"Colorize\"\x7d]\x7d," ++
  "\x7b\"id\":\"a_b\",\"kind\":\"PersistDecay\"\x7d,\x7b\"id\":\"c\",\"kind\":\"Colorize\"\x7d," ++
  "\x7b\"id\":\"o\",\"kind\":\"PixelOutput\"\x7d]\x7d"

/-- The slots of a forked chain are those of the chain and then that of the fallback list, and each
has a loop. -/
theorem threeStatesSource_slots :
    ∃ g p, (Graph.load threeStatesSource).value = some g ∧ g.lower.program = some p ∧
      g.allNodes.map Node.id = ["s", "a-b", "f", "a b", "d", "a_b", "c", "o"] ∧
      p.slots = [⟨"state_a_b", "a-b", 2⟩, ⟨"state_a_b_2", "a_b", 2⟩, ⟨"state_a_b_3", "a b", 2⟩] ∧
      p.slots.map Slot.owner =
        (g.loweringOrder.filter fun n => n.IsKind .persistDecay).map Node.id ∧
      (p.slots.map Slot.symbol).Nodup ∧
      ∀ slot ∈ p.slots, Keyword.ofText? slot.symbol = none ∧
        ∃ l, p.body.loops.filter (fun l => storesTo slot.symbol l.2) = [l] ∧
          slot.KeptBy p.storage l := by
  have hresult : (Graph.load threeStatesSource).value.map
      (fun g => (g.allNodes.map Node.id, g.lower.program.map Program.slots)) =
      some (["s", "a-b", "f", "a b", "d", "a_b", "c", "o"], some [⟨"state_a_b", "a-b", 2⟩,
        ⟨"state_a_b_2", "a_b", 2⟩, ⟨"state_a_b_3", "a b", 2⟩]) := by
    decide +kernel
  obtain ⟨g, hload, hg⟩ := Option.map_eq_some_iff.1 hresult
  obtain ⟨hids, hprogram⟩ := Prod.mk.inj hg
  obtain ⟨p, hlower, hslots⟩ := Option.map_eq_some_iff.1 hprogram
  obtain ⟨-, howners, -, hsymbols, hloops⟩ := slots_match_states hload hlower
  refine ⟨g, p, hload, hlower, hids, hslots, howners, hsymbols, fun slot hslot => ?_⟩
  obtain ⟨-, hkeyword, -, -, hloop⟩ := hloops slot hslot
  exact ⟨hkeyword, hloop⟩

end LedPattern
