import LedPattern.Proofs.Loading
import LedPattern.Proofs.Obligations
import LedPattern.Verification

/-!
# Well-typed graphs

Which graphs have a program, said without the checks that find it. `Operation.Transfers` types a
single node: what it makes of the shape of the buffer that reaches it. `Flows` threads the shapes
through a segment of the chain, and `Graph.WellTyped` adds what holds of the chain as a whole: where
the output and a conditional node may stand, and that both ways of the latter agree.

`lower_isSome_iff_wellTyped` says that exactly the well-typed graphs are lowered. Typing and
planning agree segment by segment (`flows_iff_stagedAll`), and by `Graph.certificate_allPass` a
program that has been planned passes its checks.
-/

namespace LedPattern

/-- What an operation before the nodes `rest` makes of the shape of the buffer that reaches it. -/
inductive Operation.Transfers (width : Nat) (rest : List Node) :
    Operation → Option Shape → Option Shape → Prop where
  /-- An input before a source is not read, and leaves the buffer as it is. -/
  | audioUnread {bins : Option Nat} {t : Option Shape} (hnext : StartsWithSource rest) :
      Transfers width rest (.audioInput bins) t t
  /-- An input takes its levels from the bins of the spectrum. -/
  | audio {bins : Option Nat} {t : Option Shape} (hnext : ¬StartsWithSource rest)
      (hbins : bins.getD width ≤ spectrumBins) :
      Transfers width rest (.audioInput bins) t (some ⟨.float, bins.getD width⟩)
  /-- A ramp has a level for each LED. -/
  | ramp {t : Option Shape} : Transfers width rest .rampShape t (some ⟨.float, width⟩)
  /-- A state has the length of its input, which may be declared. -/
  | decay {factor : Float32} {bins : Option Nat} {len : Nat} (hbins : ∀ b ∈ bins, b = len) :
      Transfers width rest (.persistDecay factor bins) (some ⟨.float, len⟩) (some ⟨.float, len⟩)
  /-- Levels become colors. -/
  | color {map : ColorMap} {len : Nat} :
      Transfers width rest (.colorize map) (some ⟨.float, len⟩) (some ⟨.rgb, len⟩)
  /-- Colors stay colors. Only an even number of them has a middle. -/
  | mirror {variant : MirrorVariant} {len : Nat} (heven : variant = .centerOrigin → len % 2 = 0) :
      Transfers width rest (.mirror variant) (some ⟨.rgb, len⟩) (some ⟨.rgb, len⟩)

/-- What the nodes of a segment make of the shape of the buffer that reaches them. -/
inductive Flows (width : Nat) : List Node → Option Shape → Option Shape → Prop where
  | nil {t : Option Shape} : Flows width [] t t
  | cons {n : Node} {rest : List Node} {op : Operation} {t u v : Option Shape}
      (hop : n.operation = .ok op) (hfirst : op.Transfers width rest t u)
      (hrest : Flows width rest u v) : Flows width (n :: rest) t v

/-- The kind and the parameters of a node are in order. -/
def Node.Resolves (n : Node) : Prop := ∃ op, n.operation = .ok op

namespace Graph

/-- The shapes fit along the chain, from no buffer to as many colors as the strip has LEDs. Where
there is a conditional node, the buffer that reaches it is the start of both its ways, which leave
buffers of one shape. -/
inductive Typed (g : Graph) : Prop where
  | straight {chain : List Node} {last : Node} (hnodes : g.nodes = chain ++ [last])
      (hchain : Flows g.frameWidth chain none (some ⟨.rgb, g.frameWidth⟩))
  | forked {before primary : List Node} {n last : Node} {t : Option Shape} {sh : Shape}
      (hnodes : g.nodes = before ++ n :: (primary ++ [last]))
      (hkind : n.IsKind .conditionalFallback) (hbefore : Flows g.frameWidth before none t)
      (hprimary : Flows g.frameWidth primary t (some sh))
      (hfallback : Flows g.frameWidth n.fallback t (some sh)) (hout : sh = ⟨.rgb, g.frameWidth⟩)

/-- A graph that can be lowered. -/
structure WellTyped (g : Graph) : Prop where
  /-- The nodes of the chain and of the conditional node's list are in order. -/
  resolves : ∀ n ∈ g.nodes,
    n.Resolves ∧ (n.IsKind .conditionalFallback → ∀ m ∈ n.fallback, m.Resolves)
  /-- The chain ends in an output. -/
  ends : ∃ last ∈ g.nodes.getLast?, last.IsKind .pixelOutput
  /-- There is no other output anywhere. -/
  one_output : g.allNodes.countP (fun n => n.IsKind .pixelOutput) = 1
  /-- There is at most one conditional node. -/
  one_fork : g.allNodes.countP (fun n => n.IsKind .conditionalFallback) ≤ 1
  /-- A conditional node has a fallback list, and stands in the chain with a node between it and the
  output. -/
  forks : ∀ n ∈ g.allNodes, n.IsKind .conditionalFallback → n.fallback ≠ [] ∧
    ∃ before primary last, g.nodes = before ++ n :: (primary ++ [last]) ∧ primary ≠ []
  /-- The shapes of the buffers fit. -/
  typed : g.Typed

end Graph

/-- A segment is typed exactly if its nodes have stages. -/
theorem flows_iff_stagedAll {width : Nat} {nodes : List Node} {t u : Option Shape} :
    Flows width nodes t u ↔ ∃ stages, StagedAll width nodes t stages u := by
  constructor
  · intro h
    induction h with
    | nil => exact ⟨[], .nil⟩
    | cons hop hfirst _ ih =>
      obtain ⟨stages, hstages⟩ := ih
      cases hfirst with
      | audioUnread hnext => exact ⟨_, .cons (.idle hop hnext) hstages⟩
      | audio hnext hbins => exact ⟨_, .cons (.sample hop hnext hbins) hstages⟩
      | ramp => exact ⟨_, .cons (.ramp hop) hstages⟩
      | decay hbins => exact ⟨_, .cons (.decay hop hbins) hstages⟩
      | color => exact ⟨_, .cons (.color hop) hstages⟩
      | mirror heven => exact ⟨_, .cons (.mirror hop heven) hstages⟩
  · rintro ⟨stages, h⟩
    induction h with
    | nil => exact .nil
    | cons hfirst _ ih =>
      cases hfirst with
      | idle hop hnext => exact .cons hop (.audioUnread hnext) ih
      | sample hop hnext hbins => exact .cons hop (.audio hnext hbins) ih
      | ramp hop => exact .cons hop .ramp ih
      | decay hop hbins => exact .cons hop (.decay hbins) ih
      | color hop => exact .cons hop .color ih
      | mirror hop heven => exact .cons hop (.mirror heven) ih

/-- The nodes of a segment are in order, and none is a conditional node or an output. -/
theorem StagedAll.inner {width : Nat} {nodes : List Node} {t u : Option Shape} {stages : List Stage}
    (h : StagedAll width nodes t stages u) :
    ∀ n ∈ nodes, n.Resolves ∧ ¬n.IsKind .conditionalFallback ∧ ¬n.IsKind .pixelOutput := by
  induction h with
  | nil => simp
  | cons hfirst _ ih =>
    rw [List.forall_mem_cons]
    refine ⟨?_, ih⟩
    cases hfirst with
    | idle hop | sample hop | ramp hop | decay hop | color hop | mirror hop =>
      have hkind := (Node.operation_ok hop).1
      exact ⟨⟨_, hop⟩, fun h => by simpa [Operation.kind] using hkind.unique h,
        fun h => by simpa [Operation.kind] using hkind.unique h⟩

namespace Node

/-- A node that is in order and not conditional holds no nodes. -/
theorem fallback_eq_nil {n : Node} (hn : n.Consistent) (hr : n.Resolves)
    (hkind : ¬n.IsKind .conditionalFallback) : n.fallback = [] := by
  obtain ⟨op, hop⟩ := hr
  obtain ⟨hop', hfallback, -⟩ := operation_ok hop
  refine hn (Bool.eq_false_iff.2 fun h => hkind ?_)
  rw [← hfallback h]
  exact hop'

/-- Nodes that hold no nodes are all there is. -/
theorem preorderAll_eq_self {nodes : List Node} (h : ∀ n ∈ nodes, n.fallback = []) :
    preorderAll nodes = nodes := by
  induction nodes with
  | nil => rfl
  | cons n rest ih =>
    rw [List.forall_mem_cons] at h
    rw [preorderAll, preorder_eq, h.1, ih h.2]
    rfl

end Node

/-- The nodes of a segment hold no nodes. -/
theorem StagedAll.preorderAll_eq {width : Nat} {nodes : List Node} {t u : Option Shape}
    {stages : List Stage} (h : StagedAll width nodes t stages u)
    (hn : ∀ n ∈ nodes, n.Consistent) : Node.preorderAll nodes = nodes :=
  Node.preorderAll_eq_self fun n hmem =>
    Node.fallback_eq_nil (hn n hmem) (h.inner n hmem).1 (h.inner n hmem).2.1

/-- The nodes of a segment count neither as outputs nor as conditional nodes. -/
theorem StagedAll.countP_eq_zero {width : Nat} {nodes : List Node} {t u : Option Shape}
    {stages : List Stage} (h : StagedAll width nodes t stages u) :
    nodes.countP (fun n => n.IsKind .pixelOutput) = 0 ∧
      nodes.countP (fun n => n.IsKind .conditionalFallback) = 0 := by
  simp only [List.countP_eq_zero, decide_eq_true_eq]
  exact ⟨fun n hn => (h.inner n hn).2.2, fun n hn => (h.inner n hn).2.1⟩

/-- A node of one kind is not of another. -/
theorem Node.IsKind.ne {n : Node} {k l : NodeKind} (hk : n.IsKind k) (hne : k ≠ l) :
    ¬n.IsKind l := fun hl => hne (hk.unique hl)

namespace Graph

variable {g : Graph} {p : Plan}

/-- A graph is lowered exactly if it has a plan. -/
theorem lower_isSome_iff (hg : g.WellFormed) :
    g.lower.program.isSome ↔ ∃ p, Planned g.frameWidth none g.nodes p := by
  have hwidth := hg.width_lt
  simp only [← plan_result_iff]
  unfold lower
  split
  · next warnings d hplan => simp [hplan]
  · next warnings p hplan =>
    have hp : Planned g.frameWidth none g.nodes p := plan_result_iff.1 (by rw [hplan])
    rw [if_pos (certificate_allPass hp.fits hwidth)]
    simp [hplan]

/-- The program that a graph is lowered to is that of its plan. -/
theorem exists_plan_of_lower {q : Program} (h : g.lower.program = some q) :
    ∃ p, Planned g.frameWidth none g.nodes p ∧ q = g.programOf p := by
  unfold lower at h
  split at h
  · cases h
  · next warnings p hplan =>
    dsimp only at h
    split at h
    · exact ⟨p, plan_result_iff.1 (by rw [hplan]), (Option.some.inj h).symm⟩
    · cases h

/-- A straight chain with a plan has no nodes but its own. -/
theorem allNodes_straight {chain : List Node} {last : Node} {lead : List Stage} {u : Option Shape}
    (hg : g.WellFormed) (hnodes : g.nodes = chain ++ [last])
    (hlead : StagedAll g.frameWidth chain none lead u)
    (hlast : last.operation = .ok .pixelOutput) : g.allNodes = chain ++ [last] := by
  have hout : last.IsKind .pixelOutput := (Node.operation_ok hlast).1
  have hconsistent : ∀ n ∈ chain ++ [last], n.Consistent := fun n hn =>
    hg.consistent n ((Node.sublist_preorderAll _).subset (hnodes ▸ hn))
  rw [allNodes, hnodes]
  refine Node.preorderAll_eq_self fun n hn => ?_
  rcases List.mem_append.1 hn with hn' | hn'
  · exact Node.fallback_eq_nil (hconsistent n hn) (hlead.inner n hn').1 (hlead.inner n hn').2.1
  · obtain rfl := List.mem_singleton.1 hn'
    exact Node.fallback_eq_nil (hconsistent n hn) ⟨_, hlast⟩ (hout.ne (by decide))

/-- A forked chain with a plan has no nodes but its own and those of the one fallback list. -/
theorem allNodes_forked {before primary : List Node} {n last : Node} {t u w : Option Shape}
    {lead first second : List Stage} (hg : g.WellFormed)
    (hnodes : g.nodes = before ++ n :: (primary ++ [last]))
    (hlead : StagedAll g.frameWidth before none lead t)
    (hfirst : StagedAll g.frameWidth primary t first u)
    (hsecond : StagedAll g.frameWidth n.fallback t second w)
    (hlast : last.operation = .ok .pixelOutput) :
    g.allNodes = before ++ (n :: n.fallback) ++ (primary ++ [last]) := by
  have hout : last.IsKind .pixelOutput := (Node.operation_ok hlast).1
  have hsplit : g.allNodes = Node.preorderAll before ++ (n :: Node.preorderAll n.fallback) ++
      (Node.preorderAll primary ++ last.preorder) := by
    rw [allNodes, hnodes, Node.preorderAll_append, Node.preorderAll, Node.preorder_eq n,
      Node.preorderAll_append, Node.preorderAll, Node.preorderAll, List.append_nil,
      List.append_assoc]
  -- Each segment lies in the graph, so that its stages have no nodes inside.
  have hconsistent : ∀ (seg : List Node), Node.preorderAll seg ⊆ g.allNodes →
      ∀ m ∈ seg, m.Consistent := fun seg hseg m hm =>
    hg.consistent m (hseg ((Node.sublist_preorderAll seg).subset hm))
  have hbefore : Node.preorderAll before ⊆ g.allNodes := by
    rw [hsplit]
    exact List.subset_append_of_subset_left _ (List.subset_append_left _ _)
  have hinside : Node.preorderAll n.fallback ⊆ g.allNodes := by
    rw [hsplit]
    exact List.subset_append_of_subset_left _
      (List.subset_append_of_subset_right _ (List.subset_cons_self _ _))
  have hafter : Node.preorderAll primary ⊆ g.allNodes := by
    rw [hsplit]
    exact List.subset_append_of_subset_right _ (List.subset_append_left _ _)
  have hlastMem : last ∈ g.allNodes := by
    rw [hsplit, Node.preorder_eq last]
    simp
  rw [hsplit, hlead.preorderAll_eq (hconsistent before hbefore),
    hfirst.preorderAll_eq (hconsistent primary hafter),
    hsecond.preorderAll_eq (hconsistent n.fallback hinside), Node.preorder_eq,
    Node.fallback_eq_nil (hg.consistent last hlastMem) ⟨_, hlast⟩ (hout.ne (by decide))]
  rfl

/-- A straight chain with a plan is well typed. -/
theorem wellTyped_of_straight {chain : List Node} {last : Node} {lead : List Stage}
    (hg : g.WellFormed) (hnodes : g.nodes = chain ++ [last])
    (hlead : StagedAll g.frameWidth chain none lead (some ⟨.rgb, g.frameWidth⟩))
    (hlast : last.operation = .ok .pixelOutput) : g.WellTyped := by
  have hout : last.IsKind .pixelOutput := (Node.operation_ok hlast).1
  have hcond : ¬last.IsKind .conditionalFallback := hout.ne (by decide)
  have hall := allNodes_straight hg hnodes hlead hlast
  have hinner : ∀ n ∈ chain ++ [last], n.Resolves ∧ ¬n.IsKind .conditionalFallback := by
    intro n hn
    rcases List.mem_append.1 hn with hn | hn
    · exact ⟨(hlead.inner n hn).1, (hlead.inner n hn).2.1⟩
    · obtain rfl := List.mem_singleton.1 hn
      exact ⟨⟨_, hlast⟩, hcond⟩
  obtain ⟨hcount, hcount'⟩ := hlead.countP_eq_zero
  constructor
  · intro n hn
    obtain ⟨hr, hk⟩ := hinner n (hnodes ▸ hn)
    exact ⟨hr, fun h => absurd h hk⟩
  · exact ⟨last, by simp [hnodes], hout⟩
  · rw [hall, List.countP_append, hcount]
    simp [hout]
  · rw [hall, List.countP_append, hcount']
    simp [hcond]
  · intro n hn hk
    exact absurd hk (hinner n (hall ▸ hn)).2
  · exact .straight hnodes (flows_iff_stagedAll.2 ⟨_, hlead⟩)

/-- A forked chain with a plan is well typed. -/
theorem wellTyped_of_forked {before primary : List Node} {n last : Node} {t : Option Shape}
    {predicate : Predicate} {lead first second : List Stage} (hg : g.WellFormed)
    (hnodes : g.nodes = before ++ n :: (primary ++ [last]))
    (hlead : StagedAll g.frameWidth before none lead t)
    (hop : n.operation = .ok (.conditionalFallback predicate)) (hfallback : n.fallback ≠ [])
    (hprimary : primary ≠ [])
    (hfirst : StagedAll g.frameWidth primary t first (some ⟨.rgb, g.frameWidth⟩))
    (hsecond : StagedAll g.frameWidth n.fallback t second (some ⟨.rgb, g.frameWidth⟩))
    (hlast : last.operation = .ok .pixelOutput) : g.WellTyped := by
  have hout : last.IsKind .pixelOutput := (Node.operation_ok hlast).1
  have hkind : n.IsKind .conditionalFallback := (Node.operation_ok hop).1
  have hcond : ¬last.IsKind .conditionalFallback := hout.ne (by decide)
  have hnotOut : ¬n.IsKind .pixelOutput := hkind.ne (by decide)
  have hall := allNodes_forked hg hnodes hlead hfirst hsecond hlast
  -- The conditional node is the only one of its kind.
  have hinner : ∀ m ∈ g.nodes, m.Resolves ∧ (m.IsKind .conditionalFallback → m = n) := by
    intro m hm
    simp only [hnodes, List.mem_append, List.mem_cons, List.not_mem_nil, or_false] at hm
    rcases hm with hm | rfl | hm | rfl
    · exact ⟨(hlead.inner m hm).1, fun h => absurd h (hlead.inner m hm).2.1⟩
    · exact ⟨⟨_, hop⟩, fun _ => rfl⟩
    · exact ⟨(hfirst.inner m hm).1, fun h => absurd h (hfirst.inner m hm).2.1⟩
    · exact ⟨⟨_, hlast⟩, fun h => absurd h hcond⟩
  obtain ⟨hcount, hcount'⟩ := hlead.countP_eq_zero
  obtain ⟨hcountFirst, hcountFirst'⟩ := hfirst.countP_eq_zero
  obtain ⟨hcountSecond, hcountSecond'⟩ := hsecond.countP_eq_zero
  constructor
  · intro m hm
    obtain ⟨hr, hk⟩ := hinner m hm
    refine ⟨hr, fun h => ?_⟩
    rw [hk h]
    exact fun k hk => (hsecond.inner k hk).1
  · refine ⟨last, ?_, hout⟩
    rw [hnodes, ← List.cons_append, ← List.append_assoc, List.getLast?_concat]
    rfl
  · -- Outputs and conditional nodes are counted segment by segment.
    rw [hall]
    simp [List.countP_append, hcount, hcountFirst, hcountSecond, hout, hnotOut]
  · rw [hall]
    simp [List.countP_append, hcount', hcountFirst', hcountSecond', hkind, hcond]
  · intro m hm hk
    have hm' : m = n := by
      simp only [hall, List.mem_append, List.mem_cons, List.not_mem_nil, or_false] at hm
      rcases hm with (hm | hm | hm) | hm | rfl
      · exact absurd hk (hlead.inner m hm).2.1
      · exact hm
      · exact absurd hk (hsecond.inner m hm).2.1
      · exact absurd hk (hfirst.inner m hm).2.1
      · exact absurd hk hcond
    subst hm'
    exact ⟨hfallback, before, primary, last, hnodes, hprimary⟩
  · exact .forked hnodes hkind (flows_iff_stagedAll.2 ⟨_, hlead⟩)
      (flows_iff_stagedAll.2 ⟨_, hfirst⟩) (flows_iff_stagedAll.2 ⟨_, hsecond⟩) rfl

/-- A graph with a plan is well typed. -/
theorem wellTyped_of_planned (hg : g.WellFormed) (h : Planned g.frameWidth none g.nodes p) :
    g.WellTyped := by
  generalize hnodes : g.nodes = nodes at h
  cases h with
  | straight hlead hlast => exact wellTyped_of_straight hg hnodes hlead hlast
  | forked hlead hop hfallback hprimary hfirst hsecond hlast =>
    exact wellTyped_of_forked hg hnodes hlead hop hfallback hprimary hfirst hsecond hlast

/-- The nodes of a chain differ. -/
theorem nodes_nodup (hg : g.WellFormed) : g.nodes.Nodup := by
  have hall : g.allNodes.Nodup := hg.ids_nodup.of_map
  exact hall.sublist (Node.sublist_preorderAll g.nodes)

/-- An output that is in order has the operation of one. -/
theorem operation_of_output {n : Node} (hr : n.Resolves) (hkind : n.IsKind .pixelOutput) :
    n.operation = .ok .pixelOutput := by
  obtain ⟨op, hop⟩ := hr
  have hk := (Node.operation_ok hop).1.unique hkind
  cases op <;> simp [Operation.kind] at hk
  exact hop

/-- A conditional node that is in order has a predicate. -/
theorem operation_of_conditional {n : Node} (hr : n.Resolves)
    (hkind : n.IsKind .conditionalFallback) :
    ∃ predicate, n.operation = .ok (.conditionalFallback predicate) := by
  obtain ⟨op, hop⟩ := hr
  have hk := (Node.operation_ok hop).1.unique hkind
  cases op <;> simp [Operation.kind] at hk
  exact ⟨_, hop⟩

/-- A well-typed graph has a plan. -/
theorem planned_of_wellTyped (hg : g.WellFormed) (h : g.WellTyped) :
    ∃ p, Planned g.frameWidth none g.nodes p := by
  -- The last node is an output that is in order.
  have hend : ∀ init last, g.nodes = init ++ [last] → last.operation = .ok .pixelOutput := by
    intro init last hnodes
    obtain ⟨final, hfinal, hkind⟩ := h.ends
    rw [hnodes, List.getLast?_concat] at hfinal
    obtain rfl := Option.some.inj hfinal
    exact operation_of_output (h.resolves last (by simp [hnodes])).1 hkind
  cases h.typed with
  | straight hnodes hchain =>
    obtain ⟨lead, hlead⟩ := flows_iff_stagedAll.1 hchain
    rw [hnodes]
    exact ⟨_, .straight hlead (hend _ _ hnodes)⟩
  | @forked before primary n last t sh hnodes hkind hbefore hprimary hfallback hout =>
    subst hout
    obtain ⟨lead, hlead⟩ := flows_iff_stagedAll.1 hbefore
    obtain ⟨first, hfirst⟩ := flows_iff_stagedAll.1 hprimary
    obtain ⟨second, hsecond⟩ := flows_iff_stagedAll.1 hfallback
    have hmem : n ∈ g.nodes := by simp [hnodes]
    obtain ⟨predicate, hop⟩ := operation_of_conditional (h.resolves n hmem).1 hkind
    obtain ⟨hlist, before', primary', last', hnodes', hprimary'⟩ :=
      h.forks n ((Node.sublist_preorderAll _).subset hmem) hkind
    -- The node occurs once, so both ways to cut the chain at it agree.
    have hsame : primary = primary' := by
      have hnodup := nodes_nodup hg
      rw [hnodes, List.nodup_middle, List.nodup_cons, List.mem_append, not_or] at hnodup
      have hcut := (List.append_cons_inj_of_notMem hnodup.1.1 hnodup.1.2).1
        (hnodes.symm.trans hnodes')
      exact (List.append_inj' hcut.2.2 rfl).1
    have hlast : last.operation = .ok .pixelOutput :=
      hend (before ++ n :: primary) last (by rw [hnodes]; simp)
    rw [hnodes]
    exact ⟨_, .forked hlead hop hlist (hsame ▸ hprimary') hfirst hsecond hlast⟩

/-- A description without errors has been read without one. -/
theorem load_of_ofSource {source : String} (h : ofSource source = .ok g) :
    (Graph.load source).value = some g ∧
      Diagnostic.anyError (Graph.load source).diagnostics = false := by
  unfold ofSource at h
  split at h
  · rename_i hload
    rw [hload]
    split at h
    · cases h
    · rename_i hnone
      cases h
      exact ⟨rfl, Bool.eq_false_iff.2 hnone⟩
  · cases h

/-- A graph without errors has been lowered without one. -/
theorem lower_of_program {q : Program} (h : g.program = .ok q) :
    g.lower.program = some q ∧ Diagnostic.anyError g.lower.diagnostics = false := by
  unfold program at h
  split at h
  · rename_i hlower
    rw [hlower]
    split at h
    · cases h
    · rename_i hnone
      cases h
      exact ⟨rfl, Bool.eq_false_iff.2 hnone⟩
  · cases h

end Graph

/-- A chain with a fork, in which an input before a ramp is not read and levels meet as colors. -/
def forkedSource : String :=
  "\x7b\"frame_width\":2,\"nodes\":[" ++
  "\x7b\"id\":\"f\",\"kind\":\"ConditionalFallback\",\"fallback\":[" ++
  "\x7b\"id\":\"i\",\"kind\":\"AudioInput\"\x7d,\x7b\"id\":\"r\",\"kind\":\"RampShape\"\x7d," ++
  "\x7b\"id\":\"c\",\"kind\":\"Colorize\"\x7d]\x7d,\x7b\"id\":\"a\",\"kind\":\"AudioInput\"\x7d," ++
  "\x7b\"id\":\"p\",\"kind\":\"PersistDecay\"\x7d,\x7b\"id\":\"d\",\"kind\":\"Colorize\"\x7d," ++
  "\x7b\"id\":\"o\",\"kind\":\"PixelOutput\"\x7d]\x7d"

/-- The chain with a fork is loaded and lowered without errors. -/
theorem forkedSource_compiles :
    ∃ g p, Graph.ofSource forkedSource = .ok g ∧ g.program = .ok p := by
  have hwidth : (Graph.ofSource forkedSource >>= Graph.program).toOption.map Program.frameWidth =
      some 2 := by
    decide +kernel
  obtain ⟨p, hcompiled, -⟩ := Except.exists_ok_of_map hwidth
  obtain ⟨g, hsource, hprogram⟩ := Except.bind_eq_ok_iff.1 hcompiled
  exact ⟨g, p, hsource, hprogram⟩

/-- The chain with a fork is lowered. -/
theorem forkedSource_lowers :
    ∃ g, (Graph.load forkedSource).value = some g ∧ g.lower.program.isSome := by
  obtain ⟨g, p, hload, hlower⟩ := forkedSource_compiles
  exact ⟨g, (Graph.load_of_ofSource hload).1,
    Option.isSome_iff_exists.2 ⟨p, (Graph.lower_of_program hlower).1⟩⟩

/-- Exactly the well-typed graphs among those that can be loaded are lowered to a program. -/
theorem lower_isSome_iff_wellTyped {source : String} {g : Graph}
    (h : (Graph.load source).value = some g) : g.lower.program.isSome ↔ g.WellTyped := by
  have hg := Graph.wellFormed_of_load h
  rw [Graph.lower_isSome_iff hg]
  constructor
  · rintro ⟨p, hp⟩
    exact Graph.wellTyped_of_planned hg hp
  · exact Graph.planned_of_wellTyped hg

/-- The chain with a fork is well typed, since it is lowered. -/
theorem forkedSource_wellTyped :
    ∃ g, (Graph.load forkedSource).value = some g ∧ g.lower.program.isSome ∧ g.WellTyped := by
  obtain ⟨g, hg, hsome⟩ := forkedSource_lowers
  exact ⟨g, hg, hsome, (lower_isSome_iff_wellTyped hg).1 hsome⟩

end LedPattern
