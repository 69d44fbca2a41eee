import LedPattern.Lowering.Plan
import Mathlib.Data.List.Basic

/-!
# Which chains have a plan

`Graph.plan` checks a chain of nodes and makes a plan of it, and reports on the way. Here the check
is a relation without reports: `Staged` relates a node to its stage, the shape of the buffer that
reaches the node and the shape of the buffer that it leaves, `StagedAll` the nodes of a segment to
their stages, and `Planned` a whole chain, cut into its segments, to its plan. A buffer is known by
its `Shape` only, not by the node that filled it.

The main statement is `Graph.plan_result_iff`: checking and the relations agree. Either direction
goes from a single node (`staged_of_stage`, `stage_of_staged`) over a branch (`stagedAll_of_branch`,
`branch_of_stagedAll`) to a chain (`planned_of_chain`, `chain_of_planned`), so that nothing later
has to look at the reports again. Whether a node's buffer is read depends on the node after it,
which may belong to the next segment; `startsWithSource_append` says that this makes no difference.
-/

namespace LedPattern

/-- What a buffer holds: its elements and their number. -/
structure Shape where
  elem : Elem
  len : Nat
deriving DecidableEq, Repr

/-- The shape of the buffer that reaches a node. -/
def Flow.shape (f : Flow) : Shape := ⟨f.elem, f.len⟩

namespace Report

variable {α β : Type}

/-- The result of a check without a warning. -/
@[simp]
theorem pure_result (a : α) : (pure a : Report α).result = .ok a := rfl

/-- The result of an error. -/
@[simp]
theorem fail_result (d : Diagnostic) : (fail d : Report α).result = .error d := rfl

/-- The result of a check that warns of nothing. -/
@[simp]
theorem ofExcept_result (x : Except Diagnostic α) : (ofExcept x).result = x := rfl

/-- The result of a check that only warns. -/
@[simp]
theorem warn_result (ds : List Diagnostic) : (warn ds).result = .ok () := rfl

/-- Warnings do not change the result. -/
@[simp]
theorem warnOnSuccess_result (x : Report α) : x.warnOnSuccess.result = x.result := by
  unfold warnOnSuccess
  split
  · next d h => exact h.symm
  · rfl

/-- One check after another succeeds exactly if both do. -/
theorem bind_result_iff (x : Report α) (f : α → Report β) (b : β) :
    (x >>= f).result = .ok b ↔ ∃ a, x.result = .ok a ∧ (f a).result = .ok b := by
  show (andThen x f).result = .ok b ↔ _
  unfold andThen
  split
  · next d h => simp [h]
  · next a h => simp [h]

end Report

/-- One step after another succeeds exactly if both do. -/
theorem Except.bind_eq_ok_iff {ε α β : Type} {x : Except ε α} {f : α → Except ε β} {b : β} :
    (x >>= f) = .ok b ↔ ∃ a, x = .ok a ∧ f a = .ok b := by
  cases x with
  | error e => simp [bind, Except.bind]
  | ok a => simp [bind, Except.bind]

/-- What is computed from a result shows that there is one. -/
theorem Except.exists_ok_of_map {ε α β : Type} {x : Except ε α} {f : α → β} {b : β}
    (h : x.toOption.map f = some b) : ∃ a, x = .ok a ∧ f a = b := by
  cases x with
  | error e => cases h
  | ok a => exact ⟨a, rfl, Option.some.inj h⟩

namespace Node

/-- A node is of a kind if its declaration names that kind. -/
def IsKind (n : Node) (k : NodeKind) : Prop := NodeKind.ofName? n.kind = some k

instance (n : Node) (k : NodeKind) : Decidable (n.IsKind k) :=
  inferInstanceAs (Decidable (NodeKind.ofName? n.kind = some k))

/-- A node is a source if it takes no buffer from the node before it. -/
def IsSource (n : Node) : Prop := n.IsKind .audioInput ∨ n.IsKind .rampShape

instance (n : Node) : Decidable n.IsSource :=
  inferInstanceAs (Decidable (n.IsKind .audioInput ∨ n.IsKind .rampShape))

/-- The kind of an operation of a known kind. -/
theorem kind_of_operationOf {n : Node} {kind : NodeKind} {op : Operation}
    (h : n.operationOf kind = .ok op) : op.kind = kind := by
  cases kind <;> simp only [operationOf, Except.bind_eq_ok_iff, Except.ok.injEq] at h
  case rampShape | pixelOutput => subst h; rfl
  case persistDecay =>
    obtain ⟨_, _, _, _, rfl⟩ := h
    rfl
  all_goals
    obtain ⟨_, _, rfl⟩ := h
    rfl

/-- A node whose operation is known is of the operation's kind, and has a fallback list only if it
is a conditional node. -/
theorem operation_ok {n : Node} {op : Operation} (h : n.operation = .ok op) :
    n.IsKind op.kind ∧ (n.hasFallback = true → op.kind = .conditionalFallback) ∧
      n.operationOf op.kind = .ok op := by
  unfold operation at h
  split at h
  · simp at h
  · next kind hkind =>
    split at h
    · simp at h
    · next hfallback =>
      have hk := kind_of_operationOf h
      rw [hk]
      refine ⟨hkind, fun hf => ?_, h⟩
      by_contra hne
      exact hfallback ⟨hf, hne⟩

/-- A node is of one kind only. -/
theorem IsKind.unique {n : Node} {k l : NodeKind} (hk : n.IsKind k) (hl : n.IsKind l) : k = l :=
  Option.some.inj (hk.symm.trans hl)

end Node

/-- Whether the first of the nodes that follow takes no buffer. -/
def StartsWithSource (rest : List Node) : Prop := ∃ next ∈ rest.head?, next.IsSource

instance (rest : List Node) : Decidable (StartsWithSource rest) :=
  match rest with
  | [] => isFalse (by simp [StartsWithSource])
  | next :: _ => decidable_of_iff next.IsSource (by simp [StartsWithSource])

/-- A node reads the buffer before it unless it is a source. -/
theorem isReadNext_cons (atEnd : Bool) (n : Node) (rest : List Node) :
    Plan.isReadNext atEnd (n :: rest) = true ↔ ¬StartsWithSource (n :: rest) := by
  have hiff : StartsWithSource (n :: rest) ↔ n.IsSource := by simp [StartsWithSource]
  rw [hiff]
  simp only [Plan.isReadNext, Node.IsSource, Node.IsKind]
  rcases NodeKind.ofName? n.kind with _ | kind
  · simp
  · cases kind <;> simp [NodeKind.readsBuffer, NodeKind.reads]

/-- Within a branch a buffer is read unless a source follows. -/
theorem isReadNext_branch (rest : List Node) :
    Plan.isReadNext true rest = true ↔ ¬StartsWithSource rest := by
  cases rest with
  | nil => simp [Plan.isReadNext, StartsWithSource]
  | cons n rest => exact isReadNext_cons true n rest

/-- The nodes of the next segment do not matter if the first of them takes a buffer. -/
theorem startsWithSource_append (rest : List Node) {tail : List Node}
    (htail : ¬StartsWithSource tail) : StartsWithSource (rest ++ tail) ↔ StartsWithSource rest := by
  cases rest with
  | nil =>
    have hnil : ¬StartsWithSource [] := by simp [StartsWithSource]
    exact iff_of_false htail hnil
  | cons n rest => simp [StartsWithSource]

/-- A node that takes a buffer is no source. -/
theorem not_startsWithSource {n : Node} {kind : NodeKind} (h : n.IsKind kind)
    (hkind : kind.readsBuffer = true) (rest : List Node) : ¬StartsWithSource (n :: rest) := by
  have hiff : StartsWithSource (n :: rest) ↔ n.IsSource := by simp [StartsWithSource]
  rw [hiff]
  rintro (hs | hs)
  · rw [h.unique hs] at hkind
    exact absurd hkind (by decide)
  · rw [h.unique hs] at hkind
    exact absurd hkind (by decide)

/-- The stage of a node before the nodes `rest`, with the shapes of the buffers that the node gets
and leaves. There is no stage for a conditional node or an output. -/
inductive Staged (width : Nat) (n : Node) (rest : List Node) :
    Option Shape → Stage → Option Shape → Prop where
  | idle {bins : Option Nat} {t : Option Shape} (hop : n.operation = .ok (.audioInput bins))
      (hnext : StartsWithSource rest) : Staged width n rest t (.idle n.id) t
  | sample {bins : Option Nat} {t : Option Shape} (hop : n.operation = .ok (.audioInput bins))
      (hnext : ¬StartsWithSource rest) (hbins : bins.getD width ≤ spectrumBins) :
      Staged width n rest t (.sample n.id (bins.getD width)) (some ⟨.float, bins.getD width⟩)
  | ramp {t : Option Shape} (hop : n.operation = .ok .rampShape) :
      Staged width n rest t (.ramp n.id) (some ⟨.float, width⟩)
  | decay {factor : Float32} {bins : Option Nat} {len : Nat}
      (hop : n.operation = .ok (.persistDecay factor bins)) (hbins : ∀ b ∈ bins, b = len) :
      Staged width n rest (some ⟨.float, len⟩) (.decay n.id factor) (some ⟨.float, len⟩)
  | color {map : ColorMap} {len : Nat} (hop : n.operation = .ok (.colorize map)) :
      Staged width n rest (some ⟨.float, len⟩) (.color n.id map) (some ⟨.rgb, len⟩)
  | mirror {variant : MirrorVariant} {len : Nat} (hop : n.operation = .ok (.mirror variant))
      (heven : variant = .centerOrigin → len % 2 = 0) :
      Staged width n rest (some ⟨.rgb, len⟩) (.mirror n.id variant) (some ⟨.rgb, len⟩)

/-- The stages of the nodes of a branch, with the shapes of the buffers that the branch gets and
leaves. -/
inductive StagedAll (width : Nat) :
    List Node → Option Shape → List Stage → Option Shape → Prop where
  | nil {t : Option Shape} : StagedAll width [] t [] t
  | cons {n : Node} {rest : List Node} {t u v : Option Shape} {s : Stage} {stages : List Stage}
      (hfirst : Staged width n rest t s u) (hrest : StagedAll width rest u stages v) :
      StagedAll width (n :: rest) t (s :: stages) v

/-- The plan of a chain that a buffer of shape `t` reaches. A straight chain is one segment and the
output, which takes as many colors as the strip has LEDs. A forked one has a conditional node, both
of whose ways lead from the buffer that reaches it to such colors. -/
inductive Planned (width : Nat) (t : Option Shape) : List Node → Plan → Prop where
  | straight {chain : List Node} {last : Node} {lead : List Stage}
      (hlead : StagedAll width chain t lead (some ⟨.rgb, width⟩))
      (hlast : last.operation = .ok .pixelOutput) :
      Planned width t (chain ++ [last]) ⟨lead, none, last.id⟩
  | forked {before primary : List Node} {n last : Node} {u : Option Shape} {predicate : Predicate}
      {lead first second : List Stage} (hlead : StagedAll width before t lead u)
      (hop : n.operation = .ok (.conditionalFallback predicate)) (hfallback : n.fallback ≠ [])
      (hprimary : primary ≠ []) (hfirst : StagedAll width primary u first (some ⟨.rgb, width⟩))
      (hsecond : StagedAll width n.fallback u second (some ⟨.rgb, width⟩))
      (hlast : last.operation = .ok .pixelOutput) :
      Planned width t (before ++ n :: (primary ++ [last]))
        ⟨lead, some ⟨n.id, predicate, first, second⟩, last.id⟩

/-- A node keeps its stage if what follows starts with a source as before. -/
theorem Staged.congr {width : Nat} {n : Node} {rest rest' : List Node} {t u : Option Shape}
    {s : Stage} (h : Staged width n rest t s u)
    (hrest : StartsWithSource rest ↔ StartsWithSource rest') : Staged width n rest' t s u := by
  cases h with
  | idle hop hnext => exact .idle hop (hrest.1 hnext)
  | sample hop hnext hbins => exact .sample hop (fun h => hnext (hrest.2 h)) hbins
  | ramp hop => exact .ramp hop
  | decay hop hbins => exact .decay hop hbins
  | color hop => exact .color hop
  | mirror hop heven => exact .mirror hop heven

/-- A node in front of a chain that has a plan. -/
theorem Planned.step {width : Nat} {n : Node} {rest : List Node} {t u : Option Shape} {s : Stage}
    {p : Plan} (hfirst : Staged width n rest t s u) (hrest : Planned width u rest p) :
    Planned width t (n :: rest) { p with lead := s :: p.lead } := by
  cases hrest with
  | straight hlead hlast =>
    have hout := not_startsWithSource (Node.operation_ok hlast).1 rfl []
    exact .straight (.cons (hfirst.congr (startsWithSource_append _ hout)) hlead) hlast
  | forked hlead hop hfallback hprimary hway hway' hlast =>
    have hcond := not_startsWithSource (Node.operation_ok hop).1 rfl
    exact .forked (.cons (hfirst.congr (startsWithSource_append _ (hcond _))) hlead) hop hfallback
      hprimary hway hway' hlast

namespace Plan

/-- A node gets the buffer that reaches it exactly if there is one with the right elements. -/
theorem input_eq_ok_iff {n : Node} {kind : NodeKind} {elem : Elem} {cur : Option Flow}
    {flow : Flow} : input n kind elem cur = .ok flow ↔ cur = some flow ∧ flow.elem = elem := by
  unfold input
  split
  · simp
  · next flow' =>
    split
    · next h =>
      constructor
      · rintro ⟨⟩
        exact ⟨rfl, h⟩
      · rintro ⟨⟨⟩, -⟩
        rfl
    · next h =>
      simp only [reduceCtorEq, Option.some.injEq, false_iff, not_and]
      rintro rfl
      exact h

/-- The check of a node that succeeds relates the node to its stage. -/
theorem staged_of_stage {width : Nat} {n : Node} {rest : List Node} {op : Operation} {isRead : Bool}
    {cur out : Option Flow} {s : Stage} (hop : n.operation = .ok op)
    (hread : isRead = true ↔ ¬StartsWithSource rest)
    (h : (stage width n op isRead cur).result = .ok (s, out)) :
    Staged width n rest (cur.map Flow.shape) s (out.map Flow.shape) := by
  cases op with
  | audioInput bins =>
    simp only [stage, audioStage] at h
    -- Whether the next node reads decides between the two stages of an input.
    split at h
    · next hr =>
      split at h
      · next hb =>
        simp only [Report.bind_result_iff, Report.pure_result, Except.ok.injEq, Prod.mk.injEq] at h
        obtain ⟨_, _, rfl, rfl⟩ := h
        exact .sample hop (hread.1 hr) hb
      · simp at h
    · next hr =>
      simp only [Report.pure_result, Except.ok.injEq, Prod.mk.injEq] at h
      obtain ⟨rfl, rfl⟩ := h
      exact .idle hop (not_not.1 fun hn => hr (hread.2 hn))
  | rampShape =>
    simp only [stage, Report.bind_result_iff, Report.pure_result, Except.ok.injEq,
      Prod.mk.injEq] at h
    obtain ⟨_, _, rfl, rfl⟩ := h
    exact .ramp hop
  | persistDecay factor bins =>
    simp only [stage, decayStage, Report.ofExcept_result, Except.bind_eq_ok_iff,
      input_eq_ok_iff] at h
    obtain ⟨⟨elem, len, producer, watched⟩, ⟨rfl, rfl⟩, h⟩ := h
    -- A number of bins is checked only where one is given.
    cases bins with
    | none =>
      simp only [Except.ok.injEq, Prod.mk.injEq] at h
      obtain ⟨rfl, rfl⟩ := h
      exact .decay hop (by simp)
    | some count =>
      dsimp only at h
      split at h
      · next hc =>
        simp only [Except.ok.injEq, Prod.mk.injEq] at h
        obtain ⟨rfl, rfl⟩ := h
        exact .decay hop (by simp [hc])
      · simp at h
  | colorize map =>
    simp only [stage, Report.ofExcept_result, Except.bind_eq_ok_iff, input_eq_ok_iff,
      Except.ok.injEq, Prod.mk.injEq] at h
    obtain ⟨⟨elem, len, producer, watched⟩, ⟨rfl, rfl⟩, rfl, rfl⟩ := h
    exact .color hop
  | mirror variant =>
    simp only [stage, mirrorStage, Report.ofExcept_result, Except.bind_eq_ok_iff,
      input_eq_ok_iff] at h
    obtain ⟨⟨elem, len, producer, watched⟩, ⟨rfl, rfl⟩, h⟩ := h
    split at h
    · simp at h
    · next hv =>
      simp only [Except.ok.injEq, Prod.mk.injEq] at h
      obtain ⟨rfl, rfl⟩ := h
      exact .mirror hop fun hc => not_not.1 fun hne => hv ⟨hc, hne⟩
  | conditionalFallback predicate => simp [stage] at h
  | pixelOutput => simp [stage] at h

/-- A buffer of a known shape. -/
theorem exists_flow {cur : Option Flow} {sh : Shape} (h : cur.map Flow.shape = some sh) :
    ∃ flow, cur = some flow ∧ flow.elem = sh.elem ∧ flow.len = sh.len := by
  obtain ⟨flow, rfl, rfl⟩ := Option.map_eq_some_iff.1 h
  exact ⟨flow, rfl, rfl, rfl⟩

/-- The check of a node that has a stage succeeds with that stage. -/
theorem stage_of_staged {width : Nat} {n : Node} {rest : List Node} {isRead : Bool}
    {cur : Option Flow} {s : Stage} {u : Option Shape}
    (hread : isRead = true ↔ ¬StartsWithSource rest)
    (h : Staged width n rest (cur.map Flow.shape) s u) :
    ∃ op out, n.operation = .ok op ∧ (stage width n op isRead cur).result = .ok (s, out) ∧
      out.map Flow.shape = u := by
  generalize ht : cur.map Flow.shape = t at h
  cases h with
  | idle hop hnext =>
    have hr : isRead = false := by
      rw [← Bool.not_eq_true, hread]
      exact not_not.2 hnext
    exact ⟨_, cur, hop, by simp [stage, audioStage, hr], ht⟩
  | @sample bins _ hop hnext hbins =>
    refine ⟨_, some ⟨.float, bins.getD width, n.id, true⟩, hop, ?_, rfl⟩
    simp [stage, audioStage, hread.2 hnext, hbins, Report.bind_result_iff]
  | ramp hop =>
    refine ⟨_, some ⟨.float, width, n.id, true⟩, hop, ?_, rfl⟩
    simp [stage, Report.bind_result_iff]
  | @decay factor bins len hop hbins =>
    obtain ⟨flow, rfl, helem, hlen⟩ := exists_flow ht
    refine ⟨_, some ⟨.float, len, n.id, true⟩, hop, ?_, rfl⟩
    simp only [stage, decayStage, Report.ofExcept_result, Except.bind_eq_ok_iff, input_eq_ok_iff]
    refine ⟨flow, ⟨rfl, helem⟩, ?_⟩
    cases bins with
    | none => simp [hlen]
    | some count =>
      have hc : count = flow.len := by rw [hlen]; exact hbins count rfl
      simp [hc, hlen]
  | @color map len hop =>
    obtain ⟨flow, rfl, helem, hlen⟩ := exists_flow ht
    refine ⟨_, some ⟨.rgb, len, n.id, true⟩, hop, ?_, rfl⟩
    simp only [stage, Report.ofExcept_result, Except.bind_eq_ok_iff, input_eq_ok_iff]
    exact ⟨flow, ⟨rfl, helem⟩, by rw [hlen]⟩
  | @mirror variant len hop heven =>
    obtain ⟨flow, rfl, helem, hlen⟩ := exists_flow ht
    refine ⟨_, some ⟨.rgb, len, n.id, true⟩, hop, ?_, rfl⟩
    simp only [stage, mirrorStage, Report.ofExcept_result, Except.bind_eq_ok_iff, input_eq_ok_iff]
    refine ⟨flow, ⟨rfl, helem⟩, ?_⟩
    rw [if_neg]
    · rw [hlen]
    · rintro ⟨hc, hodd⟩
      rw [hlen] at hodd
      exact hodd (heven hc)

/-- The check of a branch that succeeds relates its nodes to their stages. -/
theorem stagedAll_of_branch {width : Nat} {nodes : List Node} {cur out : Option Flow}
    {stages : List Stage} (h : (branch width cur nodes).result = .ok (stages, out)) :
    StagedAll width nodes (cur.map Flow.shape) stages (out.map Flow.shape) := by
  induction nodes generalizing cur stages with
  | nil =>
    simp only [branch, Report.pure_result, Except.ok.injEq, Prod.mk.injEq] at h
    obtain ⟨rfl, rfl⟩ := h
    exact .nil
  | cons n rest ih =>
    simp only [branch, Report.bind_result_iff, Report.ofExcept_result, Report.pure_result,
      Except.ok.injEq, Prod.mk.injEq] at h
    obtain ⟨op, hop, ⟨s, next⟩, hs, ⟨more, out'⟩, hrest, rfl, rfl⟩ := h
    exact .cons (staged_of_stage hop (isReadNext_branch rest) hs) (ih hrest)

/-- The check of a branch whose nodes have stages succeeds with these. -/
theorem branch_of_stagedAll {width : Nat} {nodes : List Node} {cur : Option Flow}
    {stages : List Stage} {u : Option Shape}
    (h : StagedAll width nodes (cur.map Flow.shape) stages u) :
    ∃ out, (branch width cur nodes).result = .ok (stages, out) ∧ out.map Flow.shape = u := by
  induction nodes generalizing cur stages with
  | nil =>
    cases h
    exact ⟨cur, by simp [branch], rfl⟩
  | cons n rest ih =>
    cases h with
    | cons hfirst hrest =>
      obtain ⟨op, next, hop, hs, hnext⟩ := stage_of_staged (isReadNext_branch rest) hfirst
      rw [← hnext] at hrest
      obtain ⟨out, hout, hshape⟩ := ih hrest
      refine ⟨out, ?_, hshape⟩
      simp only [branch, Report.bind_result_iff, Report.ofExcept_result, Report.pure_result]
      exact ⟨op, hop, _, hs, _, hout, rfl⟩

/-- An output takes a buffer exactly if it holds as many colors as the strip has LEDs. -/
theorem checkOutput_eq_ok_iff {width : Nat} {n : Node} {cur : Option Flow} :
    checkOutput width n cur = .ok () ↔ cur.map Flow.shape = some ⟨.rgb, width⟩ := by
  simp only [checkOutput, Except.bind_eq_ok_iff, input_eq_ok_iff, Option.map_eq_some_iff]
  constructor
  · rintro ⟨flow, ⟨rfl, helem⟩, h⟩
    split at h
    · next hlen => exact ⟨flow, rfl, by rw [Flow.shape, helem, hlen]⟩
    · simp at h
  · rintro ⟨flow, rfl, hshape⟩
    obtain ⟨helem, hlen⟩ := Shape.mk.inj hshape
    exact ⟨flow, ⟨rfl, helem⟩, by rw [if_pos hlen]⟩

/-- Two branches meet exactly if they leave buffers of one shape, which is then the shape of the
buffer in which they meet. -/
theorem joined_eq_ok_iff {n : Node} {primary fallback : Option Flow} {flow : Flow} :
    joined n primary fallback = .ok flow ↔ flow.producer = n.id ∧ flow.watched = true ∧
      primary.map Flow.shape = some flow.shape ∧ fallback.map Flow.shape = some flow.shape := by
  rcases primary with _ | ⟨e, l, _, _⟩
  · simp [joined]
  rcases fallback with _ | ⟨e', l', _, _⟩
  · simp [joined]
  rcases flow with ⟨elem, len, producer, watched⟩
  simp only [joined, Option.map_some, Flow.shape, Option.some.injEq, Shape.mk.injEq]
  split
  · next hne =>
    simp only [reduceCtorEq, false_iff]
    rintro ⟨-, -, ⟨rfl, rfl⟩, rfl, rfl⟩
    exact hne rfl
  · split
    · next hne =>
      simp only [reduceCtorEq, false_iff]
      rintro ⟨-, -, ⟨rfl, rfl⟩, rfl, rfl⟩
      exact hne rfl
    · next he hl =>
      rw [not_not] at he hl
      subst he hl
      simp only [Except.ok.injEq, Flow.mk.injEq]
      constructor
      · rintro ⟨rfl, rfl, rfl, rfl⟩
        exact ⟨rfl, rfl, ⟨rfl, rfl⟩, rfl, rfl⟩
      · rintro ⟨rfl, rfl, ⟨rfl, rfl⟩, -, -⟩
        exact ⟨rfl, rfl, rfl, rfl⟩

/-- Whether a fork may ignore its buffer is no part of the buffer's shape. -/
theorem shape_unwatched (cur : Option Flow) :
    (cur.map fun flow => { flow with watched := false }).map Flow.shape = cur.map Flow.shape := by
  cases cur <;> rfl

/-- A conditional node makes a fork exactly if it has a fallback list and nodes after it, and both
ways lead to buffers of one shape. -/
theorem forkOf_result_iff {width : Nat} {n : Node} {predicate : Predicate} {primary : List Node}
    {cur : Option Flow} {f : Fork} {sh : Shape} :
    (∃ flow, (forkOf width n predicate primary cur).result = .ok (f, flow) ∧ flow.shape = sh) ↔
      n.fallback ≠ [] ∧ primary ≠ [] ∧ f.id = n.id ∧ f.predicate = predicate ∧
        StagedAll width primary (cur.map Flow.shape) f.primary (some sh) ∧
        StagedAll width n.fallback (cur.map Flow.shape) f.fallback (some sh) := by
  unfold forkOf
  split
  · next h => simp_all
  · next hfallback =>
    split
    · next h => simp_all
    · next hprimary =>
      rw [List.isEmpty_iff] at hfallback hprimary
      simp only [Report.bind_result_iff, Report.warnOnSuccess_result, Report.ofExcept_result,
        Report.pure_result, Except.ok.injEq, joined_eq_ok_iff]
      constructor
      · rintro ⟨flow, ⟨⟨first, p⟩, hp, ⟨second, q⟩, hq, flow', ⟨-, -, hps, hqs⟩, ⟨⟩⟩, rfl⟩
        have hfirst := stagedAll_of_branch hp
        have hsecond := stagedAll_of_branch hq
        rw [shape_unwatched] at hfirst hsecond
        exact ⟨hfallback, hprimary, rfl, rfl, hps ▸ hfirst, hqs ▸ hsecond⟩
      · obtain ⟨id, pred, first, second⟩ := f
        rintro ⟨-, -, rfl, rfl, hfirst, hsecond⟩
        rw [← shape_unwatched] at hfirst hsecond
        obtain ⟨p, hp, hps⟩ := branch_of_stagedAll hfirst
        obtain ⟨q, hq, hqs⟩ := branch_of_stagedAll hsecond
        let flow : Flow := ⟨sh.elem, sh.len, n.id, true⟩
        exact ⟨flow, ⟨_, hp, _, hq, flow, ⟨rfl, rfl, hps, hqs⟩, rfl⟩, rfl⟩

/-- A list of nodes that ends in an output is cut before it. -/
theorem splitOutput_eq_some_iff {nodes primary : List Node} {last : Node} :
    splitOutput nodes = (primary, some last) ↔
      nodes = primary ++ [last] ∧ last.IsKind .pixelOutput := by
  unfold splitOutput
  rcases List.eq_nil_or_concat nodes with rfl | ⟨init, final, rfl⟩
  · simp
  · simp only [List.concat_eq_append, List.getLast?_concat, List.dropLast_concat, isOutput,
      decide_eq_true_eq]
    split
    · next h =>
      simp only [Prod.mk.injEq, Option.some.injEq]
      constructor
      · rintro ⟨rfl, rfl⟩
        exact ⟨rfl, h⟩
      · rintro ⟨hl, -⟩
        obtain ⟨hi, hl⟩ := List.append_inj' hl rfl
        exact ⟨hi, List.singleton_inj.1 hl⟩
    · next h =>
      simp only [Prod.mk.injEq, reduceCtorEq, and_false, false_iff, not_and]
      intro hl hk
      obtain ⟨-, hl⟩ := List.append_inj' hl rfl
      obtain rfl := List.singleton_inj.1 hl
      exact h hk

/-- The check of a chain that succeeds makes a plan of it. -/
theorem planned_of_chain {width : Nat} {lastId : String} {cur : Option Flow} {nodes : List Node}
    {p : Plan} (h : (chain width lastId cur nodes).result = .ok p) :
    Planned width (cur.map Flow.shape) nodes p := by
  induction nodes generalizing cur p with
  | nil => simp [chain] at h
  | cons n rest ih =>
    simp only [chain, Report.bind_result_iff, Report.ofExcept_result] at h
    obtain ⟨op, hop, h⟩ := h
    split at h
    · next predicate =>
      -- A conditional node takes all that follows it, up to the output, as its primary way.
      rcases hsplit : splitOutput rest with ⟨primary, _ | last⟩
      · simp only [hsplit, Report.bind_result_iff, Report.fail_result, reduceCtorEq, and_false,
          exists_false] at h
      · simp only [hsplit, Report.bind_result_iff, Report.ofExcept_result, Report.pure_result,
          Except.ok.injEq] at h
        obtain ⟨⟨f, flow⟩, hfork, lastOp, hlast, _, hcheck, rfl⟩ := h
        have hshape := checkOutput_eq_ok_iff.1 hcheck
        obtain ⟨rfl, hkind⟩ := splitOutput_eq_some_iff.1 hsplit
        obtain ⟨hfallback, hprimary, hid, hpred, hfirst, hsecond⟩ :=
          forkOf_result_iff.1 ⟨flow, hfork, Option.some.inj hshape⟩
        obtain ⟨id, pred, first, second⟩ := f
        obtain rfl : id = n.id := hid
        obtain rfl : pred = predicate := hpred
        -- The chain is split by the kind of its last node, which one operation has.
        have hlast' : last.operation = .ok .pixelOutput := by
          have hop' := (Node.operation_ok hlast).1.unique hkind
          cases lastOp <;> simp [Operation.kind] at hop'
          exact hlast
        exact .forked (.nil : StagedAll width [] _ [] _) hop hfallback hprimary hfirst hsecond
          hlast'
    · split at h
      · next hrest =>
        simp only [Report.bind_result_iff, Report.ofExcept_result, Report.pure_result,
          Except.ok.injEq] at h
        obtain ⟨_, hcheck, rfl⟩ := h
        have hshape := checkOutput_eq_ok_iff.1 hcheck
        rw [List.isEmpty_iff] at hrest
        subst hrest
        rw [hshape]
        exact .straight (.nil : StagedAll width [] _ [] _) hop
      · simp at h
    · simp only [Report.bind_result_iff, Report.pure_result, Except.ok.injEq] at h
      obtain ⟨⟨s, next⟩, hs, plan, hrest, rfl⟩ := h
      cases rest with
      | nil => simp [chain] at hrest
      | cons m rest =>
        exact .step (staged_of_stage hop (isReadNext_cons false m rest) hs) (ih hrest)

/-- The check of a chain goes through a segment all of whose nodes have stages. -/
theorem chain_append {width : Nat} {lastId : String} {before tail : List Node} {lead : List Stage}
    {u : Option Shape} {p : Plan} (htail : tail ≠ []) (hsource : ¬StartsWithSource tail)
    (hrest : ∀ cur : Option Flow, cur.map Flow.shape = u →
      (chain width lastId cur tail).result = .ok p) {cur : Option Flow}
    (h : StagedAll width before (cur.map Flow.shape) lead u) :
    (chain width lastId cur (before ++ tail)).result = .ok { p with lead := lead ++ p.lead } := by
  induction before generalizing cur lead with
  | nil =>
    generalize ht : cur.map Flow.shape = t at h
    cases h
    exact hrest cur ht
  | cons n before ih =>
    cases h with
    | cons hfirst hmore =>
      -- Across the cut an input is read as well, since the tail starts with no source.
      have hread : isReadNext false (before ++ tail) = true ↔ ¬StartsWithSource before := by
        obtain ⟨m, more, hm⟩ :=
          List.exists_cons_of_ne_nil (List.append_ne_nil_of_right_ne_nil before htail)
        rw [hm, isReadNext_cons, ← hm, startsWithSource_append before hsource]
      obtain ⟨op, next, hop, hs, hnext⟩ := stage_of_staged hread hfirst
      rw [← hnext] at hmore
      simp only [List.cons_append, chain, Report.bind_result_iff, Report.ofExcept_result]
      refine ⟨op, hop, ?_⟩
      split
      · simp [stage] at hs
      · simp [stage] at hs
      · simp only [Report.bind_result_iff, Report.pure_result]
        exact ⟨_, hs, _, ih hmore, rfl⟩

/-- The check of a chain that has a plan succeeds with it. -/
theorem chain_of_planned {width : Nat} {lastId : String} {cur : Option Flow} {nodes : List Node}
    {p : Plan} (h : Planned width (cur.map Flow.shape) nodes p) :
    (chain width lastId cur nodes).result = .ok p := by
  cases h with
  | @straight before last lead hlead hlast =>
    have hsource := not_startsWithSource (Node.operation_ok hlast).1 rfl []
    -- The walk does not depend on who made the buffer, only on its shape.
    have hrest : ∀ cur : Option Flow, cur.map Flow.shape = some ⟨.rgb, width⟩ →
        (chain width lastId cur [last]).result = .ok ⟨[], none, last.id⟩ := by
      intro cur hcur
      simp only [chain, Report.bind_result_iff, Report.ofExcept_result]
      refine ⟨_, hlast, ?_⟩
      simp only [List.isEmpty_nil, if_true, Report.bind_result_iff, Report.ofExcept_result,
        Report.pure_result]
      exact ⟨(), checkOutput_eq_ok_iff.2 hcur, trivial⟩
    have hchain := chain_append (by simp) hsource hrest hlead
    rwa [List.append_nil] at hchain
  | @forked before primary n last u predicate lead first second hlead hop hfallback hprimary hfirst
      hsecond hlast =>
    have hsource := not_startsWithSource (Node.operation_ok hop).1 rfl (primary ++ [last])
    have hrest : ∀ cur : Option Flow, cur.map Flow.shape = u →
        (chain width lastId cur (n :: (primary ++ [last]))).result =
          .ok ⟨[], some ⟨n.id, predicate, first, second⟩, last.id⟩ := by
      intro cur hcur
      have hsplit : splitOutput (primary ++ [last]) = (primary, some last) :=
        splitOutput_eq_some_iff.2 ⟨rfl, (Node.operation_ok hlast).1⟩
      rw [← hcur] at hfirst hsecond
      obtain ⟨flow, hfork, hshape⟩ := forkOf_result_iff (f := ⟨n.id, predicate, first, second⟩).2
        ⟨hfallback, hprimary, rfl, rfl, hfirst, hsecond⟩
      simp only [chain, Report.bind_result_iff, Report.ofExcept_result]
      refine ⟨_, hop, ?_⟩
      simp only [hsplit, Report.bind_result_iff, Report.ofExcept_result, Report.pure_result]
      exact ⟨_, hfork, _, hlast, (), checkOutput_eq_ok_iff.2 (congrArg some hshape), rfl⟩
    have hchain := chain_append (by simp) hsource hrest hlead
    rwa [List.append_nil] at hchain

end Plan

/-- A graph has a plan exactly if its chain has one that starts without a buffer. -/
theorem Graph.plan_result_iff {g : Graph} {p : Plan} :
    g.plan.result = .ok p ↔ Planned g.frameWidth none g.nodes p :=
  ⟨@Plan.planned_of_chain _ _ none _ _, @Plan.chain_of_planned _ _ none _ _⟩

end LedPattern
