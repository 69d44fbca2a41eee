import LedPattern.Proofs.Checking
import LedPattern.Proofs.Typing

/-!
# What lowering reports

Each diagnostic of lowering is either a warning that a buffer is not read, or an error that one node
is to blame for. `Node.Blames` says so of the checks of a single node, and `Report.Located` of those
that also warn, which it follows from a stage to a branch and to the whole chain
(`Graph.plan_located`). The invariant on the way is that the buffer which reaches a node names a
node of the graph as its producer.

None of these errors is about an obligation, and by `Graph.lower_of_plan` no other error arises, so
that a graph is lowered exactly if no error is reported (`lowering_discharges`). A graph that is not
lowered has one error, at a node that can be found (`failed_lowering_reports`).
-/

namespace LedPattern

namespace Diagnostic

/-- An error that the node `id` is to blame for. -/
structure IsFault (d : Diagnostic) (id : String) : Prop where
  level : d.level = .error
  node : d.node = some id
  code : ∃ code, d.code = some code ∧ code ≠ .obligation

/-- An error at a node is that node's fault, unless it is about an obligation. -/
@[simp]
theorem isFault_atNode {code : Code} {message id : String} :
    ((Diagnostic.error code message).atNode id).IsFault id ↔ code ≠ .obligation :=
  ⟨fun ⟨_, _, _, heq, hcode⟩ => Option.some.inj heq ▸ hcode, fun h => ⟨rfl, rfl, code, rfl, h⟩⟩

/-- Placing an error at a field does not change whose fault it is. -/
@[simp]
theorem isFault_atField {d : Diagnostic} {id field : String} :
    (d.atField field).IsFault id ↔ d.IsFault id :=
  ⟨fun h => ⟨h.level, h.node, h.code⟩, fun h => ⟨h.level, h.node, h.code⟩⟩

/-- A hint does not change whose fault an error is. -/
@[simp]
theorem isFault_withHint {d : Diagnostic} {id hint : String} :
    (d.withHint hint).IsFault id ↔ d.IsFault id :=
  ⟨fun h => ⟨h.level, h.node, h.code⟩, fun h => ⟨h.level, h.node, h.code⟩⟩

/-- A warning that the buffer of the node `id` is not read. -/
structure IsNotice (d : Diagnostic) (id : String) : Prop where
  level : d.level = .warning
  node : d.node = some id
  code : d.code = some .discardedOutput

end Diagnostic

namespace Node

variable {α β : Type} {n : Node}

/-- A check that blames a node for its error. -/
def Blames (n : Node) (x : Except Diagnostic α) : Prop := ∀ d, x = .error d → d.IsFault n.id

/-- A check that succeeds blames nobody. -/
@[simp]
theorem blames_ok (a : α) : n.Blames (.ok a) := nofun

/-- A check that fails blames the node whose fault it is. -/
@[simp]
theorem blames_error {d : Diagnostic} :
    n.Blames (.error d : Except Diagnostic α) ↔ d.IsFault n.id := by
  constructor
  · exact fun h => h d rfl
  · rintro h _ ⟨⟩
    exact h

/-- Two checks that blame the same node, one after the other. -/
theorem Blames.bind {x : Except Diagnostic α} {f : α → Except Diagnostic β} (hx : n.Blames x)
    (hf : ∀ a, n.Blames (f a)) : n.Blames (x >>= f) := by
  cases x with
  | error d => exact blames_error.2 (hx d rfl)
  | ok a => exact hf a

/-- A number that is missing or out of range is the node's own fault. -/
theorem finiteParam_blames (field : String) : n.Blames (n.finiteParam field) := by
  unfold finiteParam
  dsimp only
  repeat' split
  all_goals simp +decide [badParam, fieldError]

/-- A decay that is no number in the unit interval is the node's own fault. -/
theorem decayParam_blames : n.Blames n.decayParam := by
  unfold decayParam
  repeat' split
  all_goals simp +decide [fieldError]

/-- A number of bins that is none is the node's own fault. -/
theorem binsParam_blames : n.Blames n.binsParam := by
  unfold binsParam
  dsimp only
  repeat' split
  all_goals simp +decide [badParam, fieldError]

/-- A color map that is none is the node's own fault. -/
theorem colorMapParam_blames : n.Blames n.colorMapParam := by
  unfold colorMapParam
  dsimp only
  split_ifs
  · exact blames_ok _
  · refine .bind (finiteParam_blames _) fun _ => .bind (finiteParam_blames _) fun _ => ?_
    exact .bind (finiteParam_blames _) fun _ => blames_ok _
  · simp +decide [badParam, fieldError]

/-- A way of mirroring that is none is the node's own fault. -/
theorem mirrorVariant_blames : n.Blames n.mirrorVariant := by
  unfold mirrorVariant
  refine .bind ?_ fun given => ?_
  · unfold variantParam
    repeat' split
    all_goals simp +decide [fieldError]
  · repeat' split
    all_goals simp +decide [fieldError]

/-- A predicate that is none is the node's own fault. -/
theorem predicateParam_blames : n.Blames n.predicateParam := by
  unfold predicateParam
  dsimp only
  split_ifs
  · exact blames_ok _
  · refine .bind (finiteParam_blames _) fun threshold => ?_
    split
    · exact blames_ok _
    · simp +decide [badParam, fieldError]
  · simp +decide [badParam, fieldError]

/-- Whatever is wrong with a declaration is the fault of the node declared. -/
theorem operation_blames : n.Blames n.operation := by
  unfold operation
  split
  · simp +decide [fieldError]
  · next kind _ =>
    split
    · simp +decide [badParam, fieldError]
    · cases kind with
      | audioInput => exact .bind binsParam_blames fun _ => blames_ok _
      | rampShape => exact blames_ok _
      | persistDecay =>
        exact .bind decayParam_blames fun _ => .bind binsParam_blames fun _ => blames_ok _
      | colorize => exact .bind colorMapParam_blames fun _ => blames_ok _
      | mirror => exact .bind mirrorVariant_blames fun _ => blames_ok _
      | conditionalFallback => exact .bind predicateParam_blames fun _ => blames_ok _
      | pixelOutput => exact blames_ok _

end Node

/-- A check that warns of nodes called `ids` only, blames one of these for an error, and otherwise
yields something `good`. -/
structure Report.Located {α : Type} (ids : List String) (r : Report α) (good : α → Prop) :
    Prop where
  warnings : ∀ d ∈ r.warnings, ∃ id ∈ ids, d.IsNotice id
  error : ∀ d, r.result = .error d → ∃ id ∈ ids, d.IsFault id
  value : ∀ a, r.result = .ok a → good a

namespace Report.Located

variable {α β : Type} {ids : List String} {f : α → Prop} {g : β → Prop}

/-- A result without a warning is located if it is good. -/
theorem ok {a : α} (h : f a) : (pure a : Report α).Located ids f :=
  ⟨nofun, nofun, by rintro _ ⟨⟩; exact h⟩

/-- An error is located if it is the fault of a node. -/
theorem fail {d : Diagnostic} {id : String} (hid : id ∈ ids) (h : d.IsFault id) :
    (Report.fail d : Report α).Located ids f :=
  ⟨nofun, by rintro _ ⟨⟩; exact ⟨id, hid, h⟩, nofun⟩

/-- A check of one node is located if it blames that node. -/
theorem ofExcept {x : Except Diagnostic α} {n : Node} (hid : n.id ∈ ids) (hx : n.Blames x)
    (h : ∀ a, x = .ok a → f a) : (Report.ofExcept x).Located ids f :=
  ⟨nofun, fun d hd => ⟨n.id, hid, hx d hd⟩, h⟩

/-- One check after another is located if both are. -/
theorem bind {x : Report α} {k : α → Report β} (hx : x.Located ids f)
    (hk : ∀ a, f a → (k a).Located ids g) : (x >>= k).Located ids g := by
  show (andThen x k).Located ids g
  unfold andThen
  split
  · next d hd => exact ⟨hx.warnings, by rintro _ ⟨⟩; exact hx.error d hd, nofun⟩
  · next a ha =>
    have hrest := hk a (hx.value a ha)
    exact ⟨List.forall_mem_append.2 ⟨hx.warnings, hrest.warnings⟩, hrest.error, hrest.value⟩

/-- A check is located if its warnings are forgotten in case of an error. -/
theorem warnOnSuccess {x : Report α} (hx : x.Located ids f) : x.warnOnSuccess.Located ids f := by
  unfold Report.warnOnSuccess
  split
  · next d hd => exact ⟨nofun, by rintro _ ⟨⟩; exact hx.error d hd, nofun⟩
  · exact hx

end Report.Located

namespace Plan

variable {ids : List String} {width : Nat} {n : Node} {cur : Option Flow}

/-- A buffer that does not suit a node is blamed on the node. -/
theorem input_blames (kind : NodeKind) (elem : Elem) : n.Blames (input n kind elem cur) := by
  unfold input
  repeat' split
  all_goals simp +decide [nodeError]

/-- A length that does not suit a node with a state is blamed on the node. -/
theorem decayStage_blames (factor : Float32) (bins : Option Nat) :
    n.Blames (decayStage n factor bins cur) := by
  unfold decayStage
  refine .bind (input_blames _ _) fun flow => ?_
  dsimp only
  repeat' split
  all_goals simp +decide [nodeError]

/-- A length that does not suit a mirror is blamed on the node. -/
theorem mirrorStage_blames (variant : MirrorVariant) : n.Blames (mirrorStage n variant cur) := by
  unfold mirrorStage
  refine .bind (input_blames _ _) fun flow => ?_
  split_ifs
  · simp +decide [nodeError]
  · exact Node.blames_ok _

/-- Two ways that do not meet are blamed on the node at which they part. -/
theorem joined_blames (primary fallback : Option Flow) : n.Blames (joined n primary fallback) := by
  unfold joined
  repeat' split
  all_goals simp +decide [nodeError]

/-- A buffer that does not fill the strip is blamed on the output. -/
theorem checkOutput_blames : n.Blames (checkOutput width n cur) := by
  unfold checkOutput
  refine .bind (input_blames _ _) fun flow => ?_
  split_ifs
  · exact Node.blames_ok _
  · simp +decide [nodeError]

/-- A warning names the node whose buffer is not read. -/
theorem warn_discarded_located (hcur : ∀ flow ∈ cur, flow.producer ∈ ids) :
    (Report.warn (discarded cur n)).Located ids fun _ => True := by
  refine ⟨fun d hd => ?_, nofun, fun _ _ => trivial⟩
  change d ∈ discarded cur n at hd
  unfold discarded at hd
  split at hd
  · next flow =>
    split at hd
    · obtain rfl := List.mem_singleton.1 hd
      exact ⟨flow.producer, hcur flow rfl, rfl, rfl, rfl⟩
    · cases hd
  · cases hd

/-- A stage is made without losing track of the producer of the buffer. -/
theorem stage_located (hn : n.id ∈ ids) (hcur : ∀ flow ∈ cur, flow.producer ∈ ids)
    (op : Operation) (isRead : Bool) :
    (stage width n op isRead cur).Located ids fun out => ∀ flow ∈ out.2, flow.producer ∈ ids := by
  -- A buffer that the node fills names the node itself, any other one was known before.
  have hown : ∀ elem len, ∀ flow ∈ some (Flow.mk elem len n.id true), flow.producer ∈ ids := by
    rintro elem len _ ⟨⟩
    exact hn
  cases op with
  | audioInput bins =>
    show (audioStage width n bins isRead cur).Located ids _
    unfold audioStage
    dsimp only
    split_ifs
    · exact .bind (warn_discarded_located hcur) fun _ _ => .ok (hown _ _)
    · exact .fail hn (by simp +decide [nodeError])
    · exact .ok hcur
  | rampShape => exact .bind (warn_discarded_located hcur) fun _ _ => .ok (hown _ _)
  | persistDecay factor bins =>
    refine .ofExcept hn (decayStage_blames factor bins) fun out hout => ?_
    obtain ⟨flow, -, hout⟩ := Except.bind_eq_ok_iff.1 hout
    dsimp only at hout
    repeat' split at hout
    all_goals cases hout
    all_goals exact hown _ _
  | colorize map =>
    refine .ofExcept hn (.bind (input_blames _ _) fun _ => Node.blames_ok _) fun out hout => ?_
    obtain ⟨flow, -, ⟨⟩⟩ := Except.bind_eq_ok_iff.1 hout
    exact hown _ _
  | mirror variant =>
    refine .ofExcept hn (mirrorStage_blames variant) fun out hout => ?_
    obtain ⟨flow, -, hout⟩ := Except.bind_eq_ok_iff.1 hout
    split at hout
    all_goals cases hout
    exact hown _ _
  | conditionalFallback predicate => exact .fail hn (by simp +decide [nodeError])
  | pixelOutput => exact .fail hn (by simp +decide [nodeError])

/-- A branch is made without losing track of the buffer's producer, by going through its nodes. -/
theorem branch_located {nodes : List Node} (hnodes : ∀ n ∈ nodes, n.id ∈ ids)
    (hcur : ∀ flow ∈ cur, flow.producer ∈ ids) :
    (branch width cur nodes).Located ids fun out => ∀ flow ∈ out.2, flow.producer ∈ ids := by
  induction nodes generalizing cur with
  | nil => exact .ok hcur
  | cons n rest ih =>
    rw [List.forall_mem_cons] at hnodes
    refine .bind (.ofExcept hnodes.1 Node.operation_blames fun _ _ => trivial) fun op _ => ?_
    refine .bind (stage_located hnodes.1 hcur op _) fun out hout => ?_
    exact .bind (ih hnodes.2 hout) fun out hout => .ok hout

/-- A fork blames its own nodes only, as both its ways are branches. -/
theorem forkOf_located (hn : n.id ∈ ids) (hfallback : ∀ m ∈ n.fallback, m.id ∈ ids)
    {primary : List Node} (hprimary : ∀ m ∈ primary, m.id ∈ ids)
    (hcur : ∀ flow ∈ cur, flow.producer ∈ ids) (predicate : Predicate) :
    (forkOf width n predicate primary cur).Located ids fun _ => True := by
  -- Both ways start with the buffer that reaches the node, whose producer stays the same.
  have hentry : ∀ flow ∈ cur.map fun flow => { flow with watched := false },
      flow.producer ∈ ids := by
    intro flow hflow
    obtain ⟨flow, hmem, rfl⟩ := Option.map_eq_some_iff.1 hflow
    exact hcur flow hmem
  unfold forkOf
  split_ifs
  · exact .fail hn (by simp +decide [nodeError])
  · exact .fail hn (by simp +decide [nodeError])
  · refine .bind (branch_located hprimary hentry).warnOnSuccess fun out _ => ?_
    refine .bind (branch_located hfallback hentry).warnOnSuccess fun out' _ => ?_
    refine .bind (.ofExcept hn (joined_blames _ _) fun _ _ => trivial) fun flow _ => ?_
    exact .ok trivial

/-- The nodes of a list are those before the output at its end, and that output. -/
theorem splitOutput_subset (nodes : List Node) :
    (∀ m ∈ (splitOutput nodes).1, m ∈ nodes) ∧ ∀ m ∈ (splitOutput nodes).2, m ∈ nodes := by
  unfold splitOutput
  split
  · next last hlast =>
    split
    · refine ⟨fun m hm => (List.dropLast_sublist nodes).subset hm, ?_⟩
      rintro m ⟨⟩
      exact List.mem_of_getLast? hlast
    · exact ⟨fun m => id, nofun⟩
  · exact ⟨fun m => id, nofun⟩

/-- A chain is checked from node to node, the producers of its buffers being known all along. -/
theorem chain_located {lastId : String} (hlast : lastId ∈ ids) {nodes : List Node}
    (hnodes : ∀ n ∈ nodes, n.id ∈ ids ∧ ∀ m ∈ n.fallback, m.id ∈ ids)
    (hcur : ∀ flow ∈ cur, flow.producer ∈ ids) :
    (chain width lastId cur nodes).Located ids fun _ => True := by
  induction nodes generalizing cur with
  | nil => exact .fail hlast (by simp +decide [unterminated])
  | cons n rest ih =>
    rw [List.forall_mem_cons] at hnodes
    obtain ⟨⟨hn, hfallback⟩, hrest⟩ := hnodes
    refine .bind (.ofExcept hn Node.operation_blames fun _ _ => trivial) fun op _ => ?_
    cases op with
    | conditionalFallback predicate =>
      -- Here the walk ends: both ways and the output are checked at once.
      obtain ⟨hprimary, houtput⟩ := splitOutput_subset rest
      refine .bind (forkOf_located hn hfallback (fun m hm => (hrest m (hprimary m hm)).1) hcur
        predicate) fun out _ => ?_
      dsimp only
      split
      · exact .fail hlast (by simp +decide [unterminated])
      · next last heq =>
        have hid := (hrest last (houtput last heq)).1
        refine .bind (.ofExcept hid Node.operation_blames fun _ _ => trivial) fun _ _ => ?_
        exact .bind (.ofExcept hid checkOutput_blames fun _ _ => trivial) fun _ _ => .ok trivial
    | pixelOutput =>
      dsimp only
      split
      · exact .bind (.ofExcept hn checkOutput_blames fun _ _ => trivial) fun _ _ => .ok trivial
      · exact .fail hn (by simp +decide [nodeError])
    | audioInput | rampShape | persistDecay | colorize | mirror =>
      refine .bind (stage_located hn hcur _ _) fun out hout => ?_
      exact .bind (ih hrest hout) fun _ _ => .ok trivial

end Plan

namespace Graph

variable {g : Graph}

/-- The identifiers of a graph's nodes. -/
def ids (g : Graph) : List String := g.allNodes.map Node.id

/-- The nodes of the chain and of their fallback lists have their identifiers among those of the
graph. -/
theorem ids_of_mem {n : Node} (hn : n ∈ g.nodes) :
    n.id ∈ g.ids ∧ ∀ m ∈ n.fallback, m.id ∈ g.ids := by
  refine ⟨List.mem_map_of_mem ((Node.sublist_preorderAll g.nodes).subset hn), fun m hm => ?_⟩
  obtain ⟨before, after, hnodes⟩ := List.append_of_mem hn
  have hinside := (Node.sublist_preorderAll n.fallback).subset hm
  refine List.mem_map_of_mem ?_
  rw [allNodes, hnodes, Node.preorderAll_append, Node.preorderAll, Node.preorder_eq]
  exact List.mem_append_right _ (List.mem_append_left _ (List.mem_cons_of_mem _ hinside))

/-- Planning reports on nodes of the graph only. -/
theorem plan_located (hne : g.nodes ≠ []) : g.plan.Located g.ids fun _ => True := by
  refine Plan.chain_located ?_ (fun n hn => ids_of_mem hn) nofun
  rw [List.getLast?_eq_getLast_of_ne_nil hne]
  exact (ids_of_mem (List.getLast_mem hne)).1

/-- A graph with a plan is lowered to the program of the plan, which passes its checks. -/
theorem lower_of_plan (hg : g.WellFormed) {p : Plan} (h : g.plan.result = .ok p) :
    (g.programOf p).certificate.allPass = true ∧
      g.lower = ⟨some (g.programOf p), some (g.programOf p).certificate, g.plan.warnings⟩ := by
  have hwidth := hg.width_lt
  have hpass := certificate_allPass (plan_result_iff.1 h).fits hwidth
  refine ⟨hpass, ?_⟩
  have hplan : g.plan = ⟨g.plan.warnings, .ok p⟩ := by rw [← h]
  unfold lower
  rw [hplan]
  exact if_pos hpass

/-- A graph without a plan is not lowered, and the error that planning found comes last. -/
theorem lower_of_plan_error {d : Diagnostic} (h : g.plan.result = .error d) :
    g.lower = ⟨none, none, g.plan.warnings ++ [d]⟩ := by
  have hplan : g.plan = ⟨g.plan.warnings, .error d⟩ := by rw [← h]
  unfold lower
  rw [hplan]

/-- What lowering reports about a graph that it lowers, or about one that it does not: warnings, and
in the latter case an error at the end. -/
theorem lower_reports (hg : g.WellFormed) (hne : g.nodes ≠ []) :
    ∃ warnings, (∀ d ∈ warnings, ∃ id ∈ g.ids, d.IsNotice id) ∧
      ((∃ p, g.lower = ⟨some p, some p.certificate, warnings⟩ ∧ p.certificate.allPass = true) ∨
        ∃ d, g.lower = ⟨none, none, warnings ++ [d]⟩ ∧ ∃ id ∈ g.ids, d.IsFault id) := by
  have hlocated := plan_located hne
  refine ⟨g.plan.warnings, hlocated.warnings, ?_⟩
  cases hplan : g.plan.result with
  | ok p =>
    obtain ⟨hpass, hlower⟩ := lower_of_plan hg hplan
    exact .inl ⟨_, hlower, hpass⟩
  | error d => exact .inr ⟨d, lower_of_plan_error hplan, hlocated.error d hplan⟩

/-- Warnings are no errors. -/
theorem anyError_of_notices {ds : List Diagnostic} {ids : List String}
    (h : ∀ d ∈ ds, ∃ id ∈ ids, d.IsNotice id) : Diagnostic.anyError ds = false := by
  rw [Diagnostic.anyError, List.any_eq_false]
  intro d hd
  obtain ⟨id, -, hnotice⟩ := h d hd
  simp [Diagnostic.isError, hnotice.level]

/-- A graph is lowered exactly if no error is reported. -/
theorem lower_isSome_iff_anyError (hg : g.WellFormed) (hne : g.nodes ≠ []) :
    g.lower.program.isSome ↔ Diagnostic.anyError g.lower.diagnostics = false := by
  obtain ⟨warnings, hwarnings, ⟨p, hlower, -⟩ | ⟨d, hlower, id, -, hfault⟩⟩ := lower_reports hg hne
  · simp [hlower, anyError_of_notices hwarnings]
  · simp [hlower, Diagnostic.anyError, Diagnostic.isError, hfault.level]

/-- There is a node to be found under each identifier of the graph, and under no other. -/
theorem find?_isSome_iff {id : String} : (g.find? id).isSome ↔ id ∈ g.ids := by
  simp [find?, ids, List.find?_isSome]

end Graph

/-- Lowering meets its own obligations. If a graph that has been loaded has a plan, all four checks
of the program made from it succeed, and this program is what the graph is lowered to. No error is
ever about an obligation, so there is a program exactly if no error is reported at all, and it comes
with its certificate. -/
theorem lowering_discharges {source : String} {g : Graph}
    (hload : (Graph.load source).value = some g) :
    (∀ p, g.plan.result = .ok p →
      (g.programOf p).certificate.terminalCoversFrame = true ∧
      (g.programOf p).certificate.indicesInBounds = true ∧
      (g.programOf p).certificate.buffersDeclared = true ∧
      (g.programOf p).certificate.singleStateWriter = true ∧
      g.lower.program = some (g.programOf p)) ∧
    (∀ d ∈ g.lower.diagnostics, d.code ≠ some .obligation) ∧
    (g.lower.program.isSome ↔ Diagnostic.anyError g.lower.diagnostics = false) ∧
    ∀ p, g.lower.program = some p →
      g.lower.certificate = some p.certificate ∧ p.certificate.allPass = true := by
  have hg := Graph.wellFormed_of_load hload
  have hne := Graph.nodes_ne_nil_of_load hload
  refine ⟨fun p hp => ?_, ?_, Graph.lower_isSome_iff_anyError hg hne, ?_⟩
  · obtain ⟨hpass, hlower⟩ := Graph.lower_of_plan hg hp
    simp only [Certificate.allPass, Bool.and_eq_true] at hpass
    obtain ⟨⟨⟨hterminal, hbounds⟩, hdeclared⟩, hwriter⟩ := hpass
    exact ⟨hterminal, hbounds, hdeclared, hwriter, by rw [hlower]⟩
  all_goals
    obtain ⟨warnings, hwarnings, hreport⟩ := Graph.lower_reports hg hne
  · have hnotice : ∀ d ∈ warnings, d.code ≠ some .obligation := by
      intro d hd
      obtain ⟨id, -, hnotice⟩ := hwarnings d hd
      rw [hnotice.code]
      decide
    rcases hreport with ⟨p, hlower, -⟩ | ⟨d, hlower, id, -, hfault⟩
    · rwa [hlower]
    · rw [hlower, List.forall_mem_append, List.forall_mem_singleton]
      obtain ⟨code, hcode, hne⟩ := hfault.code
      exact ⟨hnotice, hcode ▸ fun h => hne (Option.some.inj h)⟩
  · rcases hreport with ⟨p, hlower, hpass⟩ | ⟨d, hlower, -⟩
    · rw [hlower]
      rintro _ ⟨⟩
      exact ⟨rfl, hpass⟩
    · rw [hlower]
      rintro _ ⟨⟩

/-- The chain with a fork has a certificate without a failure. -/
theorem forkedSource_discharges :
    ∃ g p, (Graph.load forkedSource).value = some g ∧ g.plan.result = .ok p ∧
      (g.programOf p).certificate = ⟨true, true, true, true⟩ ∧
      g.lower.certificate = some (g.programOf p).certificate ∧
      Diagnostic.anyError g.lower.diagnostics = false := by
  obtain ⟨g, hload, hsome⟩ := forkedSource_lowers
  obtain ⟨hchecks, -, hiff, hcertificate⟩ := lowering_discharges hload
  obtain ⟨p, hp⟩ := (Graph.lower_isSome_iff (Graph.wellFormed_of_load hload)).1 hsome
  have hplan := Graph.plan_result_iff.2 hp
  obtain ⟨hterminal, hbounds, hdeclared, hwriter, hlower⟩ := hchecks p hplan
  have hall := (Certificate.mk.injEq ..).mpr ⟨hterminal, hbounds, hdeclared, hwriter⟩
  exact ⟨g, p, hload, hplan, hall, (hcertificate _ hlower).1, hiff.1 hsome⟩

/-- A graph that has been loaded but cannot be lowered has no certificate either, and exactly one of
the diagnostics is an error. It is placed at a node of the graph, be it in a fallback list or not.
All others are warnings that the buffer of some node of the graph is not read. -/
theorem failed_lowering_reports {source : String} {g : Graph}
    (hload : (Graph.load source).value = some g) (hnone : g.lower.program = none) :
    g.lower.certificate = none ∧
    ∃ d, Diagnostic.errors g.lower.diagnostics = [d] ∧
      (∃ id, d.node = some id ∧ (g.find? id).isSome) ∧
      ∀ w ∈ g.lower.diagnostics, w ≠ d →
        w.level = .warning ∧ w.code = some .discardedOutput ∧
        ∃ id, w.node = some id ∧ (g.find? id).isSome := by
  obtain ⟨warnings, hwarnings, hreport⟩ :=
    Graph.lower_reports (Graph.wellFormed_of_load hload) (Graph.nodes_ne_nil_of_load hload)
  rcases hreport with ⟨p, hlower, -⟩ | ⟨d, hlower, id, hid, hfault⟩
  · rw [hlower] at hnone
    cases hnone
  rw [hlower]
  refine ⟨rfl, d, ?_, ⟨id, hfault.node, Graph.find?_isSome_iff.2 hid⟩, fun w hw hne => ?_⟩
  · -- Before the error at the end there are warnings only.
    have hquiet := Graph.anyError_of_notices hwarnings
    rw [Diagnostic.anyError, List.any_eq_false] at hquiet
    have herror : d.isError = true := decide_eq_true hfault.level
    rw [Diagnostic.errors, List.filter_append, List.filter_eq_nil_iff.2 hquiet, List.nil_append,
      List.filter_cons_of_pos herror, List.filter_nil]
  · rcases List.mem_append.1 hw with hw | hw
    · obtain ⟨other, hother, hnotice⟩ := hwarnings w hw
      exact ⟨hnotice.level, hnotice.code, other, hnotice.node, Graph.find?_isSome_iff.2 hother⟩
    · exact absurd (List.mem_singleton.1 hw) hne

/-- A ramp that nothing reads, and a node in a fallback list whose kind does not exist. -/
def strayKindSource : String :=
  "\x7b\"frame_width\":2,\"nodes\":[\x7b\"id\":\"r\",\"kind\":\"RampShape\"\x7d," ++
  "\x7b\"id\":\"s\",\"kind\":\"RampShape\"\x7d," ++
  "\x7b\"id\":\"f\",\"kind\":\"ConditionalFallback\"," ++
  "\"fallback\":[\x7b\"id\":\"x\",\"kind\":\"Bogus\"\x7d]\x7d," ++
  "\x7b\"id\":\"c\",\"kind\":\"Colorize\"\x7d,\x7b\"id\":\"o\",\"kind\":\"PixelOutput\"\x7d]\x7d"

/-- The ramp is warned of, and the node is what the error is about. -/
theorem strayKindSource_reports :
    ∃ g w d, (Graph.load strayKindSource).value = some g ∧ g.lower.program = none ∧
      g.lower.certificate = none ∧ g.lower.diagnostics = [w, d] ∧
      Diagnostic.errors g.lower.diagnostics = [d] ∧ d.node = some "x" ∧ (g.find? "x").isSome ∧
      w.level = .warning ∧ w.code = some .discardedOutput ∧ w.node = some "r" ∧
      (g.find? "r").isSome := by
  have hresult : (Graph.load strayKindSource).value.map (fun g => (g.lower.program.isNone,
      g.lower.diagnostics.map fun d => (d.node, d.code))) =
      some (true, [(some "r", some .discardedOutput), (some "x", some .unknownKind)]) := by
    decide +kernel
  obtain ⟨g, hload, hg⟩ := Option.map_eq_some_iff.1 hresult
  obtain ⟨hisNone, hpair⟩ := Prod.mk.inj hg
  have hnone := Option.isNone_iff_eq_none.1 hisNone
  obtain ⟨w, d, hboth⟩ : ∃ w d, g.lower.diagnostics = [w, d] := by
    rw [← List.length_eq_two, ← List.length_map, hpair]
    rfl
  simp only [hboth, List.map_cons, List.cons.injEq, Prod.mk.injEq] at hpair
  obtain ⟨⟨hwnode, hwcode⟩, ⟨hdnode, hdcode⟩, -⟩ := hpair
  obtain ⟨hcertificate, e, herrors, ⟨id, hid, hfound⟩, hothers⟩ :=
    failed_lowering_reports hload hnone
  -- The error is the second one: that one is no warning, as its code shows.
  obtain rfl : d = e := by
    by_contra hne
    obtain ⟨-, hcode, -⟩ := hothers d (by simp [hboth]) hne
    rw [hdcode] at hcode
    exact absurd hcode (by decide)
  have hne : w ≠ d := by
    rintro rfl
    rw [hdcode] at hwcode
    exact absurd hwcode (by decide)
  obtain ⟨hlevel, hcode, other, hother, hfound'⟩ := hothers w (by simp [hboth]) hne
  obtain rfl : id = "x" := Option.some.inj (hid.symm.trans hdnode)
  obtain rfl : other = "r" := Option.some.inj (hother.symm.trans hwnode)
  exact ⟨g, w, d, hload, hnone, hcertificate, hboth, herrors, hdnode, hfound, hlevel, hcode, hwnode,
    hfound'⟩

end LedPattern
