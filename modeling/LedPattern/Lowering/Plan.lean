import LedPattern.Graph.Operation
import LedPattern.Kernel.Certificate

/-!
# Plans

A plan is a chain of nodes whose operations are known and fit together: each gets a buffer of the
elements and the length that it needs. `Graph.plan` makes one, or names the first node that does
not fit. It also warns of buffers that nobody reads.

Checking knows buffers by what they hold and who filled them. Which storage they get is decided
later, and cannot fail.

Specification of `pgc`, section 4.2: which nodes fit together, with the errors and the warnings
about those that do not.
-/

namespace LedPattern

/-- What a check warned of, and its result or the error that ended it. -/
structure Report (α : Type) where
  warnings : List Diagnostic
  result : Except Diagnostic α

namespace Report

variable {α β : Type}

/-- A result without a warning. -/
def ok (a : α) : Report α := ⟨[], .ok a⟩

/-- An error. -/
def fail (d : Diagnostic) : Report α := ⟨[], .error d⟩

/-- One check after another. -/
def andThen (x : Report α) (f : α → Report β) : Report β :=
  match x.result with
  | .error d => ⟨x.warnings, .error d⟩
  | .ok a => ⟨x.warnings ++ (f a).warnings, (f a).result⟩

instance : Monad Report where
  pure := ok
  bind := andThen

/-- A check that warns of nothing. -/
def ofExcept (x : Except Diagnostic α) : Report α := ⟨[], x⟩

/-- A check that only warns. -/
def warn (ds : List Diagnostic) : Report Unit := ⟨ds, .ok ()⟩

/-- The check, with its warnings forgotten if it ends in an error. -/
def warnOnSuccess (x : Report α) : Report α :=
  match x.result with
  | .error d => ⟨[], .error d⟩
  | .ok _ => x

end Report

/-- The buffer that reaches a node: what it holds, and the node that filled it. -/
structure Flow where
  elem : Elem
  len : Nat
  producer : String
  /-- Whether it is worth a warning if nobody reads the buffer. -/
  watched : Bool

/-- A node of a plan with what it does. -/
inductive Stage where
  /-- An input that samples nothing, since nobody would read the samples. -/
  | idle (id : String)
  /-- Levels from the spectrum. -/
  | sample (id : String) (bins : Nat)
  /-- Levels that rise along the strip. -/
  | ramp (id : String)
  /-- Levels that follow their input slowly. -/
  | decay (id : String) (factor : Float32)
  /-- Colors from levels. -/
  | color (id : String) (map : ColorMap)
  /-- Colors in another order. -/
  | mirror (id : String) (variant : MirrorVariant)

/-- A choice between two ways, made anew for each frame. -/
structure Fork where
  id : String
  predicate : Predicate
  primary : List Stage
  fallback : List Stage

/-- A chain whose nodes fit together: stages, perhaps a fork, and the output. -/
structure Plan where
  lead : List Stage
  fork : Option Fork
  output : String

namespace Plan

open Diagnostic (Code)

/-- What elements are called in messages. -/
def elemName : Elem → String
  | .float => "float"
  | .rgb => "RGB"

/-- An error at a node. -/
def nodeError (n : Node) (code : Code) (message : String) : Diagnostic :=
  (Diagnostic.error code message).atNode n.id

/-- The warning that the buffer before a node is not read, if it is worth one. -/
def discarded (cur : Option Flow) (n : Node) : List Diagnostic :=
  match cur with
  | some flow =>
    if flow.watched then
      [(Diagnostic.warning .discardedOutput ("output of " ++ Text.quoted flow.producer
        ++ " is discarded: " ++ Text.quoted n.id ++ " does not read its input")).atNode
          flow.producer]
    else []
  | none => []

/-- The buffer that reaches a node, if it holds the elements that the node reads. -/
def input (n : Node) (kind : NodeKind) (elem : Elem) (cur : Option Flow) :
    Except Diagnostic Flow :=
  match cur with
  | none => .error (nodeError n .missingInput (kind.name ++ " needs a " ++ elemName elem
      ++ " input buffer but no earlier node produces one"))
  | some flow =>
    if flow.elem = elem then .ok flow
    else .error (nodeError n .typeMismatch (kind.name ++ " expects a " ++ elemName elem
      ++ " buffer but " ++ Text.quoted flow.producer ++ " produces " ++ elemName flow.elem))

/-- Whether the next node reads the buffer of the one before it. One of an unknown kind counts as
a reader, and at the end of the list `atEnd` decides. -/
def isReadNext (atEnd : Bool) : List Node → Bool
  | [] => atEnd
  | next :: _ =>
    match NodeKind.ofName? next.kind with
    | some kind => kind.readsBuffer
    | none => true

/-- The stage of an audio input. -/
def audioStage (width : Nat) (n : Node) (bins : Option Nat) (isRead : Bool) (cur : Option Flow) :
    Report (Stage × Option Flow) :=
  if isRead then do
    let count := bins.getD width
    if count ≤ spectrumBins then do
      Report.warn (discarded cur n)
      pure (.sample n.id count, some ⟨.float, count, n.id, true⟩)
    else Report.fail ((nodeError n .badParameter ("`bins` " ++ natText count ++ " exceeds the "
      ++ natText spectrumBins ++ " spectrum bins")).atField "bins")
  else pure (.idle n.id, cur)

/-- The stage of a node with a state. -/
def decayStage (n : Node) (factor : Float32) (bins : Option Nat) (cur : Option Flow) :
    Except Diagnostic (Stage × Option Flow) := do
  let flow ← input n .persistDecay .float cur
  let stage := (Stage.decay n.id factor, some (Flow.mk .float flow.len n.id true))
  match bins with
  | none => .ok stage
  | some count =>
    if count = flow.len then .ok stage
    else .error ((nodeError n .lengthMismatch ("declared `bins` " ++ natText count
      ++ " does not match input length " ++ natText flow.len ++ " from "
      ++ Text.quoted flow.producer)).atField "bins")

/-- The stage of a mirror. Only a strip of even length has a middle. -/
def mirrorStage (n : Node) (variant : MirrorVariant) (cur : Option Flow) :
    Except Diagnostic (Stage × Option Flow) := do
  let flow ← input n .mirror .rgb cur
  if variant = .centerOrigin ∧ flow.len % 2 ≠ 0 then
    .error ((nodeError n .mirrorOddWidth ("center-origin Mirror needs an even buffer length, got "
      ++ natText flow.len)).withHint "use variant \"full_reversal\" or an even frame_width")
  else .ok (.mirror n.id variant, some ⟨.rgb, flow.len, n.id, true⟩)

/-- The stage of a node inside a chain or a branch, where neither an output nor a conditional node
may stand, and the buffer that it leaves. -/
def stage (width : Nat) (n : Node) (op : Operation) (isRead : Bool) (cur : Option Flow) :
    Report (Stage × Option Flow) :=
  match op with
  | .audioInput bins => audioStage width n bins isRead cur
  | .rampShape => do
    Report.warn (discarded cur n)
    pure (.ramp n.id, some ⟨.float, width, n.id, true⟩)
  | .persistDecay factor bins => Report.ofExcept (decayStage n factor bins cur)
  | .colorize map => Report.ofExcept do
    let flow ← input n .colorize .float cur
    .ok (.color n.id map, some ⟨.rgb, flow.len, n.id, true⟩)
  | .mirror variant => Report.ofExcept (mirrorStage n variant cur)
  | .conditionalFallback _ => Report.fail (nodeError n .conditionalPlacement
      "ConditionalFallback cannot appear inside a fallback branch")
  | .pixelOutput => Report.fail (nodeError n .terminal
      "PixelOutput must be the last node of the top-level chain")

/-- The stages of a branch, and the buffer that it leaves. -/
def branch (width : Nat) : Option Flow → List Node → Report (List Stage × Option Flow)
  | cur, [] => pure ([], cur)
  | cur, n :: rest => do
    let op ← Report.ofExcept n.operation
    let (first, next) ← stage width n op (isReadNext true rest) cur
    let (stages, out) ← branch width next rest
    pure (first :: stages, out)

/-- The buffer in which two branches meet. -/
def joined (n : Node) (primary fallback : Option Flow) : Except Diagnostic Flow :=
  match primary, fallback with
  | some p, some f =>
    if p.elem ≠ f.elem then
      .error (nodeError n .typeMismatch ("branches disagree: primary yields " ++ elemName p.elem
        ++ " from " ++ Text.quoted p.producer ++ ", fallback yields " ++ elemName f.elem
        ++ " from " ++ Text.quoted f.producer))
    else if p.len ≠ f.len then
      .error (nodeError n .lengthMismatch ("branches disagree: primary yields " ++ natText p.len
        ++ " elements, fallback yields " ++ natText f.len))
    else .ok ⟨p.elem, p.len, n.id, true⟩
  | _, _ => .error (nodeError n .missingInput
      "both branches of ConditionalFallback must produce a buffer")

/-- The fork of a conditional node, whose primary way is the chain after it up to the output. Both
ways start with the buffer that reaches the node, which either may ignore. -/
def forkOf (width : Nat) (n : Node) (predicate : Predicate) (primary : List Node)
    (cur : Option Flow) : Report (Fork × Flow) :=
  if n.fallback.isEmpty then
    Report.fail ((nodeError n .conditionalPlacement
      "ConditionalFallback needs a non-empty `fallback` list").atField "fallback")
  else if primary.isEmpty then
    Report.fail (nodeError n .conditionalPlacement
      "ConditionalFallback needs at least one node between it and PixelOutput")
  else do
    let entry := cur.map fun flow => { flow with watched := false }
    let (first, primaryOut) ← (branch width entry primary).warnOnSuccess
    let (second, fallbackOut) ← (branch width entry n.fallback).warnOnSuccess
    let flow ← Report.ofExcept (joined n primaryOut fallbackOut)
    pure (⟨n.id, predicate, first, second⟩, flow)

/-- The check of an output node: it takes as many colors as the strip has LEDs. -/
def checkOutput (width : Nat) (n : Node) (cur : Option Flow) : Except Diagnostic Unit := do
  let flow ← input n .pixelOutput .rgb cur
  if flow.len = width then .ok ()
  else .error (nodeError n .lengthMismatch ("PixelOutput needs " ++ natText width
    ++ " pixels (frame_width) but " ++ Text.quoted flow.producer ++ " produces "
    ++ natText flow.len))

/-- Whether a node's kind is that of an output. -/
def isOutput (n : Node) : Bool := NodeKind.ofName? n.kind = some .pixelOutput

/-- A list of nodes without the output at its end, and that output. -/
def splitOutput (nodes : List Node) : List Node × Option Node :=
  match nodes.getLast? with
  | some last => if isOutput last then (nodes.dropLast, some last) else (nodes, none)
  | none => (nodes, none)

/-- The error of a chain that does not end in an output. -/
def unterminated (lastId : String) : Diagnostic :=
  (Diagnostic.error .terminal "graph must end with a PixelOutput node").atNode lastId

/-- The plan of a chain, the last node of which is called `lastId`, and which the buffer `cur`
reaches. -/
def chain (width : Nat) (lastId : String) : Option Flow → List Node → Report Plan
  | _, [] => Report.fail (unterminated lastId)
  | cur, n :: rest => do
    match ← Report.ofExcept n.operation with
    | .conditionalFallback predicate =>
      let (primary, output) := splitOutput rest
      let (fork, flow) ← forkOf width n predicate primary cur
      match output with
      | none => Report.fail (unterminated lastId)
      | some last =>
        let _ ← Report.ofExcept last.operation
        Report.ofExcept (checkOutput width last (some flow))
        pure ⟨[], some fork, last.id⟩
    | .pixelOutput =>
      if rest.isEmpty then
        Report.ofExcept (checkOutput width n cur)
        pure ⟨[], none, n.id⟩
      else Report.fail (nodeError n .terminal
        "PixelOutput must be the last node of the top-level chain")
    | op =>
      let (first, next) ← stage width n op (isReadNext false rest) cur
      let plan ← chain width lastId next rest
      pure { plan with lead := first :: plan.lead }

end Plan

/-- The plan of a graph. -/
def Graph.plan (g : Graph) : Report Plan :=
  Plan.chain g.frameWidth ((g.nodes.getLast?.map Node.id).getD "") none g.nodes

end LedPattern
