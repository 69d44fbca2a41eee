import LedPattern.Diagnostic
import LedPattern.Graph.Basic
import LedPattern.Graph.Kind

/-!
# Operations

What a node does: its kind together with parameters that have been checked. `Node.operation`
finds it, or says which parameter is at fault.

Specification of `pgc`, section 4.2: the parameters of each kind, and the errors about them.
-/

namespace LedPattern

/-- The ways of mirroring a strip: end to end, or outwards from its middle. -/
inductive MirrorVariant where
  | fullReversal
  | centerOrigin
deriving DecidableEq, Repr

/-- The name of a way of mirroring. -/
def MirrorVariant.name : MirrorVariant → String
  | .fullReversal => "full_reversal"
  | .centerOrigin => "center_origin"

/-- How a level becomes a color. -/
inductive ColorMap where
  | grayscale
  | tint (r g b : Float32)

/-- When the primary way of a conditional node is taken. -/
inductive Predicate where
  | audioAvailable
  | energyAbove (threshold : Float32)

/-- What a node does. -/
inductive Operation where
  | audioInput (bins : Option Nat)
  | rampShape
  | persistDecay (decay : Float32) (bins : Option Nat)
  | colorize (map : ColorMap)
  | mirror (variant : MirrorVariant)
  | conditionalFallback (predicate : Predicate)
  | pixelOutput

/-- The kind of an operation. -/
def Operation.kind : Operation → NodeKind
  | .audioInput _ => .audioInput
  | .rampShape => .rampShape
  | .persistDecay _ _ => .persistDecay
  | .colorize _ => .colorize
  | .mirror _ => .mirror
  | .conditionalFallback _ => .conditionalFallback
  | .pixelOutput => .pixelOutput

namespace Node

open Diagnostic (Code)

/-- An error at a field of a node. -/
def fieldError (n : Node) (code : Code) (field message : String) : Diagnostic :=
  ((Diagnostic.error code message).atNode n.id).atField field

/-- An error about a parameter. -/
def badParam (n : Node) (field message : String) : Diagnostic :=
  n.fieldError .badParameter field message

/-- A parameter that is a finite number in single precision, if it is given. -/
def finiteParam (n : Node) (field : String) : Except Diagnostic (Option Float32) :=
  match n.param? field with
  | none => .ok none
  | some param =>
    let wrong := n.badParam field
      ("`" ++ field ++ "` must be a finite number, got " ++ param.shown)
    match param with
    | .number x =>
      if Double.isFinite x then
        let single := Double.narrow x
        if Single.isFinite single then .ok (some single)
        else .error (n.badParam field
          ("`" ++ field ++ "` " ++ Double.plainText x ++ " does not fit in an f32"))
      else .error wrong
    | _ => .error wrong

/-- The decay of a persistent node that gives none. -/
def defaultDecay : Float32 := Single.ofDecimal false ⟨92, -2⟩

/-- The decay of a persistent node, a number in the unit interval. -/
def decayParam (n : Node) : Except Diagnostic Float32 :=
  match n.param? "decay_factor" with
  | none => .ok defaultDecay
  | some (.number x) =>
    if 0 ≤ x ∧ x ≤ 1 then .ok (Double.narrow x)
    else .error (n.fieldError .parameterRange "decay_factor"
      ("`decay_factor` " ++ Double.plainText x ++ " is outside [0, 1]"))
  | some param => .error (n.fieldError .parameterRange "decay_factor"
      ("`decay_factor` must be a number in [0, 1], got " ++ param.shown))

/-- The greatest count that a word of the machine holds. -/
def maxCount : Nat := UInt64.size - 1

/-- The number of bins that a node asks for, a positive integer, if it is given. -/
def binsParam (n : Node) : Except Diagnostic (Option Nat) :=
  match n.param? "bins" with
  | none => .ok none
  | some param =>
    let wrong := n.badParam "bins" ("`bins` must be a positive integer, got " ++ param.shown)
    match param with
    | .number x =>
      match Double.toNat? x with
      | some count => if 1 ≤ count then .ok (some (min count maxCount)) else .error wrong
      | none => .error wrong
    | _ => .error wrong

/-- The color map of a node. A tint is white where it gives no share of a color. -/
def colorMapParam (n : Node) : Except Diagnostic ColorMap :=
  let map := match n.param? "map" with
    | none => "grayscale"
    | some param => param.asText?.getD ""
  if map = "grayscale" then .ok .grayscale
  else if map = "tint" then do
    let r ← n.finiteParam "tint_r"
    let g ← n.finiteParam "tint_g"
    let b ← n.finiteParam "tint_b"
    .ok (.tint (r.getD 1) (g.getD 1) (b.getD 1))
  else .error (n.badParam "map"
    ("unknown color map `" ++ map ++ "` (expected `grayscale` or `tint`)"))

/-- The way of mirroring that the name of a kind implies. -/
def variantOfKind? (kind : String) : Option MirrorVariant :=
  if kind = "MirrorReverse" then some .fullReversal
  else if kind = "MirrorCenter" then some .centerOrigin
  else none

/-- The way of mirroring that a parameter names. -/
def variantOfText? (s : String) : Option MirrorVariant :=
  if s = "full_reversal" ∨ s = "reverse" then some .fullReversal
  else if s = "center_origin" ∨ s = "center" then some .centerOrigin
  else none

/-- The way of mirroring that a node's parameter gives, if there is one. -/
def variantParam (n : Node) : Except Diagnostic (Option MirrorVariant) :=
  match n.param? "variant" with
  | none => .ok none
  | some param =>
    match param.asText?.bind variantOfText? with
    | some variant => .ok (some variant)
    | none => .error ((n.fieldError .mirrorVariant "variant"
        ("unknown Mirror variant " ++ param.shown)).withHint
          "use \"full_reversal\" or \"center_origin\"")

/-- The way of mirroring of a node. The kind and the parameter must not disagree, and one of them
must give it. -/
def mirrorVariant (n : Node) : Except Diagnostic MirrorVariant := do
  let given ← n.variantParam
  match variantOfKind? n.kind, given with
  | some k, some p =>
    if k = p then .ok k
    else .error (n.fieldError .mirrorVariant "variant"
      ("kind `" ++ n.kind ++ "` conflicts with variant \"" ++ p.name ++ "\""))
  | some k, none => .ok k
  | none, some p => .ok p
  | none, none => .error ((n.fieldError .mirrorVariant "variant"
      "Mirror must declare its variant").withHint
        ("set \"variant\": \"full_reversal\" or \"center_origin\", or use MirrorReverse / "
          ++ "MirrorCenter"))

/-- The predicate of a conditional node. -/
def predicateParam (n : Node) : Except Diagnostic Predicate :=
  let name := match n.param? "predicate" with
    | none => "audio_available"
    | some param => param.asText?.getD ""
  if name = "audio_available" then .ok .audioAvailable
  else if name = "energy_above" then do
    match ← n.finiteParam "threshold" with
    | some threshold => .ok (.energyAbove threshold)
    | none => .error (n.badParam "threshold"
        "predicate `energy_above` needs a numeric `threshold`")
  else .error (n.badParam "predicate" ("unknown predicate `" ++ name ++
    "` (expected `audio_available` or `energy_above`)"))

/-- What a node of a known kind does. -/
def operationOf (n : Node) : NodeKind → Except Diagnostic Operation
  | .audioInput => do .ok (.audioInput (← n.binsParam))
  | .rampShape => .ok .rampShape
  | .persistDecay => do
    let decay ← n.decayParam
    let bins ← n.binsParam
    .ok (.persistDecay decay bins)
  | .colorize => do .ok (.colorize (← n.colorMapParam))
  | .mirror => do .ok (.mirror (← n.mirrorVariant))
  | .conditionalFallback => do .ok (.conditionalFallback (← n.predicateParam))
  | .pixelOutput => .ok .pixelOutput

/-- What a node does, or what is wrong with its declaration. -/
def operation (n : Node) : Except Diagnostic Operation :=
  match NodeKind.ofName? n.kind with
  | none => .error ((n.fieldError .unknownKind "kind"
      ("unknown node kind `" ++ n.kind ++ "`")).withHint
        ("expected one of: " ++ ", ".intercalate (NodeKind.all.map NodeKind.name)))
  | some kind =>
    if n.hasFallback ∧ kind ≠ .conditionalFallback then
      .error (n.badParam "fallback" "only ConditionalFallback nodes take a `fallback` list")
    else n.operationOf kind

end Node

end LedPattern
