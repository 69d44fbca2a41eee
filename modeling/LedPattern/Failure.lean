import LedPattern.Artifact.Parser
import LedPattern.Diagnostic
import LedPattern.Instance.Simulator

/-!
# Failures

Why a compilation or a verification ends without its result: the graph's description or the graph
is in error, an artifact is not in the language, a program faults, or two programs render
different pixels.

Specification of `pgc`, section 7: the classes of errors.
-/

namespace LedPattern

/-- A pixel that an artifact and its graph render differently. -/
structure Mismatch where
  frame : Nat
  pixel : Nat
  emitted : Pixel
  reference : Pixel
deriving DecidableEq, Repr

/-- The bytes of a pixel as messages show them. -/
def Pixel.shown (p : Pixel) : String :=
  "[" ++ natText p.r.toNat ++ ", " ++ natText p.g.toNat ++ ", " ++ natText p.b.toNat ++ "]"

/-- The text of a mismatch. -/
def Mismatch.text (m : Mismatch) : String :=
  "frame " ++ natText m.frame ++ ", pixel " ++ natText m.pixel ++ ": emitted " ++ m.emitted.shown
    ++ ", reference " ++ m.reference.shown

/-- The reason why there is no result. -/
inductive Failure where
  /-- The description is not that of a graph. -/
  | schema (diagnostics : List Diagnostic)
  /-- The graph has no program. -/
  | lowering (diagnostics : List Diagnostic)
  /-- An artifact and its graph differ. -/
  | equivalence (first : Mismatch)
  /-- A text is no artifact, or not one for the graph. -/
  | artifact (faults : List ArtifactFault)
  /-- A program cannot be run to its end. -/
  | execution (fault : Fault)

namespace Failure

/-- The diagnostics that a failure carries. -/
def diagnostics : Failure → List Diagnostic
  | .schema ds | .lowering ds => ds
  | .equivalence _ | .artifact _ | .execution _ => []

/-- A title with diagnostics below it. -/
def listed (title : String) (ds : List Diagnostic) : String :=
  title ++ "\n" ++ "\n".intercalate (ds.map fun d => "  " ++ d.text)

/-- The text of a failure. -/
def text : Failure → String
  | .schema ds => listed "invalid graph description:" ds
  | .lowering ds => listed "graph cannot be lowered:" ds
  | .equivalence first => first.text
  | .artifact faults =>
    "artifact does not parse:\n  " ++ "\n  ".intercalate (faults.map ArtifactFault.message)
  | .execution fault => "execution fault: " ++ fault.message

/-- A result that may be a fault as one that may be a failure. -/
def ofFault {α : Type} (x : Except Fault α) : Except Failure α := x.mapError .execution

end Failure

end LedPattern
