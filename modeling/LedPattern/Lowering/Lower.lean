import LedPattern.Lowering.Kernels

/-!
# Lowering

The way from a graph to its program. A graph whose nodes do not fit together has none. The program
of any other graph is checked before it is handed out.

Specification of `pgc`, section 4.2.
-/

namespace LedPattern

/-- What lowering a graph yields. -/
structure Lowering where
  program : Option Program
  certificate : Option Certificate
  diagnostics : List Diagnostic

namespace Graph

/-- The name of the function that renders a graph. -/
def functionName (g : Graph) : String :=
  let base := match g.name with
    | some name => if name.isEmpty then "graph" else name
    | none => "graph"
  "pattern_" ++ Text.sanitize base ++ "_render"

/-- The program of a graph with a given plan. -/
def programOf (g : Graph) (p : Plan) : Program :=
  let emitted := Kernel.plan g.frameWidth p
  ⟨g.functionName, g.frameWidth, emitted.storage.slots, emitted.storage.temps, emitted.code⟩

/-- The program of a graph with what was reported on the way to it. -/
def lower (g : Graph) : Lowering :=
  match g.plan with
  | ⟨warnings, .error d⟩ => ⟨none, none, warnings ++ [d]⟩
  | ⟨warnings, .ok p⟩ =>
    let program := g.programOf p
    let certificate := program.certificate
    if certificate.allPass then ⟨some program, some certificate, warnings⟩
    else ⟨none, some certificate, warnings ++ [Diagnostic.error .obligation
      ("lowered program failed its obligations: " ++ certificate.shown)]⟩

end Graph

end LedPattern
