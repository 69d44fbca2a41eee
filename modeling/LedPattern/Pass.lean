/-!
# Passes

The four steps of a compilation. Each one needs the steps before it, and leaves some products.

Specification of `pgc`, sections 2 and 10: the passes and the way from one to the next.
-/

namespace LedPattern

/-- The steps of a compilation. -/
inductive Pass where
  | load
  | lower
  | codegen
  | verify
deriving DecidableEq, Repr

/-- What a step leaves behind. -/
inductive Product where
  | graph
  | program
  | certificate
  | artifact
  | report
deriving DecidableEq, Repr

namespace Pass

/-- The steps in order. -/
def all : List Pass := [.load, .lower, .codegen, .verify]

/-- The name of a step. -/
def name : Pass → String
  | .load => "load"
  | .lower => "lower"
  | .codegen => "codegen"
  | .verify => "verify"

/-- The step with a given name. -/
def ofName? (s : String) : Option Pass := all.find? fun p => p.name = s

/-- The steps that come directly before a step. -/
def inputs : Pass → List Pass
  | .load => []
  | .lower => [.load]
  | .codegen => [.lower]
  | .verify => [.codegen]

/-- What a step leaves behind. -/
def outputs : Pass → List Product
  | .load => [.graph]
  | .lower => [.program, .certificate]
  | .codegen => [.artifact]
  | .verify => [.report]

/-- What holds after a step. -/
def invariants : Pass → String
  | .load => "frame_width positive, ids unique, params scalar"
  | .lower => "every kernel in bounds, one writer per state slot"
  | .codegen => "deterministic C++ text"
  | .verify => "artifact re-parses; zero pixel mismatches"

/-- The steps that come directly before a step stand before it in the order. -/
theorem idxOf_lt_of_mem_inputs {pass input : Pass} (h : input ∈ pass.inputs) :
    all.idxOf input < all.idxOf pass := by
  cases pass <;> cases input <;> revert h <;> decide

/-- A walk through the steps: those that it has come to, and those that it has left, in order. -/
structure Walk where
  visited : List Pass := []
  order : List Pass := []

/-- Comes to a step, unless the walk has been there. The step is left after those that come directly
before it. -/
def visit (w : Walk) (pass : Pass) : Walk :=
  if pass ∈ w.visited then w
  else
    let w := pass.inputs.attach.foldl (fun w input => visit w input.1)
      { w with visited := pass :: w.visited }
    { w with order := w.order ++ [pass] }
termination_by all.idxOf pass
decreasing_by exact idxOf_lt_of_mem_inputs input.2

/-- The steps that a step needs, and the step itself at the end, in the order in which they are
run. -/
def required (pass : Pass) : List Pass := (visit {} pass).order

/-- What a walk does at a step where it has not been. -/
theorem visit_eq {w : Walk} {pass : Pass} (h : pass ∉ w.visited) :
    visit w pass =
      let w := pass.inputs.foldl visit { w with visited := pass :: w.visited }
      { w with order := w.order ++ [pass] } := by
  rw [visit, if_neg h, List.foldl_subtype (g := visit) (by intros; rfl), List.unattach_attach]

/-- A step needs all steps that stand before it in the order. -/
theorem required_eq (pass : Pass) : pass.required = all.take (all.idxOf pass + 1) := by
  cases pass <;> simp [required, visit_eq, inputs] <;> rfl

end Pass

end LedPattern
