import LedPattern.Artifact.Printer
import LedPattern.Pass
import LedPattern.Verification

/-!
# Compilations

A compilation runs the passes that a goal needs, one after another, and stops at the first that
fails. It keeps what the passes leave, all their diagnostics, and whether there is an error.

Specification of `pgc`, sections 2 and 11: the control flow from a description to an artifact that
has been verified, and what becomes of the diagnostics of its phases.
-/

namespace LedPattern

/-- The settings of a compilation. -/
structure Settings where
  print : PrintOptions := {}
  verify : VerifyOptions := {}

/-- The end of a pass, with what it reported. -/
structure Event where
  pass : Pass
  diagnostics : List Diagnostic

/-- The state of a compilation: the description, and what the passes so far have left. -/
structure Compilation where
  source : String
  provenance : Provenance
  graph : Option Graph := none
  program : Option Program := none
  certificate : Option Certificate := none
  artifact : Option Artifact := none
  report : Option Comparison := none
  /-- The diagnostics of all passes that were run. -/
  diagnostics : List Diagnostic := []
  /-- A pass has reported an error. -/
  hasError : Bool := false
  /-- What was announced at the end of each pass, in order. -/
  events : List Event := []

/-- The pass that failed, and why. -/
structure Stop where
  pass : Pass
  failure : Failure

/-- The text of a failure with the pass that it ended. -/
def Stop.text (s : Stop) : String := s.pass.name ++ " failed: " ++ s.failure.text

namespace Compilation

/-- A compilation that has not begun. -/
def start (source : String) : Compilation := { source, provenance := .ofSource source }

/-- The compilation after a pass, and why it stops there, if it does. -/
abbrev Outcome := Compilation × Option Stop

/-- Ends a pass. Its diagnostics are announced and kept. An error among them stops the compilation,
for the reason that `failure` makes of the errors. -/
def finish (c : Compilation) (pass : Pass) (ds : List Diagnostic)
    (failure : List Diagnostic → Failure) : Outcome :=
  let c := { c with events := c.events ++ [⟨pass, ds⟩], diagnostics := c.diagnostics ++ ds }
  if Diagnostic.anyError ds then
    ({ c with hasError := true }, some ⟨pass, failure (Diagnostic.errors ds)⟩)
  else (c, none)

/-- A pass that lacks what it works on. -/
def missing (c : Compilation) (pass : Pass) (what : String) : Outcome :=
  let message := pass.name ++ " ran without its input: " ++ what
  (c, some ⟨pass, .lowering [{ level := .error, message }]⟩)

/-- Reads the description. -/
def load (c : Compilation) : Outcome :=
  let loaded := Graph.load c.source
  finish { c with graph := loaded.value } .load loaded.diagnostics .schema

/-- Makes the program of the graph. -/
def lower (c : Compilation) : Outcome :=
  match c.graph with
  | none => c.missing .lower "graph"
  | some g =>
    let lowered := g.lower
    finish { c with program := lowered.program, certificate := lowered.certificate } .lower
      lowered.diagnostics .lowering

/-- Prints the program. -/
def codegen (c : Compilation) (options : PrintOptions) : Outcome :=
  match c.program with
  | none => c.missing .codegen "LIR"
  | some p =>
    finish { c with artifact := some (p.print c.provenance options) } .codegen [] .lowering

/-- What verification reports about differing pixels. -/
def mismatchDiagnostic (r : Comparison) (first : Mismatch) : Diagnostic :=
  Diagnostic.error .equivalence (natText r.mismatches ++ " of " ++ natText r.pixelsCompared
    ++ " pixels differ; first: " ++ first.text)

/-- What verification reports when it cannot compare. -/
def failureDiagnostic (failure : Failure) : Diagnostic :=
  match failure with
  | .artifact _ => Diagnostic.error .artifactParse failure.text
  | .schema _ | .lowering _ | .equivalence _ | .execution _ =>
    { level := .error, message := failure.text }

/-- Compares the artifact with the graph. -/
def verify (c : Compilation) (options : VerifyOptions) : Outcome :=
  match c.graph, c.artifact with
  | none, _ => c.missing .verify "graph"
  | some _, none => c.missing .verify "artifact"
  | some g, some a =>
    match g.verify a.text options with
    | .ok report =>
      let c := { c with report := some report }
      match report.ensurePassed with
      | .ok () => finish c .verify [] .lowering
      | .error first =>
        finish c .verify [mismatchDiagnostic report first] fun _ => .equivalence first
    | .error failure => finish c .verify [failureDiagnostic failure] fun _ => failure

/-- Runs a pass. -/
def runPass (settings : Settings) (c : Compilation) : Pass → Outcome
  | .load => c.load
  | .lower => c.lower
  | .codegen => c.codegen settings.print
  | .verify => c.verify settings.verify

/-- Runs some passes up to the first that fails. -/
def runPasses (settings : Settings) : List Pass → Compilation → Outcome
  | [], c => (c, none)
  | pass :: rest, c =>
    match c.runPass settings pass with
    | (c, none) => runPasses settings rest c
    | (c, some stop) => (c, some stop)

/-- Compiles a description as far as a pass. -/
def run (source : String) (goal : Pass) (settings : Settings) : Outcome :=
  runPasses settings goal.required (start source)

end Compilation

/-- What a compilation that succeeds yields. -/
structure Compiled where
  graph : Graph
  program : Program
  artifact : Artifact
  provenance : Provenance
  warnings : List Diagnostic

/-- The artifact of a description, with what it was made from. -/
def compile (source : String) (options : PrintOptions) : Except Failure Compiled :=
  match Compilation.run source .codegen { print := options } with
  | (_, some stop) => .error stop.failure
  | (c, none) =>
    match c.graph, c.program, c.artifact with
    | some graph, some program, some artifact =>
      .ok ⟨graph, program, artifact, c.provenance, c.diagnostics⟩
    | _, _, _ => .error (.lowering c.diagnostics)

end LedPattern
