import LedPattern.CommandLine.Arguments
import LedPattern.Compilation
import LedPattern.Graph.Dot

/-!
# Responses

What the program answers to a request: what it prints, its exit code, and a file to write. Files
are read through a function, so the answer is a value that depends on their contents alone.

Specification of `pgc`, section 6: what `pgc compile` and `pgc verify` print and write, and their
exit codes.
-/

namespace LedPattern.CommandLine

/-- Why a file cannot be read or written. -/
inductive FileFault where
  | missing
  | unreadable
  | denied
  | notDirectory
  | isDirectory
  | notText
deriving DecidableEq, Repr

/-- The wording of a file's fault. -/
def FileFault.message : FileFault → String
  | .missing => "No such file or directory (os error 2)"
  | .unreadable => "Input/output error (os error 5)"
  | .denied => "Permission denied (os error 13)"
  | .notDirectory => "Not a directory (os error 20)"
  | .isDirectory => "Is a directory (os error 21)"
  | .notText => "stream did not contain valid UTF-8"

/-- The exit codes. -/
inductive Exit where
  | success
  | failure
  | usage
deriving DecidableEq, Repr

/-- The number of an exit code. -/
def Exit.code : Exit → UInt8
  | .success => 0
  | .failure => 1
  | .usage => 2

/-- A file to be written. -/
structure Save where
  path : String
  text : String
deriving DecidableEq, Repr

/-- What the program answers. -/
structure Response where
  exit : Exit
  stdout : String := ""
  stderr : String := ""
  save : Option Save := none
deriving DecidableEq, Repr

/-- A line of the program's own. -/
def line (s : String) : String := "pgc: " ++ s ++ "\n"

namespace Response

/-- The answer when a file cannot be read or written. -/
def fileFault (stderr path : String) (fault : FileFault) : Response :=
  { exit := .usage, stderr := stderr ++ line ("error: " ++ path ++ ": " ++ fault.message) }

/-- The answer that hands out a text, to a file if there is a path. -/
def emit (stderr : String) (output : Option String) (text : String) : Response :=
  match output with
  | some path => { exit := .success, stderr, save := some ⟨path, text⟩ }
  | none => { exit := .success, stdout := text, stderr }

/-- The answer after its file was written, or was not. -/
def afterSave (r : Response) (path : String) (outcome : Except FileFault Unit) : Response :=
  match outcome with
  | .ok () => r
  | .error fault => fileFault r.stderr path fault

end Response

/-- What is printed while passes run. -/
def progress (verbose : Bool) (events : List Event) : String :=
  String.join (events.map fun e =>
    String.join (e.diagnostics.map fun d => line d.text)
      ++ if verbose then line (e.pass.name ++ " complete") else "")

/-- How far a compilation has to go for a result. -/
def Emit.goal : Emit → Pass
  | .drawing => .load
  | .listing => .lower
  | .cpp | .buildInfo | .header => .codegen

/-- The text of a result, if the compilation has come that far. -/
def Emit.text? (emit : Emit) (profile : Profile) (c : Compilation) : Option String :=
  match emit with
  | .drawing => c.graph.map Graph.dot
  | .listing => c.program.map Program.listing
  | .buildInfo => some (c.provenance.document profile)
  | .cpp => c.artifact.map Artifact.text
  | .header => none

/-- The answer to a request to compile a description. -/
def CompileRequest.respond (r : CompileRequest) (source : String) : Response :=
  let settings : Settings := { print := ⟨r.source.profile, r.functionName⟩ }
  let (c, stop) := Compilation.run source r.emit.goal settings
  let stderr := progress r.source.verbose c.events
  match stop with
  | some stop =>
    let count := natText stop.failure.diagnostics.length
    { exit := .failure,
      stderr := stderr ++ line (stop.pass.name ++ " failed with " ++ count ++ " error(s)") }
  | none =>
    match r.emit.text? r.source.profile c with
    | some text => Response.emit stderr r.output text
    | none => { exit := .failure, stderr := stderr ++ line "nothing to emit" }

/-- The line that sums up a comparison. -/
def reportLine (r : Comparison) : String :=
  line (natText r.frames ++ " frames, " ++ natText r.pixelsCompared ++ " pixels compared, "
    ++ natText r.mismatches ++ " mismatches, max delta " ++ natText r.maxDelta
    ++ if r.sameStructure then "" else " (structure differs)")

/-- The verdict on an artifact that passes. -/
def passLine : String := line "PASS"

/-- The verdict on what fails at a stage. -/
def failLine (stage : String) : String := line ("FAIL (" ++ stage ++ ")")

/-- The frames that a request to verify asks for. -/
def VerifyRequest.options (r : VerifyRequest) : VerifyOptions :=
  ⟨r.frames, { dropoutPeriod := r.dropoutPeriod, brightness := r.brightness }⟩

/-- The answer to a request to verify a description's own artifact. -/
def VerifyRequest.respond (r : VerifyRequest) (source : String) : Response :=
  let settings : Settings := { print := ⟨r.source.profile, none⟩, verify := r.options }
  let (c, stop) := Compilation.run source .verify settings
  let stderr := progress r.source.verbose c.events
  let report := match c.report with
    | some report => reportLine report
    | none => ""
  match stop with
  | none => { exit := .success, stdout := report ++ passLine, stderr }
  | some stop => { exit := .failure, stdout := report ++ failLine stop.pass.name, stderr }

/-- The answer to a request to verify a given artifact. -/
def VerifyRequest.respondTo (r : VerifyRequest) (source artifact : String) : Response :=
  let (c, stop) := Compilation.run source .lower {}
  let stderr := progress r.source.verbose c.events
  match stop, c.graph with
  | some _, _ => { exit := .failure, stdout := failLine "graph", stderr }
  | none, none => { exit := .failure, stderr }
  | none, some g =>
    match g.verify artifact r.options with
    | .ok report =>
      match report.ensurePassed with
      | .ok () => { exit := .success, stdout := reportLine report ++ passLine, stderr }
      | .error first =>
        { exit := .failure, stdout := reportLine report ++ failLine "verify",
          stderr := stderr ++ line ("first mismatch: " ++ first.text) }
    | .error failure =>
      { exit := .failure, stdout := failLine "verify",
        stderr := stderr ++ line ("error: " ++ failure.text) }

/-- How the program is used. -/
def usageText : String :=
  "Usage: pgc compile --input <PATH> [--profile firmware|host] [--verbose] [--output <PATH>]\n"
    ++ "         [--emit cpp|lir|dot|build-info|runtime-header] [--function-name <NAME>]\n"
    ++ "       pgc verify --input <PATH> [--profile firmware|host] [--verbose] [--frames <N>]\n"
    ++ "         [--dropout-period <K>] [--brightness <X>] [--artifact <PATH>]\n"
    ++ "       pgc --version\n"

/-- The answer to words that make no request. -/
def Response.usage : Response := { exit := .usage, stderr := usageText }

/-- The answer to a request, given a way to read files. -/
def Request.respond {m : Type → Type} [Monad m] (read : String → m (Except FileFault String)) :
    Request → m Response
  | .version => pure { exit := .success, stdout := "pgc " ++ Provenance.compilerVersion ++ "\n" }
  | .help => pure { exit := .success, stdout := usageText }
  | .compile r => do
    if r.emit = .header then
      return Response.emit "" r.output Artifact.headerText
    match ← read r.source.input with
    | .error fault => return Response.fileFault "" r.source.input fault
    | .ok source => return r.respond source
  | .verify r => do
    match ← read r.source.input with
    | .error fault => return Response.fileFault "" r.source.input fault
    | .ok source =>
      match r.artifact with
      | none => return r.respond source
      | some path =>
        match ← read path with
        | .error fault => return Response.fileFault "" path fault
        | .ok artifact => return r.respondTo source artifact

end LedPattern.CommandLine
