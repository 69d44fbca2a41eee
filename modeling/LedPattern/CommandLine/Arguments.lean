import LedPattern.Number.Spelling
import LedPattern.Provenance

/-!
# Arguments

The words after the program's name, read as a request. An option has a long name after two
hyphens, and some have a letter after one. A value follows as a word of its own that does not
start with a hyphen, after an equals sign, or directly after the letter. No option may be given
twice, and `--` ends the options.

Specification of `pgc`, section 6: the options of `pgc compile` and `pgc verify`.
-/

namespace LedPattern.CommandLine

/-- An option of a command. -/
structure OptionSpec where
  long : String
  short : Option Char := none
  takesValue : Bool := true

/-- An option as it was given. The value of an option that takes none is empty. -/
structure Setting where
  long : String
  value : String

/-- How a word reads. -/
inductive Word where
  /-- The end of the options. -/
  | terminator
  /-- A long option and what follows the equals sign. -/
  | long (name : String) (attached : Option String)
  /-- A letter and what follows it. -/
  | short (letter : Char) (attached : Option String)
  /-- Anything else. -/
  | plain

namespace Word

/-- A name and what follows the first equals sign. -/
def splitAtEquals (cs : List Char) : String × Option String :=
  let name := String.ofList (cs.takeWhile (· ≠ '='))
  match cs.dropWhile (· ≠ '=') with
  | [] => (name, none)
  | _ :: value => (name, some (String.ofList value))

/-- What follows an option's letter. An equals sign may stand between the two. -/
def attachedToLetter : List Char → Option String
  | [] => none
  | '=' :: cs => some (String.ofList cs)
  | cs => some (String.ofList cs)

/-- How a word reads. A single hyphen is no option. -/
def ofText (s : String) : Word :=
  match s.toList with
  | ['-', '-'] => .terminator
  | '-' :: '-' :: cs =>
    let (name, attached) := splitAtEquals cs
    .long name attached
  | '-' :: letter :: cs => .short letter (attachedToLetter cs)
  | _ => .plain

/-- The option that a word names, with the value attached to it. -/
def option? (specs : List OptionSpec) : Word → Option (OptionSpec × Option String)
  | .long name attached => (specs.find? fun o => o.long = name).map fun o => (o, attached)
  | .short letter attached =>
    (specs.find? fun o => o.short = some letter).map fun o => (o, attached)
  | .terminator | .plain => none

/-- Whether a word can be the value of the option before it. -/
def isValue : Word → Bool
  | .plain => true
  | .terminator | .long _ _ | .short _ _ => false

end Word

/-- The options among some words, if these are all options. -/
def readOptions (specs : List OptionSpec) : List String → Option (List Setting)
  | [] => some []
  | word :: rest =>
    match Word.ofText word with
    | .terminator => if rest.isEmpty then some [] else none
    | word =>
      match word.option? specs with
      | none => none
      | some (o, some value) =>
        if o.takesValue then (readOptions specs rest).map (⟨o.long, value⟩ :: ·) else none
      | some (o, none) =>
        if o.takesValue then
          match rest with
          | [] => none
          | value :: rest =>
            if (Word.ofText value).isValue then
              (readOptions specs rest).map (⟨o.long, value⟩ :: ·)
            else none
        else (readOptions specs rest).map (⟨o.long, ""⟩ :: ·)

/-- Whether an option was given. -/
def isGiven (settings : List Setting) (long : String) : Bool :=
  settings.any fun s => s.long = long

/-- The value of an option. -/
def value? (settings : List Setting) (long : String) : Option String :=
  (settings.find? fun s => s.long = long).map Setting.value

/-- The value of an option read by `read`, or a default if the option is not given. There is no
result for a value that cannot be read. -/
def valueOr {α : Type} (settings : List Setting) (long : String) (read : String → Option α)
    (default : α) : Option α :=
  match value? settings long with
  | none => some default
  | some s => read s

/-- A path is a text that is not empty. -/
def path? (s : String) : Option String := if s.isEmpty then none else some s

/-- What a compilation is to yield. -/
inductive Emit where
  | cpp
  | listing
  | drawing
  | buildInfo
  | header
deriving DecidableEq, Repr

namespace Emit

/-- The results in order. -/
def all : List Emit := [.cpp, .listing, .drawing, .buildInfo, .header]

/-- The name of a result. -/
def name : Emit → String
  | .cpp => "cpp"
  | .listing => "lir"
  | .drawing => "dot"
  | .buildInfo => "build-info"
  | .header => "runtime-header"

/-- The result with a given name. -/
def ofName? (s : String) : Option Emit := all.find? fun e => e.name = s

end Emit

/-- What all commands take. -/
structure Source where
  input : String
  profile : Profile
  verbose : Bool
deriving DecidableEq, Repr

/-- What compiling takes. -/
structure CompileRequest where
  source : Source
  output : Option String
  emit : Emit
  functionName : Option String
deriving DecidableEq, Repr

/-- What verifying takes. -/
structure VerifyRequest where
  source : Source
  frames : UInt32
  dropoutPeriod : UInt32
  brightness : Float32
  artifact : Option String

/-- What the words ask for. -/
inductive Request where
  | compile (request : CompileRequest)
  | verify (request : VerifyRequest)
  | help
  | version

/-- The options of all commands. -/
def sourceOptions : List OptionSpec :=
  [{ long := "input", short := some 'i' }, { long := "profile" },
    { long := "verbose", takesValue := false }]

/-- The options of compiling. -/
def compileOptions : List OptionSpec :=
  sourceOptions ++ [{ long := "output", short := some 'o' }, { long := "emit" },
    { long := "function-name" }]

/-- The options of verifying. -/
def verifyOptions : List OptionSpec :=
  sourceOptions ++ [{ long := "frames" }, { long := "dropout-period" }, { long := "brightness" },
    { long := "artifact" }]

/-- The options among some words, none of them twice. -/
def uniqueOptions (specs : List OptionSpec) (words : List String) : Option (List Setting) := do
  let settings ← readOptions specs words
  if (settings.map Setting.long).Nodup then some settings else none

/-- What the settings of any command say. -/
def readSource (settings : List Setting) : Option Source := do
  let input ← value? settings "input"
  let input ← path? input
  let profile ← valueOr settings "profile" Profile.ofName? .firmware
  some ⟨input, profile, isGiven settings "verbose"⟩

/-- A request to compile. -/
def readCompile (words : List String) : Option CompileRequest := do
  let settings ← uniqueOptions compileOptions words
  let source ← readSource settings
  let output ← valueOr settings "output" (fun s => (path? s).map some) none
  let emit ← valueOr settings "emit" Emit.ofName? .cpp
  some ⟨source, output, emit, value? settings "function-name"⟩

/-- A request to verify. -/
def readVerify (words : List String) : Option VerifyRequest := do
  let settings ← uniqueOptions verifyOptions words
  let source ← readSource settings
  let frames ← valueOr settings "frames" Spelling.word32? 100
  let dropoutPeriod ← valueOr settings "dropout-period" Spelling.word32? 0
  let brightness ← valueOr settings "brightness" Spelling.single? 1
  let artifact ← valueOr settings "artifact" (fun s => (path? s).map some) none
  some ⟨source, frames, dropoutPeriod, brightness, artifact⟩

/-- The request that some words make, if they make one. -/
def Request.ofWords? : List String → Option Request
  | [] => none
  | word :: rest =>
    if word = "compile" then (readCompile rest).map .compile
    else if word = "verify" then (readVerify rest).map .verify
    else if word = "help" then some .help
    else match Word.ofText word with
      | .short 'V' _ => some .version
      | .long "version" none => some .version
      | .short 'h' _ => some .help
      | .long "help" none => some .help
      | _ => none

end LedPattern.CommandLine
