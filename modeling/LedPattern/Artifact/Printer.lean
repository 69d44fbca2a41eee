import LedPattern.Kernel.Certificate
import LedPattern.Kernel.Listing
import LedPattern.Provenance
import LedPattern.Text.Identifier

/-!
# Printing artifacts

An artifact is the C++ text of a program: comments that say where it comes from, includes, one
array for each slot, and one function that declares the temporaries and runs the kernels. It
includes a header that declares the types of the function's parameters.

Expressions carry only the parentheses that their trees need. Operators group to the left, so a
right operand of the same strength is put in parentheses and a left one is not.

Specification of `pgc`, section 4.3: the code emitter, `codegen`, and its `runtime_header`.
-/

namespace LedPattern

/-- How a program is printed. -/
structure PrintOptions where
  profile : Profile := .firmware
  /-- A name for the function in place of the program's own. -/
  functionName : Option String := none

/-- The text of an artifact and the name of its function. -/
structure Artifact where
  text : String
  function : String
deriving DecidableEq, Repr

namespace Artifact

/-- A constant: the shortest decimal that reads back, marked as single precision. -/
def literalText (x : Float32) : String := Single.text x ++ "f"

/-- An expression between parentheses, if these are needed. -/
def grouped (needed : Bool) (s : String) : String := if needed then "(" ++ s ++ ")" else s

/-- The text of an expression. -/
def exprText : Expr Place String → String
  | .const v => literalText v
  | .counter => "(float)i"
  | .load place => place.text
  | .ref name => name
  | .param field => "params." ++ field.name
  | .spectrum index => "audio->spectrum[" ++ index.text ++ "]"
  | .energy => "audio->energy"
  | .binary op a b =>
    grouped (a.precedence < op.precedence) (exprText a) ++ " " ++ op.symbol ++ " "
      ++ grouped (b.precedence ≤ op.precedence) (exprText b)
  | .clamp01 x => "clamp_val(" ++ exprText x ++ ", 0.0f, 1.0f)"
  | .floor x => "std::floor(" ++ exprText x ++ ")"

/-- The text of an instruction. What is stored to a pixel is converted to a byte. -/
def instrText : Instr Place String → String
  | .bind name value => "const float " ++ name ++ " = " ++ exprText value ++ ";"
  | .store place value =>
    match place.target with
    | .out => place.text ++ " = (uint8_t)(" ++ exprText value ++ ");"
    | .buffer _ => place.text ++ " = " ++ exprText value ++ ";"

/-- The text of a test. -/
def testText : Test → String
  | .audioPresent => "audio != nullptr"
  | .energyAbove threshold => "audio != nullptr && audio->energy > " ++ literalText threshold

/-- A line at a depth of four blanks a step. -/
def line (depth : Nat) (s : String) : String :=
  String.ofList (List.replicate (4 * depth) ' ') ++ s ++ "\n"

/-- A note on one line. -/
def noteText (s : String) : String :=
  "// " ++ String.ofList (s.toList.map fun c => if c = '\n' ∨ c = '\r' then ' ' else c)

/-- The lines of a sequence of statements. -/
def bodyText (depth : Nat) : Body → String
  | .done => ""
  | .note text rest => line depth (noteText text) ++ bodyText depth rest
  | .loop count body rest =>
    line depth ("for (int i = 0; i < " ++ natText count ++ "; ++i) \x7b")
      ++ String.join (body.map fun instr => line (depth + 1) (instrText instr))
      ++ line depth "\x7d" ++ bodyText depth rest
  | .branch test yes no rest =>
    line depth ("if (" ++ testText test ++ ") \x7b") ++ bodyText (depth + 1) yes
      ++ line depth "\x7d else \x7b" ++ bodyText (depth + 1) no
      ++ line depth "\x7d" ++ bodyText depth rest

/-- The comments and includes of an artifact. -/
def preamble (provenance : Provenance) (profile : Profile) : String :=
  let header := match profile with
    | .firmware => "#include \"esp_attr.h\""
    | .host => "#include <cmath>"
  line 0 ("// Generated by pgc " ++ provenance.version ++ ". Do not edit.")
    ++ line 0 ("// graph-sha256: " ++ Provenance.hex provenance.sourceDigest)
    ++ line 0 ("// profile: " ++ profile.name)
    ++ line 0 "// Float expressions are evaluation-ordered; build with -ffp-contract=off."
    ++ line 0 "" ++ line 0 header ++ line 0 "#include \"pgc_runtime.h\"" ++ line 0 ""

/-- The declaration of a slot. -/
def slotText (s : Slot) : String :=
  line 0 ("static float " ++ s.symbol ++ "[" ++ natText s.len ++ "] = \x7b\x7d;")

/-- The name of an element's type. -/
def elemText : Elem → String
  | .float => "float"
  | .rgb => "CRGBF"

/-- The declaration of a temporary. -/
def tempText (t : Temp) : String :=
  line 1 (elemText t.elem ++ " " ++ t.symbol ++ "[" ++ natText t.len ++ "] = \x7b\x7d;")

/-- The first line of the function. -/
def signature (profile : Profile) (function : String) : String :=
  let placement := match profile with
    | .firmware => " IRAM_ATTR"
    | .host => ""
  line 0 ("extern \"C\" void" ++ placement ++ " " ++ function
    ++ "(float time, const AudioSnapshot* audio, const PatternParameters& params, CRGB8* out) \x7b")

/-- Lines and an empty line after them, if there are any. -/
def paragraph (lines : List String) : String :=
  if lines.isEmpty then "" else String.join lines ++ line 0 ""

end Artifact

/-- The artifact of a program. -/
def Program.print (p : Program) (provenance : Provenance) (options : PrintOptions) : Artifact :=
  let function := match options.functionName with
    | some name => Text.identifierOf name
    | none => p.function
  let text := Artifact.preamble provenance options.profile
    ++ Artifact.paragraph (p.slots.map Artifact.slotText)
    ++ Artifact.signature options.profile function
    ++ Artifact.paragraph (p.temps.map Artifact.tempText)
    ++ Artifact.bodyText 1 p.body ++ Artifact.line 0 "\x7d"
  ⟨text, function⟩

namespace Artifact

/-- The declaration of a record type with its members. -/
def recordText (name : String) (members : List String) : String :=
  line 0 ("struct " ++ name ++ " \x7b") ++ String.join (members.map fun m => line 1 (m ++ ";"))
    ++ line 0 "\x7d;"

/-- The header that every artifact includes. -/
def headerText : String :=
  line 0 "// pgc_runtime.h: ABI of pgc-generated render procedures."
    ++ line 0 "#pragma once" ++ line 0 ""
    ++ line 0 "#include <cmath>" ++ line 0 "#include <cstdint>" ++ line 0 ""
    ++ recordText "CRGBF" ["float r", "float g", "float b"] ++ line 0 ""
    ++ recordText "CRGB8" ["uint8_t r", "uint8_t g", "uint8_t b"] ++ line 0 ""
    ++ recordText "AudioSnapshot"
      ["float spectrum[" ++ natText spectrumBins ++ "]", "float energy"] ++ line 0 ""
    ++ recordText "PatternParameters"
      ["float brightness", "float softness", "float sensitivity"] ++ line 0 ""
    ++ line 0 "static inline float clamp_val(float x, float lo, float hi) \x7b"
    ++ line 1 "return x < lo ? lo : (x > hi ? hi : x);" ++ line 0 "\x7d"

end Artifact

end LedPattern
