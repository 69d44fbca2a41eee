import LedPattern.Failure
import LedPattern.Graph.Schema
import LedPattern.Lowering.Lower

/-!
# Verification

An artifact is verified against its graph by rendering the same frames with the program read from
the artifact and with the program of the graph, and by comparing all pixels. The report also says
whether the two programs are the same but for names and notes.

Specification of `pgc`, section 4.5: the equivalence verifier, `verify`.
-/

namespace LedPattern

/-- The graph of a description that has no errors. -/
def Graph.ofSource (source : String) : Except Failure Graph :=
  match Graph.load source with
  | ⟨some g, ds⟩ =>
    if Diagnostic.anyError ds then .error (.schema (Diagnostic.errors ds)) else .ok g
  | ⟨none, ds⟩ => .error (.schema (Diagnostic.errors ds))

/-- The program of a graph that has no errors. -/
def Graph.program (g : Graph) : Except Failure Program :=
  match g.lower with
  | ⟨some p, _, ds⟩ =>
    if Diagnostic.anyError ds then .error (.lowering (Diagnostic.errors ds)) else .ok p
  | ⟨none, _, ds⟩ => .error (.lowering (Diagnostic.errors ds))

/-- The program of an artifact's text. -/
def Program.ofArtifact (text : String) : Except Failure Program :=
  (Program.ofText text).mapError .artifact

/-- Which frames a verification renders. -/
structure VerifyOptions where
  frames : UInt32 := 100
  input : SyntheticInput := {}

/-- The outcome of a verification. -/
structure Comparison where
  frames : Nat
  pixelsCompared : Nat := 0
  mismatches : Nat := 0
  /-- The greatest sum of the differences of the three colors of a pixel. -/
  maxDelta : Nat := 0
  firstMismatch : Option Mismatch := none
  sameStructure : Bool

/-- The distance between two bytes. -/
def byteDistance (a b : UInt8) : Nat := (a.toNat - b.toNat) + (b.toNat - a.toNat)

/-- The sum of the distances of the three colors. -/
def Pixel.distance (p q : Pixel) : Nat :=
  byteDistance p.r q.r + byteDistance p.g q.g + byteDistance p.b q.b

namespace Comparison

/-- Whether all pixels agree. -/
def passed (r : Comparison) : Bool := r.mismatches = 0

/-- Success if all pixels agree, or else the first pixel that does not. -/
def ensurePassed (r : Comparison) : Except Mismatch Unit :=
  match r.firstMismatch with
  | some first => if 0 < r.mismatches then .error first else .ok ()
  | none => .ok ()

/-- The report with one more pixel. -/
def add (r : Comparison) (frame pixel : Nat) (emitted reference : Pixel) : Comparison :=
  if emitted = reference then { r with pixelsCompared := r.pixelsCompared + 1 }
  else
    { r with
      pixelsCompared := r.pixelsCompared + 1
      mismatches := r.mismatches + 1
      maxDelta := max r.maxDelta (emitted.distance reference)
      firstMismatch := r.firstMismatch.or (some ⟨frame, pixel, emitted, reference⟩) }

/-- The report with some more pixels of a frame, the first of them being number `pixel`. -/
def addPixels (frame : Nat) : (pixel : Nat) → List (Pixel × Pixel) → Comparison → Comparison
  | _, [], r => r
  | pixel, (emitted, reference) :: rest, r =>
    addPixels frame (pixel + 1) rest (r.add frame pixel emitted reference)

/-- Renders some more frames of an input with two simulators, and adds them to a report. The first
of the frames is number `k`. -/
def addFrames (input : SyntheticInput) :
    (count : Nat) → (k : UInt32) → (emitted reference : Simulator) → Comparison →
      Except Fault Comparison
  | 0, _, _, _, r => .ok r
  | count + 1, k, emitted, reference, r => do
    let frame := input.frame k
    let emitted ← emitted.render frame
    let reference ← reference.render frame
    let pairs := emitted.pixels.toList.zip reference.pixels.toList
    addFrames input count (k + 1) emitted reference (addPixels k.toNat 0 pairs r)

end Comparison

/-- Compares the text of an artifact with the graph that it is for. -/
def Graph.verify (g : Graph) (artifact : String) (options : VerifyOptions) :
    Except Failure Comparison := do
  let lowered ← g.program
  let parsed ← Program.ofArtifact artifact
  if parsed.frameWidth = g.frameWidth then
    Failure.ofFault do
      let emitted ← Simulator.ofProgram parsed
      let reference ← Simulator.ofProgram lowered
      Comparison.addFrames options.input options.frames.toNat 0 emitted reference
        { frames := options.frames.toNat, sameStructure := lowered.sameStructure parsed }
  else .error (.artifact [.widthMismatch parsed.frameWidth g.frameWidth])

end LedPattern
