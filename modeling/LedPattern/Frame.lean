import LedPattern.Kernel.Certificate

/-!
# Frames

What one rendering sees: the time, the audio signal if there is one, and the parameters that the
caller sets. `SyntheticInput` makes the same sequence of frames on every run.

Specification of `pgc`, section 3, *Frame*, and section 14 for the synthetic input.
-/

namespace LedPattern

/-- The audio signal at one moment. The spectrum has `spectrumBins` bins. -/
structure AudioSnapshot where
  spectrum : Array Float32
  energy : Float32

/-- The parameters of a frame. -/
structure FrameParams where
  brightness : Float32 := 1
  softness : Float32 := 0.5
  sensitivity : Float32 := 1

/-- The value of a parameter. -/
def FrameParams.get (p : FrameParams) : ParamField → Float32
  | .brightness => p.brightness
  | .softness => p.softness
  | .sensitivity => p.sensitivity

/-- The input of one rendering. -/
structure Frame where
  time : Float32
  audio : Option AudioSnapshot
  params : FrameParams

/-- Whether a test of the audio signal holds. -/
def Test.holds (f : Frame) : Test → Bool
  | .audioPresent => f.audio.isSome
  | .energyAbove threshold =>
    match f.audio with
    | some audio => threshold < audio.energy
    | none => false

/-- Settings of a sequence of frames that is made up. -/
structure SyntheticInput where
  /-- Every frame whose number is a multiple of this lacks audio, unless this is zero. -/
  dropoutPeriod : UInt32 := 0
  brightness : Float32 := 1
  sensitivity : Float32 := 1
  softness : Float32 := 0.5

namespace SyntheticInput

/-- The level of bin `b` in frame `k`: a triangular wave that moves along the bins. -/
def level (k : UInt32) (b : Nat) : Float32 :=
  let phase := (k.toNat * 7 + b * 13) % 510
  Single.ofNat (if phase < 255 then phase else 510 - phase) / 255

/-- The audio signal of frame `k`. Its energy is the mean of the bins. -/
def snapshot (k : UInt32) : AudioSnapshot :=
  let spectrum := (List.range spectrumBins).map (level k)
  ⟨spectrum.toArray, spectrum.foldl (· + ·) 0 / Single.ofNat spectrumBins⟩

/-- Frame `k` of the sequence, at sixty frames a second. -/
def frame (s : SyntheticInput) (k : UInt32) : Frame :=
  let dropped := 0 < s.dropoutPeriod ∧ (k + 1) % s.dropoutPeriod = 0
  { time := k.toFloat32 / 60
    audio := if dropped then none else some (snapshot k)
    params := ⟨s.brightness, s.softness, s.sensitivity⟩ }

end SyntheticInput

end LedPattern
