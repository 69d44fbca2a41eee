import LedPattern.Instance.Basic

/-!
# Simulators

A simulator is an instance that keeps the pixels it renders onto. They start dark.

Specification of `pgc`, section 4.4: the reference simulator, `ReferenceSimulator`.
-/

namespace LedPattern

/-- An instance with its pixels. -/
structure Simulator where
  state : Instance
  pixels : Array Pixel

namespace Simulator

/-- A simulator of a program, with all storage zero. -/
def ofProgram (p : Program) : Except Fault Simulator := do
  let state ← Instance.ofProgram p
  .ok ⟨state, state.darkPixels⟩

/-- The simulator after a frame, and the fault that ended the rendering, if any. -/
def step (s : Simulator) (f : Frame) : Simulator × Option Fault :=
  let rendered := s.state.render f s.pixels
  (⟨rendered.state, rendered.pixels⟩, rendered.fault)

/-- The simulator after a frame that renders without a fault. -/
def render (s : Simulator) (f : Frame) : Except Fault Simulator :=
  match s.step f with
  | (next, none) => .ok next
  | (_, some fault) => .error fault

/-- The simulator with all states zero. The pixels stay. -/
def reset (s : Simulator) : Simulator := { s with state := s.state.reset }

end Simulator

end LedPattern
