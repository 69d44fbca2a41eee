import LedPattern.Instance.Scope

/-!
# Instances

An instance is a program with storage of its own, in which all names are replaced by addresses. A
slot that has the symbol of a temporary hides it, and slots of one owner share one buffer.
Temporaries are cleared before every frame, and states live on.

Specification of `pgc`, sections 5 and 9: a pattern instance, which owns its states and gets all its
buffers when it is made.
-/

namespace LedPattern

/-- A program that can be run, with its storage. -/
structure Instance where
  program : Program
  code : MachineCode
  temps : Array NamedBuffer
  arena : Arena
  locals : Array Float32

namespace Instance

/-- The bindings of temporaries, the first having number `number`, put in front of others. -/
def bindTemps (bindings : List Binding) (number : Nat) : List Temp → List Binding
  | [] => bindings
  | t :: rest => bindTemps (⟨t.symbol, .temp number, t.elem⟩ :: bindings) (number + 1) rest

/-- The states of some slots, and their bindings put in front of others. -/
def bindSlots (bindings : List Binding) (arena : Arena) : List Slot → List Binding × Arena
  | [] => (bindings, arena)
  | s :: rest =>
    let (arena, number) := arena.ensure s.owner s.len
    bindSlots (⟨s.symbol, .slot number, .float⟩ :: bindings) arena rest

/-- An instance of a program, with all storage zero. -/
def ofProgram (p : Program) : Except Fault Instance := do
  let temps := p.temps.map fun t => NamedBuffer.zeros t.symbol (t.len * t.elem.lanes)
  let (buffers, arena) := bindSlots (bindTemps [] 0 p.temps) #[] p.slots
  let (scope, code) ← Scope.body ⟨buffers, []⟩ p.body
  .ok ⟨p, code, temps.toArray, arena, Array.replicate scope.locals.length 0⟩

/-- The samples of the first temporary with a given symbol, as the last rendering left them. -/
def temp? (x : Instance) (symbol : String) : Option (Array Float32) :=
  (x.temps.find? fun b => b.name = symbol).map NamedBuffer.data

/-- The instance with all states zero. -/
def reset (x : Instance) : Instance := { x with arena := x.arena.reset }

/-- The instance with the storage that a rendering leaves. -/
def withMemory (x : Instance) (m : Memory) : Instance :=
  { x with temps := m.temps, arena := m.arena, locals := m.locals }

/-- The instance, the pixels, and perhaps the fault that a rendering leaves. -/
structure Rendered where
  state : Instance
  pixels : Array Pixel
  fault : Option Fault

/-- Renders a frame onto some pixels. Temporaries start as zero. -/
def render (x : Instance) (f : Frame) (pixels : Array Pixel) : Rendered :=
  if pixels.size = x.program.frameWidth then
    let start : Memory := ⟨x.temps.map NamedBuffer.cleared, x.arena, x.locals, pixels⟩
    match x.code.run f start with
    | .ok m => ⟨x.withMemory m, m.pixels, none⟩
    | .error halt => ⟨x.withMemory halt.memory, halt.memory.pixels, some halt.fault⟩
  else ⟨x, pixels, some (.outputLength x.program.frameWidth pixels.size)⟩

/-- As many dark pixels as an instance renders. -/
def darkPixels (x : Instance) : Array Pixel := Array.replicate x.program.frameWidth Pixel.dark

end Instance

end LedPattern
