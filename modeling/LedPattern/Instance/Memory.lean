import LedPattern.Frame
import LedPattern.Instance.Arena
import LedPattern.Kernel.Listing

/-!
# Memory

The storage of one instance of a program, and the rendering of code whose places are addresses.
Every access is checked against the storage. A fault ends the rendering, and what was written
before it stays.

Specification of `pgc`, sections 4.4 and 7: how code is interpreted, and the faults at run time.
-/

namespace LedPattern

/-- The three bytes of a pixel. -/
structure Pixel where
  r : UInt8
  g : UInt8
  b : UInt8
deriving DecidableEq, Repr

namespace Pixel

/-- A pixel that is dark. -/
def dark : Pixel := ⟨0, 0, 0⟩

/-- One color of a pixel. -/
def get (p : Pixel) : Channel → UInt8
  | .r => p.r
  | .g => p.g
  | .b => p.b

/-- The pixel with one color changed. -/
def set (p : Pixel) (value : UInt8) : Channel → Pixel
  | .r => { p with r := value }
  | .g => { p with g := value }
  | .b => { p with b := value }

end Pixel

/-- Why a program cannot be run, or why a rendering ended early. -/
inductive Fault where
  | outOfBounds (buffer : String) (index len : Nat)
  | negativeIndex (index : Index) (i : Nat)
  | unknownBuffer (symbol : String)
  | unknownLocal (name : String)
  | badPlace (place : Place)
  | audioMissing
  | outputLength (expected got : Nat)
  /-- An address points outside the storage. No instance of a program holds such an address. -/
  | strayAddress
deriving DecidableEq, Repr

/-- The wording of a fault. -/
def Fault.message : Fault → String
  | .outOfBounds buffer index len => "index " ++ natText index ++ " out of bounds for `" ++ buffer
      ++ "` (len " ++ natText len ++ ")"
  | .negativeIndex index i => "index `" ++ index.text ++ "` is negative at i = " ++ natText i
  | .unknownBuffer symbol => "unknown buffer `" ++ symbol ++ "`"
  | .unknownLocal name => "local `" ++ name ++ "` is read but never bound"
  | .badPlace place => "`" ++ place.text ++ "` does not match the element type of its buffer"
  | .audioMissing => "audio snapshot read while no audio is present"
  | .outputLength expected got => "output holds " ++ natText got ++ " pixels, program renders "
      ++ natText expected
  | .strayAddress => "address outside the storage"

/-- Where a sample is kept: in a temporary, in a state, or in the pixels. -/
inductive Region where
  | temp (number lanes lane : Nat)
  | slot (number : Nat)
  | pixel (channel : Channel)
deriving DecidableEq, Repr

/-- A place with its buffer known by number. -/
structure Address where
  region : Region
  index : Index
deriving DecidableEq, Repr

/-- Code in which places are addresses and locals are numbers. -/
abbrev MachineCode := Block Address Nat

/-- The storage of an instance while it renders. -/
structure Memory where
  temps : Array NamedBuffer
  arena : Arena
  locals : Array Float32
  pixels : Array Pixel

namespace Memory

/-- The name and the number of elements of a region. -/
def extent (m : Memory) : Region → Except Fault (String × Nat)
  | .temp number lanes _ =>
    match m.temps[number]? with
    | some b => .ok (b.name, b.data.size / lanes)
    | none => .error .strayAddress
  | .slot number =>
    match m.arena[number]? with
    | some b => .ok (b.name, b.data.size)
    | none => .error .strayAddress
  | .pixel _ => .ok ("out", m.pixels.size)

/-- The element that an address means when the counter is `i`, if it exists. -/
def element (m : Memory) (a : Address) (i : Nat) : Except Fault Nat := do
  match a.index.resolve i with
  | none => .error (.negativeIndex a.index i)
  | some j =>
    let (name, len) ← m.extent a.region
    if j < len then .ok j else .error (.outOfBounds name j len)

/-- Element `j` of a region. -/
def get (m : Memory) (region : Region) (j : Nat) : Except Fault Float32 :=
  let sample := match region with
    | .temp number lanes lane => m.temps[number]?.bind fun b => b.data[j * lanes + lane]?
    | .slot number => m.arena[number]?.bind fun b => b.data[j]?
    | .pixel channel => m.pixels[j]?.map fun p => (p.get channel).toFloat32
  match sample with
  | some x => .ok x
  | none => .error .strayAddress

/-- Some buffers with one sample changed. -/
def setSample (bs : Array NamedBuffer) (number at' : Nat) (value : Float32) : Array NamedBuffer :=
  bs.modify number fun b => { b with data := b.data.setIfInBounds at' value }

/-- Whether some buffers have a sample. -/
def hasSample (bs : Array NamedBuffer) (number at' : Nat) : Bool :=
  match bs[number]? with
  | some b => at' < b.data.size
  | none => false

end Memory

/-- A fault together with the memory that it leaves. -/
structure Halt where
  fault : Fault
  memory : Memory

namespace Memory

/-- The memory with element `j` of a region changed. A pixel's color is the value without its
fraction, and at the nearest end of the range of a byte if it is outside. -/
def set (m : Memory) (region : Region) (j : Nat) (value : Float32) : Except Halt Memory :=
  match region with
  | .temp number lanes lane =>
    if hasSample m.temps number (j * lanes + lane) then
      .ok { m with temps := setSample m.temps number (j * lanes + lane) value }
    else .error ⟨.strayAddress, m⟩
  | .slot number =>
    if hasSample m.arena number j then
      .ok { m with arena := setSample m.arena number j value }
    else .error ⟨.strayAddress, m⟩
  | .pixel channel =>
    if j < m.pixels.size then
      .ok { m with pixels := m.pixels.modify j fun p => p.set value.toUInt8 channel }
    else .error ⟨.strayAddress, m⟩

/-- The value at an address when the counter is `i`. -/
def read (m : Memory) (a : Address) (i : Nat) : Except Fault Float32 := do
  let j ← m.element a i
  m.get a.region j

/-- The memory with another value at an address when the counter is `i`. -/
def write (m : Memory) (a : Address) (i : Nat) (value : Float32) : Except Halt Memory :=
  match m.element a i with
  | .ok j => m.set a.region j value
  | .error fault => .error ⟨fault, m⟩

/-- The value of a local. -/
def getLocal (m : Memory) (number : Nat) : Except Fault Float32 :=
  match m.locals[number]? with
  | some x => .ok x
  | none => .error .strayAddress

/-- The memory with another value for a local. -/
def setLocal (m : Memory) (number : Nat) (value : Float32) : Except Halt Memory :=
  if number < m.locals.size then
    .ok { m with locals := m.locals.setIfInBounds number value }
  else .error ⟨.strayAddress, m⟩

end Memory

/-- Bin `index` of the spectrum when the counter is `i`. -/
def Frame.bin (f : Frame) (index : Index) (i : Nat) : Except Fault Float32 :=
  match f.audio with
  | none => .error .audioMissing
  | some audio =>
    match index.resolve i with
    | none => .error (.negativeIndex index i)
    | some j =>
      match audio.spectrum[j]? with
      | some level => .ok level
      | none => .error (.outOfBounds "audio->spectrum" j audio.spectrum.size)

/-- The value of an expression when the counter is `i`. -/
def Expr.eval (f : Frame) (m : Memory) (i : Nat) : Expr Address Nat → Except Fault Float32
  | .const v => .ok v
  | .counter => .ok (Single.ofNat i)
  | .load a => m.read a i
  | .ref number => m.getLocal number
  | .param field => .ok (f.params.get field)
  | .spectrum index => f.bin index i
  | .energy =>
    match f.audio with
    | some audio => .ok audio.energy
    | none => .error .audioMissing
  | .binary op a b => do
    let x ← a.eval f m i
    let y ← b.eval f m i
    .ok (op.apply x y)
  | .clamp01 x => do .ok (Single.clamp01 (← x.eval f m i))
  | .floor x => do .ok (Single.floor (← x.eval f m i))

/-- Runs an instruction when the counter is `i`. The value is found before anything changes. -/
def Instr.run (f : Frame) (i : Nat) (m : Memory) : Instr Address Nat → Except Halt Memory
  | .bind number value =>
    match value.eval f m i with
    | .ok x => m.setLocal number x
    | .error fault => .error ⟨fault, m⟩
  | .store a value =>
    match value.eval f m i with
    | .ok x => m.write a i x
    | .error fault => .error ⟨fault, m⟩

/-- Runs the body of a loop when the counter is `i`. -/
def runBody (f : Frame) (i : Nat) : List (Instr Address Nat) → Memory → Except Halt Memory
  | [], m => .ok m
  | first :: rest, m =>
    match first.run f i m with
    | .ok m => runBody f i rest m
    | .error halt => .error halt

/-- Runs the body of a loop for a number of values of the counter, the first being `i`. -/
def runLoop (f : Frame) (body : List (Instr Address Nat)) :
    (rounds i : Nat) → Memory → Except Halt Memory
  | 0, _, m => .ok m
  | rounds + 1, i, m =>
    match runBody f i body m with
    | .ok m => runLoop f body rounds (i + 1) m
    | .error halt => .error halt

/-- Runs a sequence of statements. -/
def Block.run (f : Frame) : MachineCode → Memory → Except Halt Memory
  | .done, m => .ok m
  | .note _ rest, m => rest.run f m
  | .loop count body rest, m => do
    let m ← runLoop f body count 0 m
    rest.run f m
  | .branch test yes no rest, m => do
    let m ← if test.holds f then yes.run f m else no.run f m
    rest.run f m

end LedPattern
