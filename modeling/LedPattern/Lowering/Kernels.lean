import LedPattern.Lowering.Plan
import LedPattern.Lowering.Storage

/-!
# Kernels of a plan

Each stage of a plan becomes a loop that fills a buffer from the one before it. A fork becomes a
branch whose two ways end with their results in one buffer.

Specification of `pgc`, section 4.2: the transfer functions of the lowering table.
-/

namespace LedPattern

/-- Code, the buffer that it leaves, and the buffers declared so far. -/
structure Emitted where
  code : Body
  buffer : Buffer
  storage : Storage

namespace Kernel

/-- A place in a buffer. -/
def place (b : Buffer) (index : Index) (channel : Option Channel) : Place :=
  ⟨.buffer b.symbol, index, channel⟩

/-- The value at a place in a buffer. -/
def load (b : Buffer) (index : Index) (channel : Option Channel) : Expr Place String :=
  .load (place b index channel)

/-- A store to a place in a buffer. -/
def store (b : Buffer) (index : Index) (channel : Option Channel) (value : Expr Place String) :
    Instr Place String :=
  .store (place b index channel) value

/-- A note that says which node some code is for. -/
def note (id what : String) : Body := .note ("node " ++ Text.quoted id ++ ": " ++ what) .done

/-- A loop. -/
def loop (count : Nat) (body : List (Instr Place String)) : Body := .loop count body .done

/-- Levels from the spectrum, or zeros while there is no audio signal. -/
def sample (dst : Buffer) (bins : Nat) : Body :=
  let level : Expr Place String :=
    .clamp01 (.binary .mul (.spectrum .counter) (.param .sensitivity))
  .branch .audioPresent (loop bins [store dst .counter none level])
    (loop bins [store dst .counter none (.const 0)]) .done

/-- Levels from zero to one along the strip. -/
def ramp (dst : Buffer) (width : Nat) : Body :=
  let level : Expr Place String :=
    if width = 1 then .const 0
    else .binary .div .counter (.const (Single.ofNat (width - 1)))
  loop width [store dst .counter none level]

/-- Each level moves from its old value towards the input. -/
def decay (dst src : Buffer) (factor : Float32) : Body :=
  let level : Expr Place String :=
    .binary .add (.binary .mul (.const factor) (load dst .counter none))
      (.binary .mul (.binary .sub (.const 1) (.const factor)) (load src .counter none))
  loop src.len [store dst .counter none level]

/-- The share of a color in a tint. -/
def share (map : ColorMap) (c : Channel) : Expr Place String :=
  match map with
  | .grayscale => .ref "v"
  | .tint r g b =>
    let tint := match c with
      | .r => r
      | .g => g
      | .b => b
    .binary .mul (.ref "v") (.const tint)

/-- Colors from levels. -/
def color (dst src : Buffer) (map : ColorMap) : Body :=
  loop src.len (.bind "v" (.clamp01 (load src .counter none))
    :: Channel.all.map fun c => store dst .counter (some c) (share map c))

/-- Colors from one element to another. -/
def copyColors (dst src : Buffer) (target origin : Index) : List (Instr Place String) :=
  Channel.all.map fun c => store dst target (some c) (load src origin (some c))

/-- Colors in another order. -/
def mirror (dst src : Buffer) : MirrorVariant → Body
  | .fullReversal => loop src.len (copyColors dst src .counter (.reverse (src.len - 1)))
  | .centerOrigin =>
    let half := src.len / 2
    loop half (copyColors dst src (.reverse (half - 1)) .counter
      ++ copyColors dst src (.offset half) .counter)

/-- The same elements in another buffer. -/
def copy (dst src : Buffer) : Body :=
  match src.elem with
  | .float => loop src.len [store dst .counter none (load src .counter none)]
  | .rgb => loop src.len (copyColors dst src .counter .counter)

/-- The result of a branch moved to where the branches meet. -/
def join (dst src : Buffer) : Body :=
  if src.symbol = dst.symbol then .done
  else .note ("join " ++ src.symbol ++ " into " ++ dst.symbol) (copy dst src)

/-- The bytes of a pixel from its colors, rounded to the nearest. -/
def output (src : Buffer) (width : Nat) : Body :=
  let byte (c : Channel) : Expr Place String :=
    .floor (.binary .add
      (.binary .mul
        (.binary .mul (.clamp01 (load src .counter (some c))) (.ref "bright")) (.const 255))
      (.const 0.5))
  loop width (.bind "bright" (.clamp01 (.param .brightness))
    :: Channel.all.map fun c => .store ⟨.out, .counter, some c⟩ (byte c))

/-- The test of a predicate. -/
def testOf : Predicate → Test
  | .audioAvailable => .audioPresent
  | .energyAbove threshold => .energyAbove threshold

/-- The code of a stage that the buffer `cur` reaches. -/
def stage (width : Nat) (s : Storage) (cur : Buffer) : Stage → Emitted
  | .idle id => ⟨note id "AudioInput (unused, spectrum not sampled)", cur, s⟩
  | .sample id bins =>
    let (dst, s) := s.acquire .float bins ""
    ⟨note id NodeKind.audioInput.name ++ sample dst bins, dst, s⟩
  | .ramp id =>
    let (dst, s) := s.acquire .float width cur.symbol
    ⟨note id NodeKind.rampShape.name ++ ramp dst width, dst, s⟩
  | .decay id factor =>
    let (dst, s) := s.slotFor id cur.len
    ⟨note id NodeKind.persistDecay.name ++ decay dst cur factor, dst, s⟩
  | .color id map =>
    let (dst, s) := s.acquire .rgb cur.len ""
    ⟨note id NodeKind.colorize.name ++ color dst cur map, dst, s⟩
  | .mirror id variant =>
    let (dst, s) := s.acquire .rgb cur.len cur.symbol
    ⟨note id (NodeKind.mirror.name ++ " (" ++ variant.name ++ ")") ++ mirror dst cur variant,
      dst, s⟩

/-- The code of some stages. -/
def stages (width : Nat) (s : Storage) (cur : Buffer) : List Stage → Emitted
  | [] => ⟨.done, cur, s⟩
  | first :: rest =>
    let head := stage width s cur first
    let tail := stages width head.storage head.buffer rest
    ⟨head.code ++ tail.code, tail.buffer, tail.storage⟩

/-- Where two branches meet: in the buffer of the primary one, unless that keeps its contents from
frame to frame. -/
def meeting (s : Storage) (primary : Buffer) : Buffer × Storage :=
  if s.temps.any fun t => t.symbol = primary.symbol then (primary, s)
  else s.fresh primary.elem primary.len

/-- The code of a fork. The primary way gets its buffers first. -/
def fork (width : Nat) (s : Storage) (cur : Buffer) (f : Fork) : Emitted :=
  let primary := stages width s cur f.primary
  let fallback := stages width primary.storage cur f.fallback
  let (dst, s) := meeting fallback.storage primary.buffer
  ⟨note f.id NodeKind.conditionalFallback.name
      ++ .branch (testOf f.predicate) (primary.code ++ join dst primary.buffer)
        (fallback.code ++ join dst fallback.buffer) .done,
    dst, s⟩

/-- The code of a whole plan. -/
def plan (width : Nat) (p : Plan) : Emitted :=
  let lead := stages width {} Buffer.empty p.lead
  let main := match p.fork with
    | none => lead
    | some f =>
      let forked := fork width lead.storage lead.buffer f
      ⟨lead.code ++ forked.code, forked.buffer, forked.storage⟩
  ⟨main.code ++ note p.output NodeKind.pixelOutput.name ++ output main.buffer width,
    main.buffer, main.storage⟩

end Kernel

end LedPattern
