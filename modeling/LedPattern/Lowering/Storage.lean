import LedPattern.Kernel.Program
import LedPattern.Text.Identifier

/-!
# Storage

The buffers of a program while it grows. A slot is named after the node that owns it, and two
slots never share a symbol. A temporary is used again by later nodes that need the same elements
and length, as long as they do not read it at the same time.

Specification of `pgc`, section 2: the state allocator. Section 4.3 has the temporaries.
-/

namespace LedPattern

/-- A buffer that code reads and writes. -/
structure Buffer where
  symbol : String
  elem : Elem
  len : Nat
deriving DecidableEq, Repr

/-- The buffer before any node has run. Nothing reads it. -/
def Buffer.empty : Buffer := ⟨"", .float, 0⟩

namespace Slot

/-- The symbols that a slot of `owner` may get, in order of preference. The compiler counts them in
32 bits. A natural number stands for that counter, since the two differ only once about `2 ^ 31`
symbols of one base are taken, which are more than fit into memory. -/
def candidate (owner : String) (k : Nat) : String :=
  let base := "state_" ++ Text.sanitize owner
  if k = 0 then base else base ++ "_" ++ natText (k + 1)

/-- The first candidate that is not taken. One of them is free, since there are more of them than
symbols that are taken. -/
def freeSymbol (taken : List String) (owner : String) : String :=
  let candidates := (List.range (taken.length + 1)).map (candidate owner)
  (candidates.find? fun s => !taken.contains s).getD (candidate owner 0)

/-- The slots with one more at the end, for `len` samples of node `owner`. -/
def allocate (slots : List Slot) (owner : String) (len : Nat) : List Slot :=
  slots ++ [⟨freeSymbol (slots.map Slot.symbol) owner, owner, len⟩]

end Slot

/-- The buffers declared so far. -/
structure Storage where
  slots : List Slot := []
  temps : List Temp := []

namespace Storage

/-- The symbol of the next temporary with given elements. -/
def nextTemp (s : Storage) (elem : Elem) : String :=
  let number := natText ((s.temps.filter fun t => t.elem = elem).length)
  match elem with
  | .float => "tmp_f" ++ number
  | .rgb => "tmp_rgb" ++ number

/-- A new temporary. -/
def fresh (s : Storage) (elem : Elem) (len : Nat) : Buffer × Storage :=
  let symbol := s.nextTemp elem
  (⟨symbol, elem, len⟩, { s with temps := s.temps ++ [⟨symbol, elem, len⟩] })

/-- The first temporary of the right shape other than `avoid`, or else a new one. -/
def acquire (s : Storage) (elem : Elem) (len : Nat) (avoid : String) : Buffer × Storage :=
  match s.temps.find? fun t => t.elem = elem && t.len = len && t.symbol ≠ avoid with
  | some t => (⟨t.symbol, elem, len⟩, s)
  | none => s.fresh elem len

/-- A new slot. -/
def slotFor (s : Storage) (owner : String) (len : Nat) : Buffer × Storage :=
  let slots := Slot.allocate s.slots owner len
  let symbol := (slots.getLast?.map Slot.symbol).getD ""
  (⟨symbol, .float, len⟩, { s with slots })

end Storage

end LedPattern
