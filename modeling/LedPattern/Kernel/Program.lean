import LedPattern.Number.Single

/-!
# Kernel programs

The loop programs that a pattern graph becomes. A program names its buffers, and its body is a
sequence of counted loops over `i` and of branches on the audio signal. All arithmetic is written
out as expression trees.

The trees are parametric in what stands for a place in a buffer and for a local, so that a program
with names and one with addresses have one shape.

Specification of `pgc`, section 3, *LIR*.
-/

namespace LedPattern

/-- What the elements of a buffer are: levels or colors. -/
inductive Elem where
  | float
  | rgb
deriving DecidableEq, Repr

/-- The number of samples in an element. -/
def Elem.lanes : Elem → Nat
  | .float => 1
  | .rgb => 3

/-- A buffer that keeps its contents from frame to frame, with the node that owns it. -/
structure Slot where
  symbol : String
  owner : String
  len : Nat
deriving DecidableEq, Repr

/-- A buffer that is cleared before every frame. -/
structure Temp where
  symbol : String
  elem : Elem
  len : Nat
deriving DecidableEq, Repr

/-- An element's number as a function of the loop counter `i`. -/
inductive Index where
  /-- The counter itself. -/
  | counter
  /-- A number less the counter. -/
  | reverse (last : Nat)
  /-- A number and the counter. -/
  | offset (base : Nat)
deriving DecidableEq, Repr

namespace Index

/-- Element numbers are words of 64 bits. -/
def limit : Nat := UInt64.size

/-- The element's number for a value of the counter, unless it leaves the range of words. -/
def resolve (index : Index) (i : Nat) : Option Nat :=
  match index with
  | .counter => some i
  | .reverse last => if i ≤ last then some (last - i) else none
  | .offset base => if base + i < limit then some (base + i) else none

end Index

/-- The colors of a pixel. -/
inductive Channel where
  | r
  | g
  | b
deriving DecidableEq, Repr

namespace Channel

/-- The colors in order. -/
def all : List Channel := [.r, .g, .b]

/-- The name of a color. -/
def name : Channel → String
  | .r => "r"
  | .g => "g"
  | .b => "b"

/-- The place of a color's sample within an element. -/
def lane : Channel → Nat
  | .r => 0
  | .g => 1
  | .b => 2

/-- The color with a given name. -/
def ofName? (s : String) : Option Channel := all.find? fun c => c.name = s

end Channel

/-- What a place lies in: a buffer known by its symbol, or the pixels of the frame. -/
inductive Target where
  | buffer (symbol : String)
  | out
deriving DecidableEq, Repr

/-- An element of a buffer, or one color of it. -/
structure Place where
  target : Target
  index : Index
  channel : Option Channel
deriving DecidableEq, Repr

/-- The parameters that a caller sets for each frame. -/
inductive ParamField where
  | brightness
  | softness
  | sensitivity
deriving DecidableEq, Repr

namespace ParamField

/-- The parameters in order. -/
def all : List ParamField := [.brightness, .softness, .sensitivity]

/-- The name of a parameter. -/
def name : ParamField → String
  | .brightness => "brightness"
  | .softness => "softness"
  | .sensitivity => "sensitivity"

/-- The parameter with a given name. -/
def ofName? (s : String) : Option ParamField := all.find? fun p => p.name = s

end ParamField

/-- The operators between two samples. -/
inductive BinOp where
  | add
  | sub
  | mul
  | div
deriving DecidableEq, Repr

namespace BinOp

/-- The sign of an operator. -/
def symbol : BinOp → String
  | .add => "+"
  | .sub => "-"
  | .mul => "*"
  | .div => "/"

/-- How strongly an operator binds. -/
def precedence : BinOp → Nat
  | .add | .sub => 1
  | .mul | .div => 2

/-- The result of an operator. -/
def apply : BinOp → Float32 → Float32 → Float32
  | .add, a, b => a + b
  | .sub, a, b => a - b
  | .mul, a, b => a * b
  | .div, a, b => a / b

end BinOp

/-- A sample, computed from constants, the counter, places `P`, locals `L`, parameters and the
audio signal. -/
inductive Expr (P L : Type) where
  | const (value : Float32)
  | counter
  | load (place : P)
  | ref (name : L)
  | param (field : ParamField)
  | spectrum (index : Index)
  | energy
  | binary (op : BinOp) (lhs rhs : Expr P L)
  | clamp01 (arg : Expr P L)
  | floor (arg : Expr P L)
deriving BEq

/-- How strongly an expression holds together. -/
def Expr.precedence {P L : Type} : Expr P L → Nat
  | .binary op _ _ => op.precedence
  | _ => 3

/-- A step of a loop's body: a local gets a value, or a place does. -/
inductive Instr (P L : Type) where
  | bind (name : L) (value : Expr P L)
  | store (place : P) (value : Expr P L)
deriving BEq

/-- A test of the audio signal. -/
inductive Test where
  | audioPresent
  | energyAbove (threshold : Float32)
deriving BEq

/-- A sequence of statements, given by its first one and the rest. A note has no effect. -/
inductive Block (P L : Type) where
  | done
  | note (text : String) (rest : Block P L)
  | loop (count : Nat) (body : List (Instr P L)) (rest : Block P L)
  | branch (test : Test) (yes no : Block P L) (rest : Block P L)
deriving BEq

namespace Block

variable {P L : Type}

/-- One sequence after another. -/
def append : Block P L → Block P L → Block P L
  | .done, next => next
  | .note text rest, next => .note text (rest.append next)
  | .loop count body rest, next => .loop count body (rest.append next)
  | .branch test yes no rest, next => .branch test yes no (rest.append next)

instance : Append (Block P L) := ⟨append⟩

/-- The sequence without its notes, at every depth. -/
def withoutNotes : Block P L → Block P L
  | .done => .done
  | .note _ rest => rest.withoutNotes
  | .loop count body rest => .loop count body rest.withoutNotes
  | .branch test yes no rest => .branch test yes.withoutNotes no.withoutNotes rest.withoutNotes

/-- The loops of a sequence with their counts and bodies, at every depth, in order of text. -/
def loops : Block P L → List (Nat × List (Instr P L))
  | .done => []
  | .note _ rest => rest.loops
  | .loop count body rest => (count, body) :: rest.loops
  | .branch _ yes no rest => yes.loops ++ no.loops ++ rest.loops

/-- The loops of a sequence that no branch encloses. -/
def topLoops : Block P L → List (Nat × List (Instr P L))
  | .done => []
  | .note _ rest => rest.topLoops
  | .loop count body rest => (count, body) :: rest.topLoops
  | .branch _ _ _ rest => rest.topLoops

end Block

/-- A sequence of statements in which buffers and locals go by their names. -/
abbrev Body := Block Place String

/-- A kernel program: a function that renders `frameWidth` pixels. -/
structure Program where
  function : String
  frameWidth : Nat
  slots : List Slot
  temps : List Temp
  body : Body
deriving BEq

namespace Program

/-- The first temporary with a given symbol. -/
def temp? (p : Program) (symbol : String) : Option Temp := p.temps.find? fun t => t.symbol = symbol

/-- The first slot with a given symbol. -/
def slot? (p : Program) (symbol : String) : Option Slot := p.slots.find? fun s => s.symbol = symbol

/-- The number of loops at every depth. -/
def loopCount (p : Program) : Nat := p.body.loops.length

/-- Whether two programs have the same buffers and the same code. The name of the function, the
owners of the slots and the notes do not count, and constants are compared as numbers. -/
def sameStructure (p q : Program) : Bool :=
  p.frameWidth == q.frameWidth
    && p.slots.map (fun s => (s.symbol, s.len)) == q.slots.map (fun s => (s.symbol, s.len))
    && p.temps == q.temps
    && p.body.withoutNotes == q.body.withoutNotes

end Program

/-- Whether an instruction stores to the pixels of the frame. -/
def Instr.storesOut {L : Type} : Instr Place L → Bool
  | .store place _ => place.target = .out
  | .bind _ _ => false

end LedPattern
