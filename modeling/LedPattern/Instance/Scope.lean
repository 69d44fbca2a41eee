import LedPattern.Instance.Memory

/-!
# Names and addresses

The way from code with names to code with addresses. It finds out whether every buffer and local
that is used exists. Locals have one scope, the whole program: one that is bound in a loop can be
read in every later one.
-/

namespace LedPattern

/-- A buffer by its number among the temporaries or among the states. -/
inductive Holder where
  | temp (number : Nat)
  | slot (number : Nat)
deriving DecidableEq, Repr

/-- The samples with one place in every element of a buffer. -/
def Holder.region (elem : Elem) (lane : Nat) : Holder → Region
  | .temp number => .temp number elem.lanes lane
  | .slot number => .slot number

/-- What a symbol stands for: a buffer, and what its elements are. -/
structure Binding where
  symbol : String
  holder : Holder
  elem : Elem
deriving DecidableEq, Repr

/-- The names that a program's code may use: buffers, later ones hiding earlier ones, and locals
in the order in which they are first bound. -/
structure Scope where
  buffers : List Binding
  locals : List String

namespace Scope

/-- The address of a place, which has a color exactly if its buffer holds colors. -/
def address (s : Scope) (p : Place) : Except Fault Address :=
  match p.target with
  | .out =>
    match p.channel with
    | some c => .ok ⟨.pixel c, p.index⟩
    | none => .error (.badPlace p)
  | .buffer symbol =>
    match s.buffers.find? fun b => b.symbol = symbol with
    | none => .error (.unknownBuffer symbol)
    | some b =>
      match b.elem, p.channel with
      | .float, none => .ok ⟨b.holder.region .float 0, p.index⟩
      | .rgb, some c => .ok ⟨b.holder.region .rgb c.lane, p.index⟩
      | _, _ => .error (.badPlace p)

/-- The number of a local. -/
def number (s : Scope) (name : String) : Except Fault Nat :=
  match s.locals.findIdx? fun l => l = name with
  | some i => .ok i
  | none => .error (.unknownLocal name)

/-- The scope after a local is bound, and its number. -/
def bind (s : Scope) (name : String) : Scope × Nat :=
  match s.locals.findIdx? fun l => l = name with
  | some i => (s, i)
  | none => ({ s with locals := s.locals ++ [name] }, s.locals.length)

/-- An expression with addresses for places and numbers for locals. -/
def expr (s : Scope) : Expr Place String → Except Fault (Expr Address Nat)
  | .const v => .ok (.const v)
  | .counter => .ok .counter
  | .load p => do .ok (.load (← s.address p))
  | .ref name => do .ok (.ref (← s.number name))
  | .param field => .ok (.param field)
  | .spectrum index => .ok (.spectrum index)
  | .energy => .ok .energy
  | .binary op a b => do
    let x ← s.expr a
    let y ← s.expr b
    .ok (.binary op x y)
  | .clamp01 x => do .ok (.clamp01 (← s.expr x))
  | .floor x => do .ok (.floor (← s.expr x))

/-- An instruction with addresses and numbers. A local is bound after its value. -/
def instr (s : Scope) : Instr Place String → Except Fault (Scope × Instr Address Nat)
  | .bind name value => do
    let value ← s.expr value
    let (s, number) := s.bind name
    .ok (s, .bind number value)
  | .store p value => do
    let a ← s.address p
    let value ← s.expr value
    .ok (s, .store a value)

/-- The instructions of a loop with addresses and numbers. -/
def instrs (s : Scope) : List (Instr Place String) → Except Fault (Scope × List (Instr Address Nat))
  | [] => .ok (s, [])
  | first :: rest => do
    let (s, first) ← s.instr first
    let (s, rest) ← s.instrs rest
    .ok (s, first :: rest)

/-- A sequence of statements with addresses and numbers, without its notes. -/
def body (s : Scope) : Body → Except Fault (Scope × MachineCode)
  | .done => .ok (s, .done)
  | .note _ rest => s.body rest
  | .loop count instrs rest => do
    let (s, instrs) ← s.instrs instrs
    let (s, rest) ← s.body rest
    .ok (s, .loop count instrs rest)
  | .branch test yes no rest => do
    let (s, yes) ← s.body yes
    let (s, no) ← s.body no
    let (s, rest) ← s.body rest
    .ok (s, .branch test yes no rest)

end Scope

end LedPattern
