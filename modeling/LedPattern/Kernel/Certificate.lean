import LedPattern.Kernel.Program

/-!
# Certificates

Four properties of a program that can be read off its text, and that both the emitted code and an
instance of the program rely on.

Specification of `pgc`, section 5, for the one writer of a state.
-/

namespace LedPattern

/-- The number of bins in the spectrum of the audio signal. -/
def spectrumBins : Nat := 256

/-- The outcome of the four checks of a program. -/
structure Certificate where
  /-- Exactly one loop writes pixels. It is under no branch and writes every color of each. -/
  terminalCoversFrame : Bool
  /-- Every element that a loop can reach exists. -/
  indicesInBounds : Bool
  /-- Every buffer that is named is declared. -/
  buffersDeclared : Bool
  /-- On no path do two loops write one slot. -/
  singleStateWriter : Bool
deriving DecidableEq, Repr

/-- Whether all four checks succeeded. -/
def Certificate.allPass (c : Certificate) : Bool :=
  c.terminalCoversFrame && c.indicesInBounds && c.buffersDeclared && c.singleStateWriter

/-- A certificate as messages show it. -/
def Certificate.shown (c : Certificate) : String :=
  let mark (b : Bool) : String := if b then "true" else "false"
  "Cert \x7b terminal_covers_frame: " ++ mark c.terminalCoversFrame
    ++ ", indices_in_bounds: " ++ mark c.indicesInBounds
    ++ ", buffers_declared: " ++ mark c.buffersDeclared
    ++ ", single_state_writer: " ++ mark c.singleStateWriter ++ " \x7d"

/-- The places that an expression loads from. -/
def Expr.places {P L : Type} : Expr P L → List P
  | .load place => [place]
  | .binary _ a b => a.places ++ b.places
  | .clamp01 x => x.places
  | .floor x => x.places
  | _ => []

/-- The bins of the spectrum that an expression reads. -/
def Expr.bins {P L : Type} : Expr P L → List Index
  | .spectrum index => [index]
  | .binary _ a b => a.bins ++ b.bins
  | .clamp01 x => x.bins
  | .floor x => x.bins
  | _ => []

/-- The value that an instruction computes. -/
def Instr.value {P L : Type} : Instr P L → Expr P L
  | .bind _ value => value
  | .store _ value => value

/-- The places that an instruction stores to or loads from. -/
def Instr.places {P L : Type} : Instr P L → List P
  | .bind _ value => value.places
  | .store place value => place :: value.places

/-- Whether an index stays below `len` for every counter below `count`. -/
def Index.fits (index : Index) (count len : Nat) : Bool :=
  if count = 0 then true
  else match index with
    | .counter => count - 1 < len
    | .reverse last => count - 1 ≤ last && last < len
    | .offset base => base + (count - 1) < Index.limit && base + (count - 1) < len

namespace Program

/-- The number of elements in the target of a place, if it is declared. -/
def targetLength? (p : Program) : Target → Option Nat
  | .out => some p.frameWidth
  | .buffer symbol =>
    match p.temp? symbol with
    | some t => some t.len
    | none => (p.slot? symbol).map Slot.len

/-- Whether a place exists for every counter below `count`. -/
def placeFits (p : Program) (count : Nat) (place : Place) : Bool :=
  match p.targetLength? place.target with
  | some len => place.index.fits count len
  | none => false

/-- Whether all that an instruction touches exists for every counter below `count`. -/
def instrFits (p : Program) (count : Nat) (instr : Instr Place String) : Bool :=
  instr.places.all (p.placeFits count)
    && instr.value.bins.all fun index => index.fits count spectrumBins

/-- Whether the buffer of a place is declared. -/
def declares (p : Program) (place : Place) : Bool :=
  match place.target with
  | .buffer symbol => (p.temp? symbol).isSome || (p.slot? symbol).isSome
  | .out => true

/-- Whether a loop's body stores color `c` of the pixel that its counter gives. -/
def coversChannel (body : List (Instr Place String)) (c : Channel) : Bool :=
  body.any fun instr => match instr with
    | .store place _ => place = ⟨.out, .counter, some c⟩
    | .bind _ _ => false

/-- Whether one loop, under no branch, is all that writes pixels, and whether it writes every
color of each. -/
def terminalCoversFrame (p : Program) : Bool :=
  let writes (l : Nat × List (Instr Place String)) : Bool := l.2.any Instr.storesOut
  match p.body.topLoops.filter writes, p.body.loops.filter writes with
  | [(count, body)], [_] => count = p.frameWidth && Channel.all.all (coversChannel body)
  | _, _ => false

/-- The slot that an instruction stores to. -/
def storedSlot? (p : Program) : Instr Place String → Option String
  | .store ⟨.buffer symbol, _, _⟩ _ => if (p.slot? symbol).isSome then some symbol else none
  | _ => none

/-- How often a loop counts as a writer of slot `symbol`: once for each run of stores to it. -/
def loopWrites (p : Program) (symbol : String) (body : List (Instr Place String)) : Nat :=
  (body.filterMap p.storedSlot?).eraseReps.count symbol

/-- How many writers slot `symbol` has on the path through a sequence that has most. -/
def slotWrites (p : Program) (symbol : String) : Body → Nat
  | .done => 0
  | .note _ rest => p.slotWrites symbol rest
  | .loop _ body rest => p.loopWrites symbol body + p.slotWrites symbol rest
  | .branch _ yes no rest =>
    max (p.slotWrites symbol yes) (p.slotWrites symbol no) + p.slotWrites symbol rest

/-- The checks of a program. -/
def certificate (p : Program) : Certificate where
  terminalCoversFrame := p.terminalCoversFrame
  indicesInBounds := p.body.loops.all fun (count, body) => body.all (p.instrFits count)
  buffersDeclared := p.body.loops.all fun (_, body) =>
    body.all fun instr => instr.places.all p.declares
  singleStateWriter := p.slots.all fun slot => p.slotWrites slot.symbol p.body ≤ 1

end Program

end LedPattern
