import LedPattern.Kernel.Program

/-!
# Listings

A program as a listing for people: one line for each buffer, note, loop and instruction, with
expressions in operator-first form.

Specification of `pgc`, section 14: the dump of a program for inspection.
-/

namespace LedPattern

/-- The text of an index. -/
def Index.text : Index → String
  | .counter => "i"
  | .reverse last => natText last ++ " - i"
  | .offset base => natText base ++ " + i"

/-- The text of a place. -/
def Place.text (p : Place) : String :=
  let base := match p.target with
    | .buffer symbol => symbol
    | .out => "out"
  let color := match p.channel with
    | some c => "." ++ c.name
    | none => ""
  base ++ "[" ++ p.index.text ++ "]" ++ color

namespace Listing

/-- An expression in operator-first form. -/
def exprText : Expr Place String → String
  | .const v => Single.text v
  | .counter => "float(i)"
  | .load place => place.text
  | .ref name => "%" ++ name
  | .param field => "param." ++ field.name
  | .spectrum index => "spectrum[" ++ index.text ++ "]"
  | .energy => "energy"
  | .binary op a b => "(" ++ op.symbol ++ " " ++ exprText a ++ " " ++ exprText b ++ ")"
  | .clamp01 x => "(clamp01 " ++ exprText x ++ ")"
  | .floor x => "(floor " ++ exprText x ++ ")"

/-- An instruction on one line. -/
def instrText : Instr Place String → String
  | .bind name value => "%" ++ name ++ " = " ++ exprText value
  | .store place value => place.text ++ " <- " ++ exprText value

/-- A test. -/
def testText : Test → String
  | .audioPresent => "audio_present"
  | .energyAbove threshold => "energy > " ++ Single.text threshold

/-- A line at a depth of two blanks a step. -/
def line (depth : Nat) (s : String) : String :=
  String.ofList (List.replicate (2 * depth) ' ') ++ s ++ "\n"

/-- The lines of a sequence of statements. -/
def bodyText (depth : Nat) : Body → String
  | .done => ""
  | .note text rest => line depth ("; " ++ text) ++ bodyText depth rest
  | .loop count body rest =>
    line depth ("loop i < " ++ natText count)
      ++ String.join (body.map fun instr => line (depth + 1) (instrText instr))
      ++ bodyText depth rest
  | .branch test yes no rest =>
    line depth ("if " ++ testText test) ++ bodyText (depth + 1) yes
      ++ line depth "else" ++ bodyText (depth + 1) no
      ++ bodyText depth rest

/-- The line of a slot. -/
def slotText (s : Slot) : String :=
  line 0 ("slot " ++ s.symbol ++ ": f32[" ++ natText s.len ++ "] owner \"" ++ s.owner ++ "\"")

/-- The line of a temporary. -/
def tempText (t : Temp) : String :=
  let elem := match t.elem with
    | .float => "f32"
    | .rgb => "rgb"
  line 0 ("temp " ++ t.symbol ++ ": " ++ elem ++ "[" ++ natText t.len ++ "]")

end Listing

/-- The listing of a program. -/
def Program.listing (p : Program) : String :=
  Listing.line 0 ("lir " ++ p.function ++ " (frame_width = " ++ natText p.frameWidth ++ ")")
    ++ String.join (p.slots.map Listing.slotText)
    ++ String.join (p.temps.map Listing.tempText)
    ++ Listing.bodyText 0 p.body

end LedPattern
