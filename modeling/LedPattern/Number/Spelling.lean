import LedPattern.Number.Single

/-!
# Numbers as people spell them

Whole texts that spell a number: a decimal with an optional sign, point and exponent, or the name
of a value that has no digits.
-/

namespace LedPattern.Spelling

/-- The sign at the start of a text. -/
def takeSign : List Char → List Char × List Char
  | '+' :: cs => (['+'], cs)
  | '-' :: cs => (['-'], cs)
  | cs => ([], cs)

/-- The integer that a text of digits with an optional sign spells. -/
def integer? (cs : List Char) : Option Int :=
  let (sign, digits) := takeSign cs
  if digits.isEmpty || !digits.all Char.isDigit then none
  else if sign = ['-'] then some (-(natOfDigits digits : Int))
  else some (natOfDigits digits)

/-- The word of 32 bits that a text spells. -/
def word32? (s : String) : Option UInt32 :=
  match integer? s.toList with
  | some i => if 0 ≤ i ∧ i < UInt32.size then some (UInt32.ofNat i.toNat) else none
  | none => none

/-- The exponent that a text spells, which is empty or starts with a mark. -/
def exponent? : List Char → Option Int
  | [] => some 0
  | mark :: cs => if mark = 'e' ∨ mark = 'E' then integer? cs else none

/-- The decimal that a text without a sign spells. A digit must stand on one side of the point. -/
def decimal? (cs : List Char) : Option Decimal :=
  let whole := cs.takeWhile Char.isDigit
  let rest := cs.dropWhile Char.isDigit
  let (fraction, rest) := match rest with
    | '.' :: rest => (rest.takeWhile Char.isDigit, rest.dropWhile Char.isDigit)
    | rest => ([], rest)
  if whole.isEmpty && fraction.isEmpty then none
  else (exponent? rest).map (Decimal.ofParts whole fraction)

/-- The single that a text spells: a decimal, an infinity, or what is not a number, in letters of
either case. -/
def single? (s : String) : Option Float32 :=
  let (sign, cs) := takeSign s.toList
  let negative := sign = ['-']
  let word := String.ofList (cs.map Char.toLower)
  let infinity := BinaryFormat.binary32.infinity
  if word = "inf" ∨ word = "infinity" then some (Single.ofPattern negative infinity)
  else if word = "nan" then some (Single.ofPattern negative (infinity + 1))
  else (decimal? cs).map (Single.ofDecimal negative)

end LedPattern.Spelling
