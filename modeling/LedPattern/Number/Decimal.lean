import LedPattern.Number.Binary

/-!
# Decimal numbers and their text

A `Decimal` is a natural number times a power of ten. `BinaryFormat.ofDecimal` rounds one to a
binary format, and `BinaryFormat.shortest` is the way back: among the decimals that round to a
given pattern it takes one with the fewest digits, and of those the nearest to the value.
`DecimalLayout` collects what a notation decides: where positional writing ends, whether an
integer keeps a fractional zero, and whether a positive exponent has a sign.
-/

namespace LedPattern

/-- The number `digits * 10 ^ exponent`. -/
structure Decimal where
  digits : Nat
  exponent : Int
deriving DecidableEq, Repr

/-- The digits of a number in decimal notation. -/
def digitChars (n : Nat) : List Char := Nat.toDigits 10 n

/-- A number in decimal notation. -/
def natText (n : Nat) : String := String.ofList (digitChars n)

/-- The length of a number in decimal notation. -/
def digitCount (n : Nat) : Nat := (digitChars n).length

/-- A number with one more digit at its end. -/
def pushDigit (n : Nat) (c : Char) : Nat := 10 * n + (c.toNat - '0'.toNat)

/-- The value of a run of decimal digits. -/
def natOfDigits (cs : List Char) : Nat := cs.foldl pushDigit 0

namespace Decimal

/-- The same number with no zero at the end of its digits, tried `fuel` times. -/
def trimZeros (fuel : Nat) (d : Decimal) : Decimal :=
  match fuel with
  | 0 => d
  | fuel + 1 =>
    if d.digits ≠ 0 ∧ d.digits % 10 = 0 then trimZeros fuel ⟨d.digits / 10, d.exponent + 1⟩ else d

/-- The number that a run of digits, a fraction and an exponent spell. -/
def ofParts (whole fraction : List Char) (exponent : Int) : Decimal :=
  ⟨natOfDigits (whole ++ fraction), exponent - fraction.length⟩

end Decimal

namespace BinaryFormat

/-- The pattern nearest to a decimal. The two outer cases only avoid large powers of ten: the
number is then below half a unit or above every finite value. -/
def ofDecimal (f : BinaryFormat) (d : Decimal) : Nat :=
  let top := d.exponent + digitCount d.digits
  if d.digits = 0 ∨ top < -f.scale then 0
  else if top > f.scale + 1 then f.infinity
  else
    let power := Nat.pow 10 d.exponent.natAbs
    if d.exponent < 0 then f.nearest (d.digits * Nat.pow 2 f.scale) power
    else f.nearest (d.digits * power * Nat.pow 2 f.scale) 1

/-- Which of two equally near decimals of the same length is written. -/
inductive Tie where
  | up
  | even
deriving DecidableEq, Repr

/-- The value of pattern `k` as a natural number of `10 ^ (-scale)`. -/
def exactDigits (f : BinaryFormat) (k : Nat) : Nat := f.units k * Nat.pow 5 f.scale

/-- Whether `x * 10 ^ (-scale)` rounds to pattern `k`: it lies between the middles towards the two
neighbours, and an even pattern has the middles too. -/
def attracts (f : BinaryFormat) (k x : Nat) : Bool :=
  let here := f.exactDigits k
  let low := f.exactDigits (k - 1) + here
  let high := here + f.exactDigits (k + 1)
  if k % 2 = 0 then low ≤ 2 * x && 2 * x ≤ high else low < 2 * x && 2 * x < high

/-- The decimal of `n` digits that is written for pattern `k`, if one of the two neighbours of the
value on the grid of such decimals rounds to `k`. -/
def onGrid (f : BinaryFormat) (tie : Tie) (k n : Nat) : Option Decimal :=
  let x := f.exactDigits k
  let drop := digitCount x - n
  let grid := Nat.pow 10 drop
  let below := x / grid
  let found (d : Nat) : Option Decimal := some ⟨d, (drop : Int) - f.scale⟩
  match f.attracts k (below * grid), f.attracts k ((below + 1) * grid) with
  | true, true =>
    let twice := 2 * (x - below * grid)
    if twice < grid then found below
    else if grid < twice then found (below + 1)
    else match tie with
      | .up => found (below + 1)
      | .even => found (if below % 2 = 0 then below else below + 1)
  | true, false => found below
  | false, true => found (below + 1)
  | false, false => none

/-- As many digits as always suffice to tell the values of the format apart. -/
def enoughDigits (f : BinaryFormat) : Nat := f.precision * 30103 / 100000 + 2

/-- The shortest decimal that rounds to pattern `k`, the nearest to its value among those. -/
def shortest (f : BinaryFormat) (tie : Tie) (k : Nat) : Decimal :=
  let found := (List.range f.enoughDigits).findSome? fun n => f.onGrid tie k (n + 1)
  let exact : Decimal := ⟨f.exactDigits k, -f.scale⟩
  (found.getD exact).trimZeros (f.enoughDigits + 1)

end BinaryFormat

/-- The decisions of a notation for decimal numbers. -/
structure DecimalLayout where
  /-- Numbers from `10 ^ least` up to `10 ^ limit` are written without an exponent, where these
  bounds are given. -/
  range : Option (Int × Int)
  /-- An integer written without an exponent ends in `.0`. -/
  pointZero : Bool
  /-- A positive exponent has a sign. -/
  plusSign : Bool
  /-- The choice between two equally near decimals. -/
  tie : BinaryFormat.Tie

namespace DecimalLayout

/-- A layout's text of digits with the decimal point after `point` of them. -/
def positional (l : DecimalLayout) (digits : List Char) (point : Int) : List Char :=
  if point ≤ 0 then ['0', '.'] ++ List.replicate point.natAbs '0' ++ digits
  else
    let n := point.toNat
    if n < digits.length then digits.take n ++ '.' :: digits.drop n
    else digits ++ List.replicate (n - digits.length) '0' ++ if l.pointZero then ['.', '0'] else []

/-- A layout's text of digits with an exponent, the point following the first digit. -/
def scientific (l : DecimalLayout) (digits : List Char) (exponent : Int) : List Char :=
  let fraction := match digits.drop 1 with
    | [] => []
    | rest => '.' :: rest
  let sign := if exponent < 0 then ['-'] else if l.plusSign then ['+'] else []
  digits.take 1 ++ fraction ++ 'e' :: sign ++ digitChars exponent.natAbs

/-- A layout's text of a positive decimal. -/
def text (l : DecimalLayout) (d : Decimal) : List Char :=
  let digits := digitChars d.digits
  let point := d.exponent + digits.length
  match l.range with
  | some (least, limit) =>
    if least < point ∧ point ≤ limit then l.positional digits point
    else l.scientific digits (point - 1)
  | none => l.positional digits point

/-- A layout's text of a value of format `f`, given by its sign and pattern. -/
def valueText (l : DecimalLayout) (f : BinaryFormat) (negative : Bool) (k : Nat) : String :=
  let sign := if negative then ['-'] else []
  if f.infinity < k then "NaN"
  else if k = f.infinity then String.ofList (sign ++ ['i', 'n', 'f'])
  else if k = 0 then String.ofList (sign ++ '0' :: if l.pointZero then ['.', '0'] else [])
  else String.ofList (sign ++ l.text (f.shortest l.tie k))

end DecimalLayout

end LedPattern
