import LedPattern.Number.Single

/-!
# Double precision numbers

The numbers of a graph description. They are composed of a significand and a power of ten, tested
for integrality, narrowed to single precision, and written in three notations.
-/

namespace LedPattern.Double

/-- The bit pattern of the magnitude. -/
def pattern (x : Float) : Nat := x.toBits.toNat % BinaryFormat.binary64.signWeight

/-- Whether the sign bit is set. -/
def isNegative (x : Float) : Bool := BinaryFormat.binary64.signWeight ≤ x.toBits.toNat

/-- The number with the given sign and magnitude pattern. -/
def ofPattern (negative : Bool) (k : Nat) : Float :=
  Float.ofBits (UInt64.ofNat (if negative then BinaryFormat.binary64.signWeight + k else k))

/-- Whether the number is neither infinite nor undefined. -/
def isFinite (x : Float) : Bool := pattern x < BinaryFormat.binary64.infinity

/-- The double nearest to a decimal. -/
def ofDecimal (negative : Bool) (d : Decimal) : Float :=
  ofPattern negative (BinaryFormat.binary64.ofDecimal d)

/-- The double nearest to an integer. -/
def ofInt (i : Int) : Float := ofDecimal (i < 0) ⟨i.natAbs, 0⟩

/-- The double nearest to a power of ten. -/
def tenTo (n : Nat) : Float := ofDecimal false ⟨1, n⟩

/-- The last power of ten that is a finite double. -/
def lastPower : Nat := 308

/-- Divides by the last power of ten for a number of rounds, or until zero is left. -/
def divideRounds (x : Float) : Nat → Float
  | 0 => x
  | rounds + 1 => if x == 0 then x else divideRounds (x / tenTo lastPower) rounds

/-- The double that is composed of a decimal, unless that is out of range. It need not be the
nearest one: the digits are rounded, then the power of ten, and then their product or quotient. A
power of ten that is no double is divided off in rounds, each of which rounds once more. -/
def compose? (d : Decimal) : Option Float :=
  let x := ofDecimal false ⟨d.digits, 0⟩
  let size := d.exponent.natAbs
  if d.exponent < 0 then
    let rounds := (size - 1) / lastPower
    some (divideRounds x rounds / tenTo (size - lastPower * rounds))
  else if size ≤ lastPower then
    let y := x * tenTo size
    if isFinite y then some y else none
  else if d.digits = 0 then some x
  else none

/-- The natural number that equals `x`, if there is one. -/
def toNat? (x : Float) : Option Nat :=
  let units := BinaryFormat.binary64.units (pattern x)
  let one := Nat.pow 2 BinaryFormat.binary64.scale
  if isFinite x && !(isNegative x && pattern x ≠ 0) && units % one = 0 then some (units / one)
  else none

/-- The single nearest to a double. -/
def narrow (x : Float) : Float32 :=
  let k := pattern x
  Single.ofPattern (isNegative x) <|
    if BinaryFormat.binary64.infinity < k then BinaryFormat.binary32.infinity + 1
    else if k = BinaryFormat.binary64.infinity then BinaryFormat.binary32.infinity
    else BinaryFormat.binary32.nearest (BinaryFormat.binary64.units k)
      (Nat.pow 2 (BinaryFormat.binary64.scale - BinaryFormat.binary32.scale))

/-- Doubles quoted in a diagnostic as values look like singles. -/
def layout : DecimalLayout := Single.layout

/-- Doubles quoted in a diagnostic as numbers have no exponent and no needless zero. -/
def plainLayout : DecimalLayout := ⟨none, false, false, .up⟩

/-- The decimal text of a double as a value. -/
def text (x : Float) : String :=
  layout.valueText BinaryFormat.binary64 (isNegative x) (pattern x)

/-- The decimal text of a double as a number. -/
def plainText (x : Float) : String :=
  plainLayout.valueText BinaryFormat.binary64 (isNegative x) (pattern x)

end LedPattern.Double
