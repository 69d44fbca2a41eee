import LedPattern.Number.Decimal

/-!
# Single precision numbers

The samples that patterns compute with. Sums, products and comparisons are those of `Float32`.
This module adds the rest: rounding down, the clamp to the unit interval, and decimal text.

Specification of `pgc`, section 4.2: all arithmetic of patterns is in single precision, in the order
of the expression trees.
-/

namespace LedPattern.Single

/-- The bit pattern of the magnitude. -/
def pattern (x : Float32) : Nat := x.toBits.toNat % BinaryFormat.binary32.signWeight

/-- Whether the sign bit is set. -/
def isNegative (x : Float32) : Bool := BinaryFormat.binary32.signWeight ≤ x.toBits.toNat

/-- The number with the given sign and magnitude pattern. -/
def ofPattern (negative : Bool) (k : Nat) : Float32 :=
  Float32.ofBits (UInt32.ofNat (if negative then BinaryFormat.binary32.signWeight + k else k))

/-- Whether the number is neither infinite nor undefined. -/
def isFinite (x : Float32) : Bool := pattern x < BinaryFormat.binary32.infinity

/-- Whether the number is one of the two infinities. -/
def isInfinite (x : Float32) : Bool := pattern x = BinaryFormat.binary32.infinity

/-- The single nearest to a decimal. -/
def ofDecimal (negative : Bool) (d : Decimal) : Float32 :=
  ofPattern negative (BinaryFormat.binary32.ofDecimal d)

/-- The single nearest to a natural number below `2 ^ 64`. -/
def ofNat (n : Nat) : Float32 := (UInt64.ofNat n).toFloat32

/-- The greatest integer that is not above the number. Beyond `2 ^ 23` every number is an
integer, and below one in magnitude only zero and minus one are left. In between, one step of the
integer is `2 ^ (150 - e)` steps of the pattern, where `e` is the biased exponent. -/
def floor (x : Float32) : Float32 :=
  let k := pattern x
  let e := k / BinaryFormat.binary32.binade
  let negative := isNegative x
  if 150 ≤ e then x
  else if e < 127 then
    if negative && k ≠ 0 then -1 else ofPattern negative 0
  else
    let step := 1 <<< (150 - e)
    let low := k - k % step
    ofPattern negative (if negative && low ≠ k then low + step else low)

/-- The nearest number in the unit interval. What is not a number, and a negative zero, stay. -/
def clamp01 (x : Float32) : Float32 := if x < 0 then 0 else if 1 < x then 1 else x

/-- Singles are written with the fewest digits that read back, positionally from `1e-4` up to
`1e16`, and always show a fractional digit there. -/
def layout : DecimalLayout := ⟨some (-4, 16), true, false, .up⟩

/-- The decimal text of a single. -/
def text (x : Float32) : String :=
  layout.valueText BinaryFormat.binary32 (isNegative x) (pattern x)

end LedPattern.Single
