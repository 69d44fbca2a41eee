/-!
# Binary floating point formats

A format lists its non-negative values by their bit patterns: the patterns below the one for
infinity are ordered as the values are. The distance between the two least values is the *unit*
of the format, and every finite value is a natural number of units, so rounding and comparison
need natural numbers only.

* `BinaryFormat.units` counts the units of a pattern.
* `BinaryFormat.floorPattern` is the last pattern that does not exceed a number of units.
* `BinaryFormat.nearest` rounds a fraction of units, a tie going to the even pattern.
-/

namespace LedPattern

/-- A binary interchange format: the number of significant bits, the leading one included, and
the number of exponent bits. -/
structure BinaryFormat where
  precision : Nat
  exponentBits : Nat

namespace BinaryFormat

/-- The format of 32 bits. -/
def binary32 : BinaryFormat := ⟨24, 8⟩

/-- The format of 64 bits. -/
def binary64 : BinaryFormat := ⟨53, 11⟩

/-- The unit of the format is `2 ^ (-scale)`. -/
def scale (f : BinaryFormat) : Nat := Nat.pow 2 (f.exponentBits - 1) + f.precision - 3

/-- The number of patterns that share one exponent. -/
def binade (f : BinaryFormat) : Nat := Nat.pow 2 (f.precision - 1)

/-- The pattern of infinity. Larger patterns are no numbers. -/
def infinity (f : BinaryFormat) : Nat := (Nat.pow 2 f.exponentBits - 1) * f.binade

/-- The weight of the sign bit. -/
def signWeight (f : BinaryFormat) : Nat := Nat.pow 2 f.exponentBits * f.binade

/-- The number of units in the value of pattern `k`. In the first two binades one step of the
pattern is one unit, and from then on the step doubles with each binade. -/
def units (f : BinaryFormat) (k : Nat) : Nat :=
  if k < f.binade then k else (f.binade + k % f.binade) <<< (k / f.binade - 1)

/-- The last pattern whose value is at most `t` units. -/
def floorPattern (f : BinaryFormat) (t : Nat) : Nat :=
  let shift := t.log2 + 1 - f.precision
  shift * f.binade + t >>> shift

/-- The pattern nearest to `num / den` units. A number halfway between two patterns goes to the
even one, and one that is past the last finite value by half a step or more goes to infinity. -/
def nearest (f : BinaryFormat) (num den : Nat) : Nat :=
  let low := f.floorPattern (num / den)
  let middle := den * (f.units low + f.units (low + 1))
  let up := middle < 2 * num ∨ (middle = 2 * num ∧ low % 2 = 1)
  min f.infinity (if up then low + 1 else low)

end BinaryFormat

end LedPattern
