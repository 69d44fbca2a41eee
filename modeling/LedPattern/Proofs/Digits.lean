import LedPattern.Number.Decimal

/-!
# Runs of digits

A number and its decimal notation determine each other. `natOfDigits_digitChars` reads the notation
back, and `digitChars_injective` is what the naming of buffers needs of it.
-/

namespace LedPattern

/-- The value of a run of digits, by the library's function. -/
theorem natOfDigits_eq (cs : List Char) : natOfDigits cs = Nat.ofDigitChars 10 cs 0 :=
  (Nat.ofDigitChars_eq_foldl).symm

/-- Reading a number in decimal notation gives the number back. -/
@[simp]
theorem natOfDigits_digitChars (n : Nat) : natOfDigits (digitChars n) = n := by
  rw [natOfDigits_eq, digitChars, Nat.ofDigitChars_ten_toDigits]

/-- Different numbers have different notations. -/
theorem digitChars_injective {m n : Nat} (h : digitChars m = digitChars n) : m = n := by
  rw [← natOfDigits_digitChars m, h, natOfDigits_digitChars]

/-- A number in decimal notation consists of digits. -/
theorem isDigit_of_mem_digitChars {n : Nat} {c : Char} (h : c ∈ digitChars n) : c.isDigit = true :=
  Nat.isDigit_of_mem_toDigits (by omega) (by omega) h

/-- A number in decimal notation has a digit. -/
theorem digitChars_ne_nil (n : Nat) : digitChars n ≠ [] := Nat.toDigits_ne_nil

/-- The characters of a number in decimal notation. -/
@[simp]
theorem toList_natText (n : Nat) : (natText n).toList = digitChars n := String.toList_ofList

end LedPattern
