import LedPattern.Artifact.Printer
import LedPattern.Artifact.Token
import LedPattern.Proofs.Rounding
import Mathlib

/-!
# Constants read back

The text of a finite single is read back as that single, bit for bit (`scan_literal`). There are
three steps. A single is determined by its sign and its pattern (`Single.ofPattern_pattern`), as it
is by its bits. The text of a decimal, in any layout, spells a decimal of the same value
(`DecimalLayout.text_spells`). And such a value is rounded to the pattern it was made from
(`BinaryFormat.ofDecimal_of_value`).

The library's lemmas about the bits of floating point numbers, such as `Float32.ofBits_toBits`, come
with all of Mathlib and with no single file of it.
-/

namespace LedPattern

namespace Single

/-- The sign and the pattern of a single determine it. -/
theorem ofPattern_pattern (x : Float32) :
    ofPattern (isNegative x) (pattern x) = x := by
  have hlt : x.toBits.toNat < 2 ^ 32 := x.toBits.toNat_lt
  have hweight : BinaryFormat.binary32.signWeight = 2 ^ 31 := by decide
  have hbits : (if isNegative x then BinaryFormat.binary32.signWeight + pattern x
      else pattern x) = x.toBits.toNat := by
    unfold isNegative pattern
    rw [hweight]
    by_cases hneg : 2 ^ 31 ≤ x.toBits.toNat
    · rw [decide_eq_true hneg, if_pos rfl]
      omega
    · rw [decide_eq_false hneg, if_neg (by decide)]
      omega
  rw [ofPattern, hbits, UInt32.ofNat_toNat, Float32.ofBits_toBits]

end Single

namespace Lexer

/-- A run of characters that all satisfy `p` ends where one does not. -/
theorem span_append {p : Char → Bool} {run rest : List Char} (hrun : ∀ c ∈ run, p c = true)
    (hrest : ∀ c ∈ rest.head?, p c = false) :
    (run ++ rest).takeWhile p = run ∧ (run ++ rest).dropWhile p = rest := by
  rw [List.takeWhile_append_of_pos hrun, List.dropWhile_append_of_pos hrun]
  cases rest with
  | nil => simp
  | cons c rest =>
    have hc : p c = false := hrest c rfl
    simp [hc]

/-- A run of at least one digit. -/
def IsDigits (cs : List Char) : Prop := cs ≠ [] ∧ ∀ c ∈ cs, c.isDigit = true

/-- The text of a fraction, and its digits. -/
inductive FractionText : List Char → List Char → Prop where
  | none : FractionText [] []
  | digits {cs : List Char} (h : IsDigits cs) : FractionText ('.' :: cs) cs

/-- The text of an exponent, and its value. -/
inductive ExponentText : List Char → Int → Prop where
  | none : ExponentText [] 0
  | bare {cs : List Char} (h : IsDigits cs) : ExponentText ('e' :: cs) (natOfDigits cs)
  | plus {cs : List Char} (h : IsDigits cs) : ExponentText ('e' :: '+' :: cs) (natOfDigits cs)
  | minus {cs : List Char} (h : IsDigits cs) : ExponentText ('e' :: '-' :: cs) (-natOfDigits cs)

/-- The text of a decimal without a sign, and the decimal. -/
inductive Spells : List Char → Decimal → Prop where
  | parts {whole fractionText fraction exponentText : List Char} {exponent : Int}
      (hwhole : IsDigits whole) (hfraction : FractionText fractionText fraction)
      (hexponent : ExponentText exponentText exponent) :
      Spells (whole ++ (fractionText ++ exponentText)) (Decimal.ofParts whole fraction exponent)

/-- Digits are neither signs nor marks. -/
theorem IsDigits.head {cs : List Char} (h : IsDigits cs) :
    ∃ c rest, cs = c :: rest ∧ c.isDigit = true := by
  obtain ⟨hne, hdigits⟩ := h
  obtain ⟨c, rest, rfl⟩ := List.exists_cons_of_ne_nil hne
  exact ⟨c, rest, rfl, hdigits c List.mem_cons_self⟩

/-- No sign is taken off digits. -/
theorem takeSign_digits {cs rest : List Char} (h : IsDigits cs) :
    Spelling.takeSign (cs ++ rest) = ([], cs ++ rest) := by
  obtain ⟨c, more, rfl, hc⟩ := h.head
  unfold Spelling.takeSign
  split
  · rename_i heq
    cases heq
    exact absurd hc (by decide)
  · rename_i heq
    cases heq
    exact absurd hc (by decide)
  · rfl

/-- A fraction is taken as a whole. -/
theorem takeFraction_append {text digits rest : List Char} (h : FractionText text digits)
    (hrest : ∀ c ∈ rest.head?, c.isDigit = false ∧ c ≠ '.') :
    takeFraction (text ++ rest) = (text, rest) := by
  cases h with
  | none =>
    unfold takeFraction
    split
    · rename_i heq
      exact absurd rfl (hrest '.' (by rw [← List.nil_append rest, heq]; rfl)).2
    · rfl
  | digits h =>
    obtain ⟨htake, hdrop⟩ := span_append h.2 fun c hc => (hrest c hc).1
    have hne : digits.isEmpty = false := by simpa using h.1
    simp only [List.cons_append, takeFraction, htake, hdrop, hne]
    rfl

/-- An exponent is taken as a whole. -/
theorem takeExponent_append {text rest : List Char} {e : Int} (h : ExponentText text e) :
    takeExponent (text ++ 'f' :: rest) = (text, 'f' :: rest) := by
  have hspan : ∀ cs, IsDigits cs → (cs ++ 'f' :: rest).takeWhile Char.isDigit = cs ∧
      (cs ++ 'f' :: rest).dropWhile Char.isDigit = 'f' :: rest := fun cs hcs =>
    span_append hcs.2 fun c hc => by
      obtain rfl : 'f' = c := Option.some.inj hc
      decide
  cases h with
  | none => simp [takeExponent]
  | bare h =>
    obtain ⟨htake, hdrop⟩ := hspan _ h
    have hne := h.1
    simp [takeExponent, takeSign_digits h, htake, hdrop, hne]
  | plus h =>
    obtain ⟨htake, hdrop⟩ := hspan _ h
    have hne := h.1
    simp [takeExponent, Spelling.takeSign, htake, hdrop, hne]
  | minus h =>
    obtain ⟨htake, hdrop⟩ := hspan _ h
    have hne := h.1
    simp [takeExponent, Spelling.takeSign, htake, hdrop, hne]

/-- The value of an exponent is found again. -/
theorem exponentValue_eq {text : List Char} {e : Int} (h : ExponentText text e) :
    exponentValue text = e := by
  cases h with
  | none => rfl
  | bare h =>
    rename_i cs
    have hsign : Spelling.takeSign (cs ++ []) = ([], cs ++ []) := takeSign_digits h
    rw [List.append_nil] at hsign
    simp [exponentValue, hsign]
  | plus h => rfl
  | minus h => rfl

/-- A number that ends in `f` is a constant with the value that its text spells. -/
theorem scanNumber_of_spells (sign rest : List Char) {cs : List Char} {d : Decimal}
    (h : Spells cs d) :
    (scanNumber sign (cs ++ 'f' :: rest)).piece =
        .token (.float (Single.ofDecimal (!sign.isEmpty) d)) ∧
      (scanNumber sign (cs ++ 'f' :: rest)).rest = rest := by
  cases h with
  | @parts whole fractionText fraction exponentText exponent hwhole hfraction hexponent =>
    -- After the exponent comes `f`, and after the fraction that or the mark of an exponent.
    have hafter : ∀ c ∈ (exponentText ++ 'f' :: rest).head?, c.isDigit = false ∧ c ≠ '.' := by
      intro c hc
      cases hexponent <;> cases hc <;> decide
    have hdigits : ∀ c ∈ (fractionText ++ (exponentText ++ 'f' :: rest)).head?,
        c.isDigit = false := by
      intro c hc
      cases hfraction with
      | none => exact (hafter c hc).1
      | digits =>
        cases hc
        decide
    obtain ⟨htake, hdrop⟩ := span_append hwhole.2 hdigits
    have hfractionDigits : fractionText.drop 1 = fraction := by
      cases hfraction <;> rfl
    simp only [List.append_assoc, scanNumber, htake, hdrop, takeFraction_append hfraction hafter,
      takeExponent_append hexponent, hfractionDigits, exponentValue_eq hexponent, and_self]

end Lexer

/-- Zeros in front of digits make no difference. -/
theorem natOfDigits_zeros_append (n : Nat) (cs : List Char) :
    natOfDigits (List.replicate n '0' ++ cs) = natOfDigits cs := by
  rw [natOfDigits_eq, natOfDigits_eq, Nat.ofDigitChars_append, Nat.ofDigitChars_replicate_zero,
    Nat.mul_zero]

/-- Zeros after digits multiply by powers of ten. -/
theorem natOfDigits_append_zeros (n : Nat) (cs : List Char) :
    natOfDigits (cs ++ List.replicate n '0') = 10 ^ n * natOfDigits cs := by
  rw [natOfDigits_eq, natOfDigits_eq, Nat.ofDigitChars_append, Nat.ofDigitChars_replicate_zero]

/-- The value of a number's parts. -/
theorem Decimal.value_ofParts (whole fraction : List Char) (exponent : Int) :
    (ofParts whole fraction exponent).value =
      natOfDigits (whole ++ fraction) * 10 ^ (exponent - fraction.length) := rfl

namespace DecimalLayout

open Lexer

variable {d : Decimal}

/-- A number in decimal notation is a run of digits. -/
theorem isDigits_digitChars (n : Nat) : IsDigits (digitChars n) :=
  ⟨digitChars_ne_nil n, fun _ h => isDigit_of_mem_digitChars h⟩

/-- Digits after digits are digits. -/
theorem isDigits_append {as bs : List Char} (ha : IsDigits as) (hb : ∀ c ∈ bs, c.isDigit = true) :
    IsDigits (as ++ bs) := by
  refine ⟨fun hnil => ha.1 (List.append_eq_nil_iff.1 hnil).1, fun c hc => ?_⟩
  exact (List.mem_append.1 hc).elim (ha.2 c) (hb c)

/-- Zeros are digits. -/
theorem isDigit_zeros (n : Nat) : ∀ c ∈ List.replicate n '0', c.isDigit = true := by
  intro c hc
  rw [List.eq_of_mem_replicate hc]
  decide

/-- Digits alone spell a number. -/
theorem spells_whole {whole : List Char} (hwhole : IsDigits whole) :
    Spells whole (.ofParts whole [] 0) := by
  have h := Spells.parts hwhole .none .none
  rwa [List.append_nil, List.append_nil] at h

/-- Digits around a point spell a number. -/
theorem spells_point {whole fraction : List Char} (hwhole : IsDigits whole)
    (hfraction : IsDigits fraction) :
    Spells (whole ++ '.' :: fraction) (.ofParts whole fraction 0) := by
  have h := Spells.parts hwhole (.digits hfraction) .none
  rwa [List.append_nil] at h

/-- A zero alone is a run of digits. -/
theorem isDigits_zero : IsDigits ['0'] := ⟨by simp, by simp⟩

/-- The text of an integer, with or without a fractional zero, spells its value. -/
theorem integer_spells (l : DecimalLayout) {cs : List Char} (hdigits : IsDigits cs) (zeros : Nat) :
    ∃ e, Spells (cs ++ List.replicate zeros '0' ++ if l.pointZero then ['.', '0'] else []) e ∧
      e.value = natOfDigits cs * 10 ^ zeros := by
  have hwhole := isDigits_append hdigits (isDigit_zeros zeros)
  have hvalue : (natOfDigits (cs ++ List.replicate zeros '0') : ℚ) =
      natOfDigits cs * 10 ^ zeros := by
    rw [natOfDigits_append_zeros]
    push_cast
    ring
  split
  · refine ⟨_, spells_point hwhole isDigits_zero, ?_⟩
    have hlast : natOfDigits (cs ++ List.replicate zeros '0' ++ ['0']) =
        10 ^ 1 * natOfDigits (cs ++ List.replicate zeros '0') := natOfDigits_append_zeros 1 _
    rw [Decimal.value_ofParts, hlast, ← hvalue]
    norm_num
    ring
  · rw [List.append_nil]
    refine ⟨_, spells_whole hwhole, ?_⟩
    rw [Decimal.value_ofParts, List.append_nil, ← hvalue]
    norm_num

/-- The text of a decimal without an exponent spells its value. -/
theorem positional_spells (l : DecimalLayout) (d : Decimal) :
    ∃ e, Spells (l.positional (digitChars d.digits)
      (d.exponent + (digitChars d.digits).length)) e ∧ e.value = d.value := by
  have hdigits := isDigits_digitChars d.digits
  have hread := natOfDigits_digitChars d.digits
  generalize digitChars d.digits = cs at hdigits hread
  unfold positional
  split
  · -- The point comes first, then zeros, then all digits.
    rename_i hpoint
    generalize hzeros : (d.exponent + (cs.length : Int)).natAbs = zeros
    have hfraction : IsDigits (List.replicate zeros '0' ++ cs) := by
      refine ⟨fun hnil => hdigits.1 (List.append_eq_nil_iff.1 hnil).2, fun c hc => ?_⟩
      exact (List.mem_append.1 hc).elim (isDigit_zeros zeros c) (hdigits.2 c)
    have hspells := spells_point isDigits_zero hfraction
    refine ⟨.ofParts ['0'] (List.replicate zeros '0' ++ cs) 0, by simpa using hspells, ?_⟩
    have hvalue : natOfDigits (['0'] ++ (List.replicate zeros '0' ++ cs)) = d.digits := by
      rw [← hread, ← natOfDigits_zeros_append (zeros + 1) cs, List.replicate_succ]
      rfl
    have hexp : (0 : Int) - (List.replicate zeros '0' ++ cs).length = d.exponent := by
      rw [List.length_append, List.length_replicate]
      omega
    rw [Decimal.value_ofParts, hvalue, hexp, Decimal.value]
  · rename_i hpoint
    dsimp only
    generalize hn : (d.exponent + (cs.length : Int)).toNat = n
    split
    · -- The point comes between the digits.
      rename_i hlt
      have hwhole : IsDigits (cs.take n) := by
        refine ⟨?_, fun c hc => hdigits.2 c (List.mem_of_mem_take hc)⟩
        rw [← List.length_pos_iff, List.length_take]
        omega
      have hfraction : IsDigits (cs.drop n) := by
        refine ⟨?_, fun c hc => hdigits.2 c (List.mem_of_mem_drop hc)⟩
        rw [← List.length_pos_iff, List.length_drop]
        omega
      refine ⟨_, spells_point hwhole hfraction, ?_⟩
      have hexp : (0 : Int) - (cs.drop n).length = d.exponent := by
        rw [List.length_drop]
        omega
      rw [Decimal.value_ofParts, List.take_append_drop, hread, hexp, Decimal.value]
    · -- The point, if there is one, comes after all digits and some zeros.
      rename_i hge
      obtain ⟨e, he, hvalue⟩ := integer_spells l hdigits (n - cs.length)
      have hexp : d.exponent = ((n - cs.length : Nat) : Int) := by omega
      exact ⟨e, he, by rw [hvalue, hread, Decimal.value, hexp, zpow_natCast]⟩

/-- The text of an exponent. -/
theorem exponentText_digits (plus : Bool) (e : Int) :
    ExponentText ('e' :: (if e < 0 then ['-'] else if plus then ['+'] else []) ++
      digitChars e.natAbs) e := by
  have hdigits := isDigits_digitChars e.natAbs
  have hread := natOfDigits_digitChars e.natAbs
  by_cases hneg : e < 0
  · have hvalue : e = -(natOfDigits (digitChars e.natAbs) : Int) := by omega
    rw [if_pos hneg]
    have h := ExponentText.minus hdigits
    rwa [← hvalue] at h
  · have hvalue : e = (natOfDigits (digitChars e.natAbs) : Int) := by omega
    rw [if_neg hneg]
    cases plus with
    | true =>
      have h := ExponentText.plus hdigits
      rwa [← hvalue] at h
    | false =>
      have h := ExponentText.bare hdigits
      rwa [← hvalue] at h

/-- The text of a decimal with an exponent spells its value. -/
theorem scientific_spells (l : DecimalLayout) (d : Decimal) :
    ∃ e, Spells (l.scientific (digitChars d.digits)
      (d.exponent + (digitChars d.digits).length - 1)) e ∧ e.value = d.value := by
  have hdigits := isDigits_digitChars d.digits
  have hread := natOfDigits_digitChars d.digits
  generalize digitChars d.digits = cs at hdigits hread
  obtain ⟨c, more, rfl, hc⟩ := hdigits.head
  have hfirst : IsDigits [c] := ⟨by simp, by simpa using hc⟩
  generalize hexp : d.exponent + ((c :: more).length : Int) - 1 = exponent
  have hexponent := exponentText_digits l.plusSign exponent
  have hvalue : (Decimal.ofParts [c] more exponent).value = d.value := by
    have hshift : exponent - (more.length : Int) = d.exponent := by
      rw [List.length_cons] at hexp
      omega
    rw [Decimal.value_ofParts, List.singleton_append, hread, hshift, Decimal.value]
  refine ⟨_, ?_, hvalue⟩
  -- The fraction is all but the first digit.
  cases more with
  | nil => simpa [scientific] using Spells.parts hfirst .none hexponent
  | cons b rest =>
    have hfraction : IsDigits (b :: rest) :=
      ⟨by simp, fun x hx => hdigits.2 x (List.mem_cons_of_mem _ hx)⟩
    simpa [scientific] using Spells.parts hfirst (.digits hfraction) hexponent

/-- The text of a decimal spells its value. -/
theorem text_spells (l : DecimalLayout) (d : Decimal) :
    ∃ e, Spells (l.text d) e ∧ e.value = d.value := by
  unfold text
  dsimp only
  split
  · split
    · exact positional_spells l d
    · exact scientific_spells l d
  · exact positional_spells l d

end DecimalLayout

/-- The text of a finite single without its sign spells a decimal that is rounded to its pattern. -/
theorem Single.magnitude_spells {x : Float32} (hx : isFinite x = true) :
    ∃ cs d, text x = String.ofList ((if isNegative x then ['-'] else []) ++ cs) ∧
      Lexer.Spells cs d ∧ BinaryFormat.binary32.ofDecimal d = pattern x := by
  have hfin : pattern x < BinaryFormat.binary32.infinity := by simpa [isFinite] using hx
  unfold text DecimalLayout.valueText
  dsimp only
  rw [if_neg (by omega), if_neg (by omega)]
  split
  · rename_i hzero
    refine ⟨['0', '.', '0'], .ofParts ['0'] ['0'] 0, rfl, ?_, ?_⟩
    · exact DecimalLayout.spells_point DecimalLayout.isDigits_zero DecimalLayout.isDigits_zero
    · rw [hzero]
      decide
  · rename_i hpos
    obtain ⟨d, hd, hvalue⟩ :=
      layout.text_spells (BinaryFormat.binary32.shortest layout.tie (pattern x))
    refine ⟨_, d, rfl, hd, ?_⟩
    exact BinaryFormat.ofDecimal_of_value BinaryFormat.binary32_regular layout.tie
      (Nat.pos_of_ne_zero hpos) hfin hvalue

/-- A text that spells a decimal starts with a digit. -/
theorem Lexer.Spells.head {cs : List Char} {d : Decimal} (h : Lexer.Spells cs d) :
    ∃ c rest, cs = c :: rest ∧ c.isDigit = true := by
  cases h with
  | parts hwhole =>
    obtain ⟨c, rest, rfl, hc⟩ := hwhole.head
    exact ⟨c, _, rfl, hc⟩

/-- A digit starts neither blanks nor a comment. -/
theorem Lexer.scan_digit {c : Char} (hc : c.isDigit = true) (cs : List Char) :
    scan c cs = scanNumber [] (c :: cs) := by
  have hblank : isBlank c = false := by
    unfold isBlank
    simp only [Bool.or_eq_false_iff, decide_eq_false_iff_not]
    refine ⟨⟨⟨?_, ?_⟩, ?_⟩, ?_⟩ <;> rintro rfl <;> exact absurd hc (by decide)
  have hcomment : startsComment (c :: cs) = false := by
    unfold startsComment
    split
    · rename_i heq
      cases heq
      exact absurd hc (by decide)
    · rename_i heq
      cases heq
      exact absurd hc (by decide)
    · rfl
  rw [scan, if_neg (by simp [hblank]), if_neg (by simp [hcomment]), if_pos hc]

/-- The text of a finite constant is scanned as the constant, whatever follows. -/
theorem Lexer.scan_literal {x : Float32} (hx : Single.isFinite x = true) (rest : List Char) :
    ∃ c cs, (Artifact.literalText x).toList ++ rest = c :: cs ∧
      (scan c cs).piece = .token (.float x) ∧ (scan c cs).rest = rest := by
  obtain ⟨text, d, htext, hspells, hround⟩ := Single.magnitude_spells hx
  obtain ⟨digit, more, rfl, hdigit⟩ := hspells.head
  have hvalue : Single.ofDecimal (Single.isNegative x) d = x := by
    rw [Single.ofDecimal, hround, Single.ofPattern_pattern]
  have hchars : (Artifact.literalText x).toList ++ rest =
      (if Single.isNegative x then ['-'] else []) ++ (digit :: more ++ 'f' :: rest) := by
    rw [Artifact.literalText, htext]
    simp
  rw [hchars]
  -- The sign is a character of its own, after which the digits are the same.
  cases hneg : Single.isNegative x with
  | false =>
    obtain ⟨hpiece, hrest⟩ := scanNumber_of_spells [] rest hspells
    rw [hneg] at hvalue
    refine ⟨digit, more ++ 'f' :: rest, rfl, ?_, ?_⟩
    · rw [scan_digit hdigit, ← hvalue]
      exact hpiece
    · rw [scan_digit hdigit]
      exact hrest
  | true =>
    obtain ⟨hpiece, hrest⟩ := scanNumber_of_spells ['-'] rest hspells
    rw [hneg] at hvalue
    have hscan : scan '-' (digit :: more ++ 'f' :: rest) =
        scanNumber ['-'] (digit :: more ++ 'f' :: rest) := by
      rw [scan, if_neg (by decide), if_neg (by simp [startsComment]), if_neg (by decide), if_pos]
      exact ⟨rfl, by simpa using hdigit⟩
    refine ⟨'-', digit :: more ++ 'f' :: rest, rfl, ?_, ?_⟩
    · rw [hscan, ← hvalue]
      exact hpiece
    · rw [hscan]
      exact hrest

end LedPattern
