import LedPattern.Proofs.Digits
import Mathlib.Algebra.Order.Field.Power
import Mathlib.Tactic.FieldSimp
import Mathlib.Tactic.Linarith
import Mathlib.Tactic.Positivity
import Mathlib.Tactic.Ring

/-!
# Rounding decimals

The shortest decimal of a pattern rounds back to the pattern (`ofDecimal_of_value`). The values of
a format grow strictly with their patterns (`units_strictMono`), and `floorPattern` finds the last
that does not exceed a number, so a number between the middles towards the neighbours of a pattern
is rounded to it (`nearest_of_pulls`). `BinaryFormat.Pulls` says this of a rational number of
units, and `attracts` decides it. Whatever decimal `shortest` picks lies between the middles
(`pulls_shortest`): one found on a grid has been tested, and the exact value lies there anyway.
-/

namespace LedPattern

/-- The rational number that a decimal stands for. -/
def Decimal.value (d : Decimal) : ℚ := d.digits * 10 ^ d.exponent

/-- Zeros at the end of the digits make no difference. -/
theorem Decimal.value_trimZeros (fuel : Nat) (d : Decimal) :
    (d.trimZeros fuel).value = d.value := by
  induction fuel generalizing d with
  | zero => rfl
  | succ fuel ih =>
    unfold trimZeros
    split
    · rename_i hzero
      obtain ⟨m, hm⟩ := Nat.dvd_of_mod_eq_zero hzero.2
      rw [ih, value, value, hm, Nat.mul_div_cancel_left m (by decide), zpow_add_one₀ (by norm_num)]
      push_cast
      ring
    · rfl

/-- A number has as many digits as its size says. -/
theorem digitCount_bounds {n : Nat} (hn : 0 < n) :
    10 ^ (digitCount n - 1) ≤ n ∧ n < 10 ^ digitCount n := by
  have hpos : 0 < digitCount n := List.length_pos_iff.2 (digitChars_ne_nil n)
  have hlength : ∀ k, 0 < k → (digitCount n ≤ k ↔ n < 10 ^ k) := fun k hk =>
    Nat.length_toDigits_le_iff (by decide) hk
  refine ⟨?_, (hlength _ hpos).1 (Nat.le_refl _)⟩
  by_contra hlt
  rcases Nat.eq_zero_or_pos (digitCount n - 1) with hzero | hmore
  · rw [hzero] at hlt
    omega
  · have hshort := (hlength _ hmore).2 (by omega)
    omega

/-- The position of a decimal's first digit bounds its value from both sides. -/
theorem Decimal.value_bounds {d : Decimal} (hd : 0 < d.digits) :
    (10 : ℚ) ^ (d.exponent + digitCount d.digits - 1) ≤ d.value ∧
      d.value < (10 : ℚ) ^ (d.exponent + digitCount d.digits) := by
  obtain ⟨hlow, hhigh⟩ := digitCount_bounds hd
  have hpos : 0 < digitCount d.digits := List.length_pos_iff.2 (digitChars_ne_nil _)
  have hten : (0 : ℚ) < 10 ^ d.exponent := zpow_pos (by norm_num) _
  have hlow' : (10 : ℚ) ^ (digitCount d.digits - 1) ≤ d.digits := by exact_mod_cast hlow
  have hhigh' : (d.digits : ℚ) < 10 ^ digitCount d.digits := by exact_mod_cast hhigh
  constructor
  · have hexp : d.exponent + digitCount d.digits - 1 =
        ((digitCount d.digits - 1 : Nat) : Int) + d.exponent := by omega
    rw [hexp, zpow_add₀ (by norm_num), zpow_natCast, value]
    exact mul_le_mul_of_nonneg_right hlow' hten.le
  · rw [add_comm, zpow_add₀ (by norm_num), zpow_natCast, value]
    exact mul_lt_mul_of_pos_right hhigh' hten

namespace BinaryFormat

variable {f : BinaryFormat} {k : Nat}

/-- A binade holds patterns. -/
theorem binade_pos (f : BinaryFormat) : 0 < f.binade := Nat.two_pow_pos _

/-- The value of a pattern, given by the number of a binade and a number of steps. A count of steps
that reaches the next binade is allowed for. -/
theorem units_mul_add {s m : Nat} (hm : f.binade ≤ m ∨ s = 0) (hle : m ≤ 2 * f.binade) :
    f.units (s * f.binade + m) = m * 2 ^ s := by
  have hpos := f.binade_pos
  unfold units
  by_cases hlt : m < f.binade
  · obtain rfl : s = 0 := hm.resolve_left (by omega)
    rw [if_pos (by omega)]
    simp
  · obtain ⟨r, rfl⟩ : ∃ r, m = f.binade + r := ⟨m - f.binade, by omega⟩
    have hk : s * f.binade + (f.binade + r) = r + f.binade * (s + 1) := by ring
    rw [hk, if_neg (by nlinarith), Nat.add_mul_mod_self_left, Nat.add_mul_div_left _ _ hpos,
      Nat.shiftLeft_eq]
    rcases Nat.lt_or_ge r f.binade with hr | hr
    · rw [Nat.mod_eq_of_lt hr, Nat.div_eq_of_lt hr]
      congr 2
      omega
    · -- The steps reach the first pattern of the next binade, where a step is twice as long.
      obtain rfl : r = f.binade := by omega
      have hshift : f.binade / f.binade + (s + 1) - 1 = s + 1 := by
        rw [Nat.div_self hpos]
        omega
      rw [Nat.mod_self, hshift, pow_succ]
      ring

/-- Every pattern lies in a binade. -/
theorem exists_steps (f : BinaryFormat) (k : Nat) :
    ∃ s m, k = s * f.binade + m ∧ (f.binade ≤ m ∨ s = 0) ∧ m < 2 * f.binade := by
  have hpos := f.binade_pos
  by_cases hk : k < f.binade
  · exact ⟨0, k, by omega, .inr rfl, by omega⟩
  · have hmod := Nat.mod_lt k hpos
    have hdiv : 1 ≤ k / f.binade := (Nat.one_le_div_iff hpos).2 (by omega)
    refine ⟨k / f.binade - 1, f.binade + k % f.binade, ?_, .inl (by omega), by omega⟩
    obtain ⟨q, hq⟩ : ∃ q, k / f.binade = q + 1 := ⟨k / f.binade - 1, by omega⟩
    have hsplit := Nat.div_add_mod k f.binade
    rw [hq] at hsplit ⊢
    rw [Nat.add_sub_cancel]
    linarith

/-- The next pattern has a greater value. -/
theorem units_lt_succ (f : BinaryFormat) (k : Nat) : f.units k < f.units (k + 1) := by
  obtain ⟨s, m, rfl, hm, hlt⟩ := f.exists_steps k
  rw [Nat.add_assoc, units_mul_add hm (by omega), units_mul_add (by omega) (by omega)]
  exact Nat.mul_lt_mul_of_pos_right (Nat.lt_succ_self m) (Nat.two_pow_pos s)

/-- Values grow with their patterns. -/
theorem units_strictMono (f : BinaryFormat) : StrictMono f.units :=
  strictMono_nat_of_lt_succ f.units_lt_succ

/-- The pattern that `floorPattern` finds is the last whose value does not exceed the number. -/
theorem floorPattern_spec (hf : 1 ≤ f.precision) (t : Nat) :
    f.units (f.floorPattern t) ≤ t ∧ t < f.units (f.floorPattern t + 1) := by
  have hbinade : 2 * f.binade = 2 ^ f.precision := by
    rw [binade, Nat.pow_eq, ← Nat.pow_succ']
    congr 1
    omega
  unfold floorPattern
  dsimp only
  generalize hshift : t.log2 + 1 - f.precision = s
  rw [Nat.shiftRight_eq_div_pow]
  -- The leading bits of the number are the steps within the binade.
  have hsteps : (f.binade ≤ t / 2 ^ s ∨ s = 0) ∧ t / 2 ^ s < 2 * f.binade := by
    rw [hbinade, Nat.div_lt_iff_lt_mul (Nat.two_pow_pos s), ← Nat.pow_add]
    rcases Nat.eq_zero_or_pos t with rfl | ht
    · refine ⟨.inr ?_, Nat.two_pow_pos _⟩
      rw [Nat.log2_zero] at hshift
      omega
    · have hlog : 2 ^ t.log2 ≤ t := Nat.log2_self_le (by omega)
      have hlog' : t < 2 ^ (t.log2 + 1) := Nat.lt_log2_self
      constructor
      · by_cases hs : s = 0
        · exact .inr hs
        · refine .inl ((Nat.le_div_iff_mul_le (Nat.two_pow_pos s)).2 ?_)
          have hexp : f.precision - 1 + s = t.log2 := by omega
          rw [binade, Nat.pow_eq, ← Nat.pow_add, hexp]
          exact hlog
      · exact Nat.lt_of_lt_of_le hlog' (Nat.pow_le_pow_right (by decide) (by omega))
  rw [units_mul_add hsteps.1 (by omega), Nat.add_assoc, units_mul_add (by omega) (by omega)]
  exact ⟨Nat.div_mul_le_self _ _,
    (Nat.div_lt_iff_lt_mul (Nat.two_pow_pos s)).1 (Nat.lt_succ_self _)⟩

/-- A number of `t` units lies between the middles from pattern `k` towards its two neighbours. The
middles themselves belong to even patterns. -/
def Pulls (f : BinaryFormat) (k : Nat) (t : ℚ) : Prop :=
  (f.units (k - 1) + f.units k ≤ 2 * t ∧ 2 * t ≤ f.units k + f.units (k + 1)) ∧
    (k % 2 = 1 → f.units (k - 1) + f.units k < 2 * t ∧ 2 * t < f.units k + f.units (k + 1))

/-- The value of a pattern lies between the middles towards its neighbours. -/
theorem pulls_units (hk : 0 < k) : f.Pulls k (f.units k) := by
  have hlow : f.units (k - 1) < f.units k := f.units_strictMono (by omega)
  have hhigh : f.units k < f.units (k + 1) := f.units_lt_succ k
  have hlow' : (f.units (k - 1) : ℚ) < f.units k := by exact_mod_cast hlow
  have hhigh' : (f.units k : ℚ) < f.units (k + 1) := by exact_mod_cast hhigh
  exact ⟨⟨by linarith, by linarith⟩, fun _ => ⟨by linarith, by linarith⟩⟩

/-- A number between the middles lies in the step that ends at the pattern, or in the one that
starts there. -/
theorem Pulls.step_cases (hk : 0 < k) {t : ℚ} (h : f.Pulls k t) {low : Nat}
    (hle : (f.units low : ℚ) ≤ t) (hlt : t < f.units (low + 1)) : low = k - 1 ∨ low = k := by
  obtain ⟨⟨hlow, hhigh⟩, -⟩ := h
  have hcast : ∀ i j : Nat, (f.units i : ℚ) < f.units j ↔ i < j := fun i j => by
    rw [Nat.cast_lt, f.units_strictMono.lt_iff_lt]
  have hbefore : k - 1 < low + 1 := by
    rw [← hcast]
    have hstep : (f.units (k - 1) : ℚ) < f.units k := (hcast _ _).2 (by omega)
    linarith
  have hafter : low < k + 1 := by
    rw [← hcast]
    have hstep : (f.units k : ℚ) < f.units (k + 1) := (hcast _ _).2 (by omega)
    linarith
  omega

/-- A number between the middles is rounded to the pattern. -/
theorem nearest_of_pulls (hf : 1 ≤ f.precision) (hk : 0 < k) (hfin : k < f.infinity) {num den : Nat}
    (hden : 0 < den) (h : f.Pulls k (num / den)) : f.nearest num den = k := by
  have hden' : (0 : ℚ) < den := by exact_mod_cast hden
  obtain ⟨hfloor, hceil⟩ := f.floorPattern_spec hf (num / den)
  unfold nearest
  dsimp only
  generalize f.floorPattern (num / den) = low at hfloor hceil
  -- The number lies between the values of `low` and of the next pattern.
  have hle : (f.units low : ℚ) ≤ num / den := by
    rw [le_div_iff₀ hden']
    exact_mod_cast (Nat.le_div_iff_mul_le hden).1 hfloor
  have hlt : (num / den : ℚ) < f.units (low + 1) := by
    rw [div_lt_iff₀ hden']
    exact_mod_cast (Nat.div_lt_iff_lt_mul hden).1 hceil
  have hmiddle : (den * (f.units low + f.units (low + 1)) < 2 * num) ↔
      (f.units low + f.units (low + 1) : ℚ) < 2 * (num / den) := by
    rw [← mul_div_assoc, lt_div_iff₀ hden', mul_comm]
    exact_mod_cast Iff.rfl
  have htie : (den * (f.units low + f.units (low + 1)) = 2 * num) ↔
      (f.units low + f.units (low + 1) : ℚ) = 2 * (num / den) := by
    rw [← mul_div_assoc, eq_div_iff hden'.ne', mul_comm]
    exact_mod_cast Iff.rfl
  have hcases := h.step_cases hk hle hlt
  obtain ⟨⟨hlow, hhigh⟩, hodd⟩ := h
  rcases hcases with rfl | rfl
  · -- From the one before, the number lies past the middle, or on it and `low` is odd.
    rw [Nat.sub_add_cancel hk] at *
    rw [if_pos, Nat.min_eq_right (by omega)]
    rcases hlow.lt_or_eq with hpast | hon
    · exact .inl (hmiddle.2 hpast)
    · refine .inr ⟨htie.2 hon, ?_⟩
      by_contra heven
      have hstrict := (hodd (by omega)).1
      linarith
  · -- From the pattern itself, it lies before the middle, or on it and the pattern is even.
    rw [if_neg, Nat.min_eq_right (by omega)]
    rintro (hpast | ⟨hon, hparity⟩)
    · have hpast' := hmiddle.1 hpast
      linarith
    · have hon' := htie.1 hon
      have hstrict := (hodd hparity).2
      linarith

/-- `attracts` decides whether a number lies between the middles. -/
theorem pulls_of_attracts {x : Nat} (h : f.attracts k x = true) :
    f.Pulls k (x / 5 ^ f.scale) := by
  have hpos : (0 : ℚ) < 5 ^ f.scale := by positivity
  unfold attracts exactDigits at h
  simp only [Nat.pow_eq] at h
  unfold Pulls
  rw [← mul_div_assoc, le_div_iff₀ hpos, div_le_iff₀ hpos, lt_div_iff₀ hpos, div_lt_iff₀ hpos]
  split at h
  · rename_i heven
    simp only [Bool.and_eq_true, decide_eq_true_eq] at h
    refine ⟨⟨?_, ?_⟩, fun hodd => absurd hodd (by omega)⟩
    · rw [add_mul]
      exact_mod_cast h.1
    · rw [add_mul]
      exact_mod_cast h.2
  · simp only [Bool.and_eq_true, decide_eq_true_eq] at h
    have hlow : (f.units (k - 1) + f.units k : ℚ) * 5 ^ f.scale < 2 * x := by
      rw [add_mul]
      exact_mod_cast h.1
    have hhigh : (2 * x : ℚ) < (f.units k + f.units (k + 1)) * 5 ^ f.scale := by
      rw [add_mul]
      exact_mod_cast h.2
    exact ⟨⟨hlow.le, hhigh.le⟩, fun _ => ⟨hlow, hhigh⟩⟩

/-- A decimal on the grid of steps `10 ^ drop` of the format's own decimals, in units. -/
theorem value_grid (f : BinaryFormat) (digits drop : Nat) :
    (⟨digits, (drop : Int) - f.scale⟩ : Decimal).value * 2 ^ f.scale =
      (digits * 10 ^ drop : Nat) / 5 ^ f.scale := by
  have hten : (10 : ℚ) ^ f.scale = 2 ^ f.scale * 5 ^ f.scale := by
    rw [← mul_pow]
    norm_num
  rw [Decimal.value, zpow_sub₀ (by norm_num), zpow_natCast, zpow_natCast, hten]
  push_cast
  field_simp

/-- What is found on a grid lies between the middles. -/
theorem pulls_onGrid {tie : Tie} {n : Nat} {d : Decimal} (h : f.onGrid tie k n = some d) :
    f.Pulls k (d.value * 2 ^ f.scale) := by
  unfold onGrid at h
  simp only [Nat.pow_eq] at h
  generalize digitCount (f.exactDigits k) - n = drop at h
  generalize f.exactDigits k / 10 ^ drop = below at h
  -- Either neighbour on the grid is taken only if it has been tested.
  have hcases : (d = ⟨below, (drop : Int) - f.scale⟩ ∧ f.attracts k (below * 10 ^ drop) = true) ∨
      (d = ⟨below + 1, (drop : Int) - f.scale⟩ ∧
        f.attracts k ((below + 1) * 10 ^ drop) = true) := by
    split at h
    · rename_i hbelow habove
      split at h
      · exact .inl ⟨(Option.some.inj h).symm, hbelow⟩
      · split at h
        · exact .inr ⟨(Option.some.inj h).symm, habove⟩
        · split at h
          · exact .inr ⟨(Option.some.inj h).symm, habove⟩
          · split at h
            · exact .inl ⟨(Option.some.inj h).symm, hbelow⟩
            · exact .inr ⟨(Option.some.inj h).symm, habove⟩
    · rename_i hbelow _
      exact .inl ⟨(Option.some.inj h).symm, hbelow⟩
    · rename_i _ habove
      exact .inr ⟨(Option.some.inj h).symm, habove⟩
    · cases h
  rcases hcases with ⟨rfl, hattracts⟩ | ⟨rfl, hattracts⟩
  · rw [value_grid]
    exact pulls_of_attracts hattracts
  · rw [value_grid]
    exact pulls_of_attracts hattracts

/-- The shortest decimal of a pattern lies between the middles. -/
theorem pulls_shortest (tie : Tie) (hk : 0 < k) :
    f.Pulls k ((f.shortest tie k).value * 2 ^ f.scale) := by
  unfold shortest
  dsimp only
  rw [Decimal.value_trimZeros]
  rcases hfound : (List.range f.enoughDigits).findSome? (fun n => f.onGrid tie k (n + 1)) with _ | d
  · -- If no grid has one, the exact value is taken.
    have hexact := value_grid f (f.exactDigits k) 0
    rw [Nat.cast_zero, zero_sub, pow_zero, Nat.mul_one, exactDigits, Nat.pow_eq] at hexact
    rw [Option.getD_none, exactDigits, Nat.pow_eq, hexact]
    push_cast
    rw [mul_div_cancel_right₀ _ (by positivity)]
    exact pulls_units hk
  · obtain ⟨n, -, hn⟩ := List.exists_of_findSome?_eq_some hfound
    exact pulls_onGrid hn

/-- A format in which numbers need no more digits before the point than after it. -/
structure Regular (f : BinaryFormat) : Prop where
  precision_pos : 1 ≤ f.precision
  bounded : f.units f.infinity < 10 ^ (f.scale + 1) * 2 ^ f.scale

/-- The format of 32 bits is regular. -/
theorem binary32_regular : binary32.Regular := ⟨by decide, by decide +kernel⟩

/-- A number that a pattern of a finite value pulls is neither too small nor too large for the
format. -/
theorem Pulls.bounds (hk : 0 < k) (hfin : k < f.infinity) {t : ℚ} (h : f.Pulls k t) :
    1 ≤ 2 * t ∧ t ≤ f.units f.infinity := by
  have hunit : 1 ≤ f.units k := Nat.lt_of_le_of_lt (Nat.zero_le _) (f.units_strictMono hk)
  have hunit' : (1 : ℚ) ≤ f.units k := by exact_mod_cast hunit
  have hnonneg : (0 : ℚ) ≤ f.units (k - 1) := by positivity
  have hlast : (f.units k : ℚ) ≤ f.units f.infinity := by
    exact_mod_cast f.units_strictMono.monotone hfin.le
  have hlast' : (f.units (k + 1) : ℚ) ≤ f.units f.infinity := by
    exact_mod_cast f.units_strictMono.monotone hfin
  obtain ⟨⟨hlow, hhigh⟩, -⟩ := h
  exact ⟨by linarith, by linarith⟩

/-- A decimal that a pattern pulls is not zero. -/
theorem Pulls.digits_pos (hk : 0 < k) (hfin : k < f.infinity) {d : Decimal}
    (h : f.Pulls k (d.value * 2 ^ f.scale)) : 0 < d.digits := by
  obtain ⟨hsmall, -⟩ := h.bounds hk hfin
  rcases Nat.eq_zero_or_pos d.digits with hzero | hpos
  · rw [Decimal.value, hzero] at hsmall
    norm_num at hsmall
  · exact hpos

/-- The first digit of a number that is not too small is not too far behind the point. -/
theorem neg_scale_le_top {x : ℚ} {top : Int} (hx : x < 10 ^ top)
    (hsmall : 1 ≤ 2 * (x * 2 ^ f.scale)) : -(f.scale : Int) ≤ top := by
  by_contra htop
  have hpow : (10 : ℚ) ^ top ≤ 10 ^ (-(f.scale : Int) - 1) :=
    zpow_le_zpow_right₀ (by norm_num) (by omega)
  have htiny : x * 2 ^ f.scale ≤ 1 / 10 :=
    calc x * 2 ^ f.scale ≤ 10 ^ (-(f.scale : Int) - 1) * 2 ^ f.scale := by
          gcongr
          linarith
      _ ≤ 10 ^ (-(f.scale : Int) - 1) * 10 ^ f.scale := by
          gcongr
          norm_num
      _ = 1 / 10 := by
          rw [← zpow_natCast, ← zpow_add₀ (by norm_num),
            show -(f.scale : Int) - 1 + f.scale = -1 by ring]
          norm_num
  linarith

/-- The first digit of a number that is not too large is not too far before the point. -/
theorem top_le_scale (hf : f.Regular) {x : ℚ} {top : Int} (hx : 10 ^ (top - 1) ≤ x)
    (hlarge : x * 2 ^ f.scale ≤ f.units f.infinity) : top ≤ f.scale + 1 := by
  by_contra htop
  have hpow : (10 : ℚ) ^ ((f.scale + 1 : Nat) : Int) ≤ 10 ^ (top - 1) :=
    zpow_le_zpow_right₀ (by norm_num) (by push_cast; omega)
  rw [zpow_natCast] at hpow
  have hbounded : (f.units f.infinity : ℚ) < 10 ^ (f.scale + 1) * 2 ^ f.scale := by
    exact_mod_cast hf.bounded
  have hvalue : (10 : ℚ) ^ (f.scale + 1) * 2 ^ f.scale ≤ x * 2 ^ f.scale := by
    gcongr
    linarith
  linarith

/-- A decimal between the middles is rounded to the pattern. -/
theorem ofDecimal_of_pulls (hf : f.Regular) (hk : 0 < k) (hfin : k < f.infinity) {d : Decimal}
    (h : f.Pulls k (d.value * 2 ^ f.scale)) : f.ofDecimal d = k := by
  obtain ⟨hsmall, hlarge⟩ := h.bounds hk hfin
  have hdigits := h.digits_pos hk hfin
  obtain ⟨hlow, hhigh⟩ := Decimal.value_bounds hdigits
  unfold ofDecimal
  simp only [Nat.pow_eq]
  generalize d.exponent + (digitCount d.digits : Int) = top at hlow hhigh
  have htop := neg_scale_le_top hhigh hsmall
  have htop' := top_le_scale hf hlow hlarge
  rw [if_neg (by omega), if_neg (by omega)]
  rw [Decimal.value] at h
  split
  · rename_i hneg
    refine nearest_of_pulls hf.precision_pos hk hfin (by positivity) ?_
    have hexp : d.exponent = -(d.exponent.natAbs : Int) := by omega
    rw [hexp, zpow_neg, zpow_natCast] at h
    rw [Nat.cast_mul, Nat.cast_pow, Nat.cast_pow]
    convert h using 1
    push_cast
    ring
  · rename_i hpos
    refine nearest_of_pulls hf.precision_pos hk hfin Nat.one_pos ?_
    have hexp : d.exponent = (d.exponent.natAbs : Int) := by omega
    rw [hexp, zpow_natCast] at h
    rw [Nat.cast_one, div_one]
    push_cast
    exact h

/-- A decimal with the value of a pattern's shortest decimal is rounded to the pattern. -/
theorem ofDecimal_of_value (hf : f.Regular) (tie : Tie) (hk : 0 < k) (hfin : k < f.infinity)
    {d : Decimal} (h : d.value = (f.shortest tie k).value) : f.ofDecimal d = k := by
  refine ofDecimal_of_pulls hf hk hfin ?_
  rw [h]
  exact pulls_shortest tie hk

end BinaryFormat

end LedPattern
