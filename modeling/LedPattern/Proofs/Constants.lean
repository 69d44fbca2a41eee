import LedPattern.Proofs.Literal
import LedPattern.Proofs.Planning

/-!
# Finite constants

The constants of a program that comes from a graph are finite. A share of a color and a threshold
are checked to be so. A decay factor is checked as a double to lie in the unit interval, and then
narrowed (`isFinite_narrow`). The constant of a ramp is the length of the strip less one
(`isFinite_ofNat`). A finite constant equals itself (`beq_self_of_isFinite`), which not every number
does.
-/

namespace LedPattern

open Float.Model Float.Model.UnpackedFloat

/-- A number that does not exceed the value of a pattern well below infinity is not rounded to
infinity. -/
theorem BinaryFormat.nearest_lt_infinity {f : BinaryFormat} (hf : 1 ≤ f.precision)
    {num den k : Nat} (hk : k + 1 < f.infinity) (h : num ≤ den * f.units k) :
    f.nearest num den < f.infinity := by
  have hlow : f.floorPattern (num / den) ≤ k := by
    have hunits : f.units (f.floorPattern (num / den)) ≤ f.units k := by
      refine Nat.le_trans (floorPattern_spec hf _).1 ?_
      exact Nat.div_le_of_le_mul h
    exact (f.units_strictMono.le_iff_le).1 hunits
  unfold nearest
  dsimp only
  refine Nat.lt_of_le_of_lt (Nat.min_le_right _ _) ?_
  split <;> omega

namespace Single

/-- The bits of a single. -/
def bits (x : Float32) : BitVec Format.binary32.numBits := x.toBits.toBitVec

/-- The pattern of a single consists of its exponent and its mantissa. -/
theorem pattern_eq (x : Float32) :
    pattern x = (unpackExponent (bits x)).toNat * 2 ^ 23 + (unpackMantissa (bits x)).toNat := by
  have hb : (bits x).toNat < 2 ^ 32 := (bits x).isLt
  have hpattern : pattern x = (bits x).toNat % 2 ^ 31 := rfl
  rw [hpattern]
  simp only [unpackExponent, unpackMantissa, BitVec.toNat_cast, BitVec.extractLsb_toNat,
    Nat.shiftRight_eq_div_pow]
  omega

/-- A single is finite unless all bits of its exponent are set. -/
theorem isFinite_iff (x : Float32) : isFinite x = true ↔ (unpackExponent (bits x)).toNat ≠ 255 := by
  have hexponent : (unpackExponent (bits x)).toNat < 2 ^ 8 := (unpackExponent (bits x)).isLt
  have hmantissa : (unpackMantissa (bits x)).toNat < 2 ^ 23 := (unpackMantissa (bits x)).isLt
  have hinfinity : BinaryFormat.binary32.infinity = 255 * 2 ^ 23 := by decide
  rw [isFinite, decide_eq_true_eq, hinfinity, pattern_eq]
  omega

/-- A finite number equals itself. -/
theorem beq_self_of_isFinite {x : Float32} (h : isFinite x = true) : (x == x) = true := by
  refine Float32.beq_self_iff.2 ?_
  rintro rfl
  exact absurd h (by decide)

/-- A bit pattern whose exponent is not all ones is valid, and packing gives it back. -/
theorem toBits_ofBits {u : UInt32} (hu : u.toNat % 2 ^ 31 < BinaryFormat.binary32.infinity) :
    (Float32.ofBits u).toBits = u := by
  have hlt : u.toNat < 2 ^ 32 := u.toNat_lt
  have hinfinity : BinaryFormat.binary32.infinity = 255 * 2 ^ 23 := by decide
  rw [hinfinity] at hu
  have hvalid : Format.binary32.Valid u.toBitVec := by
    refine ⟨fun hones => ?_⟩
    have hexponent := congrArg BitVec.toNat hones
    have hall : (-1#(Format.binary32.exponentBits)).toNat = 255 := rfl
    simp only [unpackExponent, BitVec.toNat_cast, BitVec.extractLsb_toNat,
      Nat.shiftRight_eq_div_pow, hall, UInt32.toNat_toBitVec] at hexponent
    omega
  have hpack := pack_unpack_of_valid hvalid
  show UInt32.ofBitVec (UnpackedFloat.pack Format.binary32
    (UnpackedFloat.unpack Format.binary32 u.toBitVec)) = u
  rw [hpack]

/-- A number with the pattern of a finite number is finite. -/
theorem isFinite_ofPattern (negative : Bool) {k : Nat} (hk : k < BinaryFormat.binary32.infinity) :
    isFinite (ofPattern negative k) = true := by
  have hinfinity : BinaryFormat.binary32.infinity = 255 * 2 ^ 23 := by decide
  have hweight : BinaryFormat.binary32.signWeight = 2 ^ 31 := by decide
  have hnat : (UInt32.ofNat (if negative then BinaryFormat.binary32.signWeight + k else k)).toNat =
      if negative then 2 ^ 31 + k else k := by
    rw [UInt32.toNat_ofNat', hweight]
    split <;> omega
  have hbits : (ofPattern negative k).toBits =
      UInt32.ofNat (if negative then BinaryFormat.binary32.signWeight + k else k) := by
    refine toBits_ofBits ?_
    rw [hnat]
    split <;> omega
  rw [isFinite, decide_eq_true_eq, pattern, hbits, hnat, hweight]
  split <;> omega

/-- Shifting a mantissa of more than 24 bits drops all but 24 of them. -/
theorem log2_div_pow {m k : Nat} (hm : m.log2 = 23 + k) : (m / 2 ^ k).log2 = 23 := by
  have hne : m ≠ 0 := by
    rintro rfl
    simp at hm
    omega
  have hpos := Nat.two_pow_pos k
  obtain ⟨hlow, hhigh⟩ := (Nat.log2_eq_iff hne).1 hm
  rw [show 23 + k + 1 = 24 + k by omega] at hhigh
  rw [Nat.pow_add] at hlow hhigh
  have hle : 2 ^ 23 ≤ m / 2 ^ k := (Nat.le_div_iff_mul_le hpos).2 hlow
  have hlt : m / 2 ^ k < 2 ^ 24 := (Nat.div_lt_iff_lt_mul hpos).2 hhigh
  exact (Nat.log2_eq_iff (by omega)).2 ⟨hle, hlt⟩

/-- The mantissa after a shift. -/
theorem mantissa_shiftRight (x : ExtendedMantissa) (k : Nat) :
    (x >>> k).mantissa = x.mantissa / 2 ^ k := by
  induction k with
  | zero => exact (Nat.div_one _).symm
  | succ k ih =>
    have hstep : (x >>> (k + 1)).mantissa = (x >>> k).mantissa / 2 := rfl
    rw [hstep, ih, Nat.div_div_eq_div_mul, Nat.pow_succ]

/-- Rounding adds at most one. -/
theorem roundedMantissa_bounds (x : ExtendedMantissa) :
    x.mantissa ≤ x.roundedMantissa ∧ x.roundedMantissa ≤ x.mantissa + 1 := by
  obtain ⟨m, round, sticky⟩ := x
  cases round <;> cases sticky <;>
    simp only [ExtendedMantissa.roundedMantissa, ExtendedMantissa.accuracy,
      Accuracy.roundToNearestEven] <;> omega

/-- A mantissa with `k` bits too many is shifted by them. -/
theorem shiftToTargetExponent_exact {m k : Nat} {e : Int} (hm : m.log2 = 23 + k)
    (he : -149 ≤ e) : shiftToTargetExponent Format.binary32 m e .exact =
      ((⟨m, false, false⟩ : ExtendedMantissa) >>> k, e + k) := by
  have htarget : Format.binary32.targetExponent (totalExponent m e) = e + k := by
    have hbits : (Format.binary32.mantissaBits : Int) = 24 := rfl
    have hmin : Format.binary32.minExponent = -149 := rfl
    rw [Format.targetExponent, totalExponent, hm, hbits, hmin]
    omega
  have hshift : (e + k - e).toNat = k := by omega
  rw [shiftToTargetExponent, htarget, shiftToExponent, hshift]
  rfl

/-- A mantissa of 24 bits or more is rounded to one of 24 bits. -/
theorem roundWithAccuracy_exact {m k : Nat} {e : Int} (hm : m.log2 = 23 + k) (he : -149 ≤ e) :
    ∃ m' e' hpos,
      roundWithAccuracy Format.binary32 .positive m e .exact = .finite .positive m' e' hpos ∧
      m'.log2 = 23 ∧ e + k ≤ e' ∧ e' ≤ e + k + 1 := by
  -- The first shift leaves 24 bits. Rounding makes a 25th of them at most, which is shifted off.
  obtain ⟨hlow, hhigh⟩ := roundedMantissa_bounds ((⟨m, false, false⟩ : ExtendedMantissa) >>> k)
  rw [mantissa_shiftRight] at hlow hhigh
  dsimp only at hlow hhigh
  have hdropped : (m / 2 ^ k).log2 = 23 := log2_div_pow hm
  have hne : m / 2 ^ k ≠ 0 := by
    intro hzero
    rw [hzero] at hdropped
    exact absurd hdropped (by decide)
  obtain ⟨hlow', hhigh'⟩ := (Nat.log2_eq_iff hne).1 hdropped
  generalize hr : ((⟨m, false, false⟩ : ExtendedMantissa) >>> k).roundedMantissa = r at hlow hhigh
  obtain ⟨j, hj, hlog⟩ : ∃ j ≤ 1, r.log2 = 23 + j := by
    rcases Nat.lt_or_ge r (2 ^ 24) with hlt | hge
    · exact ⟨0, by omega, (Nat.log2_eq_iff (by omega)).2 ⟨by omega, by omega⟩⟩
    · exact ⟨1, by omega, (Nat.log2_eq_iff (by omega)).2 ⟨by omega, by omega⟩⟩
  have hfinal := log2_div_pow hlog
  have hpos : 0 < r / 2 ^ j := by
    refine Nat.pos_of_ne_zero fun hzero => ?_
    rw [hzero] at hfinal
    exact absurd hfinal (by decide)
  refine ⟨r / 2 ^ j, e + k + j, hpos, ?_, hfinal, by omega, by omega⟩
  have hmantissa := mantissa_shiftRight ⟨r, false, false⟩ j
  simp only [roundWithAccuracy, shiftToTargetExponent_exact hm he, hr,
    shiftToTargetExponent_exact hlog (show -149 ≤ e + k by omega), hmantissa,
    dif_neg (Nat.pos_iff_ne_zero.1 hpos)]

/-- A positive number gets at least 24 bits by a shift. -/
theorem log2_shiftLeft_full {n : Nat} (hn : 0 < n) :
    (n <<< (23 - n.log2)).log2 = 23 + (n.log2 - 23) := by
  obtain ⟨hlow, hhigh⟩ := (Nat.log2_eq_iff (Nat.pos_iff_ne_zero.1 hn)).1 (rfl : n.log2 = n.log2)
  have hpos := Nat.two_pow_pos (23 - n.log2)
  have hlow' := Nat.mul_le_mul_right (2 ^ (23 - n.log2)) hlow
  have hhigh' := Nat.mul_lt_mul_of_pos_right hhigh hpos
  rw [← Nat.pow_add] at hlow' hhigh'
  rw [show n.log2 + (23 - n.log2) = 23 + (n.log2 - 23) by omega] at hlow'
  rw [show n.log2 + 1 + (23 - n.log2) = 23 + (n.log2 - 23) + 1 by omega] at hhigh'
  rw [Nat.shiftLeft_eq]
  refine (Nat.log2_eq_iff ?_).2 ⟨hlow', hhigh'⟩
  exact Nat.pos_iff_ne_zero.1 (Nat.mul_pos hn hpos)

/-- A positive number is represented with a mantissa of 24 bits. -/
theorem ofNat_unpacked {n : Nat} (hn : 0 < n) :
    ∃ m e hpos, UnpackedFloat.ofNat Format.binary32 n = .finite .positive m e hpos ∧
      m.log2 = 23 ∧ (n.log2 : Int) - 23 ≤ e ∧ e ≤ n.log2 - 22 := by
  have htarget : Format.binary32.targetExponent (totalExponent n 0) = (n.log2 : Int) - 23 := by
    have hbits : (Format.binary32.mantissaBits : Int) = 24 := rfl
    have hmin : Format.binary32.minExponent = -149 := rfl
    rw [Format.targetExponent, totalExponent, hbits, hmin]
    omega
  have hdecrease : decreaseExponent n 0 ((n.log2 : Int) - 23) =
      (n <<< (23 - n.log2), -((23 - n.log2 : Nat) : Int)) := by
    have hshift : (0 - ((n.log2 : Int) - 23)).toNat = 23 - n.log2 := by omega
    rw [decreaseExponent, hshift]
    exact Prod.ext rfl (Int.zero_sub _)
  have hcompare : compare (n : Int) 0 = .gt := by
    rw [Int.compare_eq_gt]
    omega
  obtain ⟨m, e, hpos, hround, hlog, hlow, hhigh⟩ :=
    roundWithAccuracy_exact (e := -((23 - n.log2 : Nat) : Int)) (log2_shiftLeft_full hn) (by omega)
  refine ⟨m, e, hpos, ?_, hlog, by omega, by omega⟩
  simp only [UnpackedFloat.ofNat, UnpackedFloat.ofInt, UnpackedFloat.normalize, hcompare,
    Int.toNat_natCast, UnpackedFloat.round, htarget, hdecrease]
  exact hround

/-- The bits of a natural number below `2 ^ 64`. -/
theorem bits_ofNat {n : Nat} (hlt : n < 2 ^ 64) : bits (ofNat n) =
    UnpackedFloat.pack Format.binary32 (UnpackedFloat.ofNat Format.binary32 n) := by
  have hn : (UInt64.ofNat n).toNat = n := by
    rw [UInt64.toNat_ofNat']
    omega
  show UnpackedFloat.pack Format.binary32
    (UnpackedFloat.ofNat Format.binary32 (UInt64.ofNat n).toNat) = _
  rw [hn]

/-- The biased exponent of a positive number below `2 ^ 64`. -/
theorem exponent_ofNat {n : Nat} (hn : 0 < n) (hlt : n < 2 ^ 64) :
    n.log2 + 127 ≤ (unpackExponent (bits (ofNat n))).toNat ∧
      (unpackExponent (bits (ofNat n))).toNat ≤ n.log2 + 128 := by
  obtain ⟨m, e, hmantissa, hunpacked, hlog, hlow, hhigh⟩ := ofNat_unpacked hn
  have hlog' : n.log2 < 64 := (Nat.log2_lt (by omega)).2 hlt
  have hbias : Format.binary32.exponentBias = 127 := rfl
  have hbits : Format.binary32.mantissaBitsWithoutImplicit = 23 := rfl
  have hsize : 2 ^ Format.binary32.exponentBits = 256 := rfl
  rw [bits_ofNat hlt, hunpacked, UnpackedFloat.pack]
  dsimp only
  rw [if_neg (by omega), hlog, if_pos (by decide), unpackExponent_packComponents,
    BitVec.toNat_ofNat, hsize]
  omega

/-- A natural number below `2 ^ 64` is finite. -/
theorem isFinite_ofNat {n : Nat} (hlt : n < 2 ^ 64) : isFinite (ofNat n) = true := by
  rw [isFinite_iff]
  rcases Nat.eq_zero_or_pos n with rfl | hpos
  · decide
  · have hlog : n.log2 < 64 := (Nat.log2_lt (by omega)).2 hlt
    have hexponent := (exponent_ofNat hpos hlt).2
    omega

end Single

namespace Double

/-- The bits of a double. -/
def bits (x : Float) : BitVec Format.binary64.numBits := x.toBits.toBitVec

/-- The pattern of a double consists of its exponent and its mantissa. -/
theorem pattern_eq (x : Float) :
    pattern x = (unpackExponent (bits x)).toNat * 2 ^ 52 + (unpackMantissa (bits x)).toNat := by
  have hb : (bits x).toNat < 2 ^ 64 := (bits x).isLt
  have hpattern : pattern x = (bits x).toNat % 2 ^ 63 := rfl
  rw [hpattern]
  simp only [unpackExponent, unpackMantissa, BitVec.toNat_cast, BitVec.extractLsb_toNat,
    Nat.shiftRight_eq_div_pow]
  omega

/-- A bit in front of a mantissa adds its weight. -/
theorem toNat_withLeadingOne {n : Nat} (m : BitVec n) : (1#1 ++ m).toNat = 2 ^ n + m.toNat := by
  rw [BitVec.toNat_append, Nat.shiftLeft_eq, Nat.mul_comm, ← Nat.two_pow_add_eq_or_of_lt m.isLt,
    BitVec.toNat_ofNat, Nat.mod_eq_of_lt (by decide), Nat.mul_one]

/-- What lies in the unit interval is a zero or a positive number that is not above one. -/
theorem unit_cases {u : UnpackedFloat} {hm : 0 < 2 ^ 52}
    (hlow : (UnpackedFloat.zero .positive).le u = true)
    (hhigh : u.le (.finite .positive (2 ^ 52) (-52) hm) = true) :
    (∃ s, u = .zero s) ∨ ∃ m e hpos, u = .finite .positive m e hpos ∧
      (e < -52 ∨ e = -52 ∧ m ≤ 2 ^ 52) := by
  cases u with
  | notANumber => cases hhigh
  | infinity s =>
    cases s with
    | positive => cases hhigh
    | negative => cases hlow
  | zero s => exact .inl ⟨s, rfl⟩
  | finite s m e hpos =>
    cases s with
    | negative => cases hlow
    | positive =>
      refine .inr ⟨m, e, hpos, rfl, ?_⟩
      have hle : ((compare e (-52)).then (compare m (2 ^ 52))).isLE = true := hhigh
      rw [Ordering.isLE_then_iff_or, Int.compare_eq_lt, Int.compare_eq_eq, Nat.isLE_compare] at hle
      exact hle

/-- A double in the unit interval has a pattern that is not above that of one. -/
theorem pattern_le_of_unit {x : Float} (hzero : 0 ≤ x) (hone : x ≤ 1) :
    pattern x ≤ 1023 * 2 ^ 52 := by
  have hmantissa : (unpackMantissa (bits x)).toNat < 2 ^ 52 := (unpackMantissa (bits x)).isLt
  have hzeroParts : (0 : Float).toModel.unpack = .zero .positive := rfl
  have honeParts : (1 : Float).toModel.unpack = .finite .positive (2 ^ 52) (-52) (by decide) := rfl
  have hlow : ((0 : Float).toModel.unpack).le (UnpackedFloat.unpack Format.binary64 (bits x)) =
      true := of_decide_eq_true hzero
  have hhigh : (UnpackedFloat.unpack Format.binary64 (bits x)).le ((1 : Float).toModel.unpack) =
      true := of_decide_eq_true hone
  rw [hzeroParts] at hlow
  rw [honeParts] at hhigh
  have hcases := unit_cases hlow hhigh
  have hbias : ((Format.binary64.exponentBias : Int) + (52 : Nat)) = 1075 := rfl
  rw [pattern_eq]
  unfold UnpackedFloat.unpack at hcases
  dsimp only at hcases
  rw [hbias] at hcases
  split at hcases
  · -- Neither an infinity nor what is no number lies in the interval.
    split at hcases <;> rcases hcases with ⟨s, hs⟩ | ⟨m, e, hpos, hfinite, -⟩
    all_goals first | cases hs | cases hfinite
  split at hcases
  · rename_i hexponent
    rw [hexponent]
    show 0 * 2 ^ 52 + _ ≤ _
    omega
  · rcases hcases with ⟨s, hs⟩ | ⟨m, e, hpos, hfinite, hvalue⟩
    · cases hs
    · have hfull : (1#1 ++ unpackMantissa (bits x)).toNat =
          2 ^ 52 + (unpackMantissa (bits x)).toNat := toNat_withLeadingOne (unpackMantissa (bits x))
      obtain ⟨-, hm, he⟩ := UnpackedFloat.finite.inj hfinite
      omega

/-- A double in the unit interval is narrowed to a finite single. -/
theorem isFinite_narrow {x : Float} (hzero : 0 ≤ x) (hone : x ≤ 1) :
    Single.isFinite (narrow x) = true := by
  have hk := pattern_le_of_unit hzero hone
  have hinfinity : BinaryFormat.binary64.infinity = 2047 * 2 ^ 52 := by decide
  unfold narrow
  dsimp only
  rw [if_neg (by omega), if_neg (by omega), Nat.pow_eq]
  refine Single.isFinite_ofPattern _ ?_
  -- One has the pattern `127 * 2 ^ 23`, which is far from infinity.
  have hvalue : BinaryFormat.binary64.units (1023 * 2 ^ 52) =
      2 ^ (BinaryFormat.binary64.scale - BinaryFormat.binary32.scale)
        * BinaryFormat.binary32.units (127 * 2 ^ 23) := by decide +kernel
  have hunits : BinaryFormat.binary64.units (pattern x) ≤
      BinaryFormat.binary64.units (1023 * 2 ^ 52) := (BinaryFormat.units_strictMono _).monotone hk
  rw [hvalue] at hunits
  generalize 2 ^ (BinaryFormat.binary64.scale - BinaryFormat.binary32.scale) = den at hunits ⊢
  have hfar : 127 * 2 ^ 23 + 1 < BinaryFormat.binary32.infinity := by decide
  exact BinaryFormat.nearest_lt_infinity (by decide) hfar hunits

end Double

/-! ## Constants of graphs -/

/-- Whether the shares of a color map are finite. -/
def ColorMap.isFinite : ColorMap → Bool
  | .grayscale => true
  | .tint r g b => Single.isFinite r && Single.isFinite g && Single.isFinite b

/-- Whether the threshold of a predicate is finite. -/
def Predicate.isFinite : Predicate → Bool
  | .audioAvailable => true
  | .energyAbove threshold => Single.isFinite threshold

/-- Whether the constants of an operation are finite. -/
def Operation.isFinite : Operation → Bool
  | .persistDecay decay _ => Single.isFinite decay
  | .colorize map => map.isFinite
  | .conditionalFallback predicate => predicate.isFinite
  | .audioInput _ | .rampShape | .mirror _ | .pixelOutput => true

/-- Whether the constants of a stage are finite. -/
def Stage.isFinite : Stage → Bool
  | .decay _ factor => Single.isFinite factor
  | .color _ map => map.isFinite
  | .idle _ | .sample _ _ | .ramp _ | .mirror _ _ => true

/-- The constants of a plan are finite. -/
structure Plan.Finite (p : Plan) : Prop where
  lead : ∀ s ∈ p.lead, s.isFinite = true
  predicate : ∀ f ∈ p.fork, f.predicate.isFinite = true
  primary : ∀ f ∈ p.fork, ∀ s ∈ f.primary, s.isFinite = true
  fallback : ∀ f ∈ p.fork, ∀ s ∈ f.fallback, s.isFinite = true

namespace Node

variable {n : Node}

/-- A parameter that is checked to be finite is so. -/
theorem isFinite_finiteParam {field : String} {x : Option Float32}
    (h : n.finiteParam field = .ok x) : ∀ v ∈ x, Single.isFinite v = true := by
  unfold finiteParam at h
  split at h
  · cases h
    simp
  · dsimp only at h
    split at h
    · split at h
      · split at h
        · rename_i hfinite
          cases h
          rintro v ⟨⟩
          exact hfinite
        · cases h
      · cases h
    · cases h

/-- A parameter with a finite default is finite. -/
theorem isFinite_getD {field : String} {x : Option Float32} (h : n.finiteParam field = .ok x) :
    Single.isFinite (x.getD 1) = true := by
  cases x with
  | none => decide
  | some v => exact isFinite_finiteParam h v rfl

/-- A decay factor is finite. -/
theorem isFinite_decayParam {decay : Float32} (h : n.decayParam = .ok decay) :
    Single.isFinite decay = true := by
  unfold decayParam at h
  split at h
  · cases h
    decide
  · split at h
    · rename_i hunit
      cases h
      exact Double.isFinite_narrow hunit.1 hunit.2
    · cases h
  · cases h

/-- A color map is finite. -/
theorem isFinite_colorMapParam {map : ColorMap} (h : n.colorMapParam = .ok map) :
    map.isFinite = true := by
  unfold colorMapParam at h
  extract_lets name at h
  by_cases hgray : name = "grayscale"
  · rw [if_pos hgray] at h
    cases h
    rfl
  rw [if_neg hgray] at h
  split at h
  · obtain ⟨r, hr, h⟩ := Except.bind_eq_ok_iff.1 h
    obtain ⟨g, hg, h⟩ := Except.bind_eq_ok_iff.1 h
    obtain ⟨b, hb, h⟩ := Except.bind_eq_ok_iff.1 h
    cases h
    simp only [ColorMap.isFinite, isFinite_getD hr, isFinite_getD hg, isFinite_getD hb,
      Bool.and_self]
  · cases h

/-- A predicate is finite. -/
theorem isFinite_predicateParam {predicate : Predicate} (h : n.predicateParam = .ok predicate) :
    predicate.isFinite = true := by
  unfold predicateParam at h
  extract_lets name at h
  by_cases haudio : name = "audio_available"
  · rw [if_pos haudio] at h
    cases h
    rfl
  rw [if_neg haudio] at h
  split at h
  · obtain ⟨x, hx, h⟩ := Except.bind_eq_ok_iff.1 h
    split at h
    · cases h
      exact isFinite_finiteParam hx _ rfl
    · cases h
  · cases h

/-- The constants of a node's operation are finite. -/
theorem isFinite_operation {op : Operation} (h : n.operation = .ok op) : op.isFinite = true := by
  have hof := (operation_ok h).2.2
  cases op with
  | persistDecay decay bins =>
    obtain ⟨d, hd, hof⟩ := Except.bind_eq_ok_iff.1 hof
    obtain ⟨b, -, hof⟩ := Except.bind_eq_ok_iff.1 hof
    cases hof
    exact isFinite_decayParam hd
  | colorize map =>
    obtain ⟨m, hm, hof⟩ := Except.bind_eq_ok_iff.1 hof
    cases hof
    exact isFinite_colorMapParam hm
  | conditionalFallback predicate =>
    obtain ⟨p, hp, hof⟩ := Except.bind_eq_ok_iff.1 hof
    cases hof
    exact isFinite_predicateParam hp
  | audioInput | rampShape | mirror | pixelOutput => rfl

end Node

/-- The constants of a node's stage are finite. -/
theorem Staged.isFinite {width : Nat} {n : Node} {rest : List Node} {t u : Option Shape}
    {s : Stage} (h : Staged width n rest t s u) : s.isFinite = true := by
  cases h with
  | decay hop => exact Node.isFinite_operation hop
  | color hop => exact Node.isFinite_operation hop
  | idle | sample | ramp | mirror => rfl

/-- The constants of a branch's stages are finite. -/
theorem StagedAll.isFinite {width : Nat} {nodes : List Node} {t u : Option Shape}
    {stages : List Stage} (h : StagedAll width nodes t stages u) :
    ∀ s ∈ stages, s.isFinite = true := by
  induction h with
  | nil => simp
  | cons hfirst _ ih => exact List.forall_mem_cons.2 ⟨hfirst.isFinite, ih⟩

/-- The constants of a graph's plan are finite. -/
theorem Planned.finite {width : Nat} {t : Option Shape} {nodes : List Node} {p : Plan}
    (h : Planned width t nodes p) : p.Finite := by
  cases h with
  | straight hlead _ => exact ⟨hlead.isFinite, nofun, nofun, nofun⟩
  | forked hlead hop _ _ hfirst hsecond _ =>
    refine ⟨hlead.isFinite, ?_, ?_, ?_⟩
    · rintro f ⟨⟩
      exact Node.isFinite_operation hop
    · rintro f ⟨⟩
      exact hfirst.isFinite
    · rintro f ⟨⟩
      exact hsecond.isFinite

end LedPattern
