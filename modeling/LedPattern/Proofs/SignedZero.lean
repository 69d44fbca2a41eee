import LedPattern.Kernel.Program
import LedPattern.Proofs.Constants

/-!
# The sign of zero

Zero has two signs, and a comparison of numbers does not see which one it is (`Same.of_beq`). Here
it is shown that computing does not bring it to light either, if nothing is divided by zero.
`Single.Same` relates numbers that are equal or both zero. Sums, differences, products, quotients by
what is not zero, clamps and rounding down respect it, and numbers so related are the same byte.

All this is read off the unpacked form of numbers, in which zero is a case of its own
(`ZeroAlike`).
-/

namespace LedPattern

open Float.Model Float.Model.UnpackedFloat

/-- Unpacked numbers that are equal, or that are both zero. -/
inductive ZeroAlike : UnpackedFloat → UnpackedFloat → Prop where
  | refl (u : UnpackedFloat) : ZeroAlike u u
  | zeros (s t : Sign) : ZeroAlike (.zero s) (.zero t)

namespace ZeroAlike

variable {u u' v v' w : UnpackedFloat}

/-- Being equal but for the signs of zeros is transitive. -/
theorem trans (h : ZeroAlike u v) (k : ZeroAlike v w) : ZeroAlike u w := by
  cases h with
  | refl => exact k
  | zeros s t =>
    cases k with
    | refl => exact .zeros _ _
    | zeros _ t => exact .zeros s t

/-- An operation respects equality but for the signs of zeros if it does so with another zero for
either operand. -/
theorem congr₂ {g : UnpackedFloat → UnpackedFloat → UnpackedFloat}
    (hleft : ∀ s t v, ZeroAlike (g (.zero s) v) (g (.zero t) v))
    (hright : ∀ u s t, ZeroAlike (g u (.zero s)) (g u (.zero t)))
    (h : ZeroAlike u u') (k : ZeroAlike v v') : ZeroAlike (g u v) (g u' v') := by
  have hfirst : ZeroAlike (g u v) (g u' v) := by
    cases h with
    | refl => exact .refl _
    | zeros s t => exact hleft s t v
  refine hfirst.trans ?_
  cases k with
  | refl => exact .refl _
  | zeros s t => exact hright u' s t

/-- Sums of numbers that are equal but for the signs of zeros are so as well. -/
theorem add (spec : Format) (h : ZeroAlike u u') (k : ZeroAlike v v') :
    ZeroAlike (UnpackedFloat.add spec u v) (UnpackedFloat.add spec u' v') := by
  refine congr₂ (fun s t x => ?_) (fun x s t => ?_) h k <;> cases x with
  | zero r => cases s <;> cases t <;> cases r <;> exact .zeros _ _
  | notANumber | infinity | finite => exact .refl _

/-- Differences of numbers that are equal but for the signs of zeros are so as well. -/
theorem sub (spec : Format) (h : ZeroAlike u u') (k : ZeroAlike v v') :
    ZeroAlike (UnpackedFloat.sub spec u v) (UnpackedFloat.sub spec u' v') := by
  refine congr₂ (fun s t x => ?_) (fun x s t => ?_) h k <;> cases x with
  | zero r => cases s <;> cases t <;> cases r <;> exact .zeros _ _
  | notANumber | infinity | finite => exact .refl _

/-- Products of numbers that are equal but for the signs of zeros are so as well. -/
theorem mul (spec : Format) (h : ZeroAlike u u') (k : ZeroAlike v v') :
    ZeroAlike (UnpackedFloat.mul spec u v) (UnpackedFloat.mul spec u' v') := by
  refine congr₂ (fun s t x => ?_) (fun x s t => ?_) h k <;> cases x with
  | zero | finite => exact .zeros _ _
  | notANumber | infinity => exact .refl _

/-- Quotients of numbers that are equal but for the signs of zeros are so as well, unless they are
by zero. -/
theorem div (spec : Format) (h : ZeroAlike u u') (k : ZeroAlike v v') (hv : ∀ s, v ≠ .zero s) :
    ZeroAlike (UnpackedFloat.div spec u v) (UnpackedFloat.div spec u' v') := by
  cases k with
  | zeros s => exact absurd rfl (hv s)
  | refl =>
    cases h with
    | refl => exact .refl _
    | zeros s t =>
      cases v with
      | zero r => exact absurd rfl (hv r)
      | notANumber => exact .refl _
      | infinity | finite => exact .zeros _ _

/-- Comparisons do not see the sign of zero. -/
theorem compare_eq (h : ZeroAlike u u') (k : ZeroAlike v v') : u.compare v = u'.compare v' := by
  have hleft : u.compare v = u'.compare v := by
    cases h with
    | refl => rfl
    | zeros s t =>
      cases v with
      | notANumber | zero => rfl
      | infinity r | finite r => cases r <;> rfl
  rw [hleft]
  cases k with
  | refl => rfl
  | zeros s t =>
    cases u' with
    | notANumber | zero => rfl
    | infinity r | finite r => cases r <;> rfl

/-- Numbers that compare as equal are equal, or both zero. -/
theorem of_beq (h : u.beq v = true) : ZeroAlike u v := by
  obtain ⟨-, -, rfl | ⟨rfl, rfl⟩ | ⟨rfl, rfl⟩⟩ := (beq_iff_ne_notANumber_and_eq u v).1 h
  · exact .refl _
  · exact .zeros _ _
  · exact .zeros _ _

end ZeroAlike

namespace Single

/-- Numbers that are equal, or that are both zero. -/
def Same (x y : Float32) : Prop := ZeroAlike x.toModel.unpack y.toModel.unpack

/-- A number that is not zero, whatever the sign. -/
def Nonzero (x : Float32) : Prop := ∀ s, x.toModel.unpack ≠ .zero s

/-- What is packed as zero is zero. -/
theorem unpack_pack_zero (s : Sign) :
    (Float32.Model.pack (.zero s)).unpack = .zero s := by
  cases s <;> rfl

/-- Numbers that are equal but for the signs of zeros are so after they are packed. -/
theorem same_pack {u v : UnpackedFloat} (h : ZeroAlike u v) :
    Same ⟨.pack u⟩ ⟨.pack v⟩ := by
  cases h with
  | refl => exact .refl _
  | zeros s t =>
    show ZeroAlike (Float32.Model.pack (.zero s)).unpack (Float32.Model.pack (.zero t)).unpack
    rw [unpack_pack_zero, unpack_pack_zero]
    exact .zeros s t

/-- A number is put together from its unpacked form. -/
theorem eq_pack_of_unpack {x : Float32} {u : UnpackedFloat} (h : x.toModel.unpack = u) :
    x = ⟨.pack u⟩ := by
  subst h
  obtain ⟨⟨⟨b⟩, hvalid⟩⟩ := x
  have hbits := pack_unpack_of_valid hvalid
  simp only [Float32.Model.pack, Float32.Model.unpack, hbits]

/-- A positive number below `2 ^ 64` does not become zero. -/
theorem nonzero_ofNat {n : Nat} (hn : 0 < n) (hlt : n < 2 ^ 64) : Nonzero (ofNat n) := by
  intro s hzero
  have hexponent := (exponent_ofNat hn hlt).1
  rw [eq_pack_of_unpack hzero] at hexponent
  have hpacked : (unpackExponent (bits ⟨.pack (.zero s)⟩)).toNat = 0 := by
    cases s <;> decide
  omega

namespace Same

variable {x x' y y' : Float32}

/-- A single is equal to itself, all the more but for the sign of zero. -/
theorem refl (x : Float32) : Same x x := ZeroAlike.refl _

/-- Numbers that compare as equal are equal, or both zero. -/
theorem of_beq (h : (x == y) = true) : Same x y := ZeroAlike.of_beq h

/-- Numbers that are equal but for the signs of zeros are equal or both zero. -/
theorem eq_or_zero (h : Same x y) :
    x = y ∨ (∃ s, x.toModel.unpack = .zero s) ∧ ∃ t, y.toModel.unpack = .zero t := by
  unfold Same at h
  generalize hx : x.toModel.unpack = u at h
  generalize hy : y.toModel.unpack = v at h
  cases h with
  | refl => exact .inl ((eq_pack_of_unpack hx).trans (eq_pack_of_unpack hy).symm)
  | zeros s t => exact .inr ⟨⟨s, rfl⟩, t, rfl⟩

/-- A comparison of numbers that are equal but for the signs of zeros has the same outcome. -/
theorem lt_iff (h : Same x x') (k : Same y y') : x < y ↔ x' < y' := by
  have hlt : ∀ a b : Float32, a < b ↔ a.toModel.unpack.compare b.toModel.unpack = some .lt := by
    intro a b
    show decide (a.toModel.lt b.toModel = true) = true ↔ _
    simp [Float32.Model.lt, UnpackedFloat.lt]
  rw [hlt, hlt, ZeroAlike.compare_eq h k]

/-- Numbers that are equal but for the signs of zeros are clamped to such numbers. -/
theorem clamp01 (h : Same x y) : Same (clamp01 x) (clamp01 y) := by
  unfold Single.clamp01
  simp only [lt_iff h (refl 0), lt_iff (refl 1) h]
  split
  · exact refl 0
  · split
    · exact refl 1
    · exact h

/-- Numbers that are equal but for the signs of zeros are rounded down to such numbers. -/
theorem floor (h : Same x y) : Same (floor x) (floor y) := by
  rcases h.eq_or_zero with rfl | ⟨⟨s, hx⟩, t, hy⟩
  · exact refl _
  · have hzero : ∀ r, (Single.floor ⟨.pack (.zero r)⟩).toModel.unpack = .zero r := by
      intro r
      cases r <;> rfl
    rw [eq_pack_of_unpack hx, eq_pack_of_unpack hy, Same, hzero, hzero]
    exact .zeros s t

/-- Numbers that are equal but for the signs of zeros are the same byte. -/
theorem toUInt8_eq (h : Same x y) : x.toUInt8 = y.toUInt8 := by
  show x.toModel.unpack.toUInt8 = y.toModel.unpack.toUInt8
  unfold Same at h
  generalize x.toModel.unpack = u, y.toModel.unpack = v at h
  cases h with
  | refl => rfl
  | zeros s t => cases s <;> cases t <;> rfl

/-- An operator takes numbers that are equal but for the signs of zeros to such numbers, unless it
divides by zero. -/
theorem apply (op : BinOp) (h : Same x x') (k : Same y y') (hdiv : op = .div → Nonzero y) :
    Same (op.apply x y) (op.apply x' y') := by
  cases op with
  | add => exact same_pack (ZeroAlike.add _ h k)
  | sub => exact same_pack (ZeroAlike.sub _ h k)
  | mul => exact same_pack (ZeroAlike.mul _ h k)
  | div => exact same_pack (ZeroAlike.div _ h k (hdiv rfl))

end Same

end Single

end LedPattern
