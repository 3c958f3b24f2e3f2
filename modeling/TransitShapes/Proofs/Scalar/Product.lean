import TransitShapes.Proofs.Scalar.Sum

/-! # Products of doubles

The product of two doubles without a minus sign is the double nearest to the exact product, which is
a whole number of fractions `2 ^ -1074` of the smallest double.
-/

namespace TransitShapes.Binary64

open Float.Model Float.Model.UnpackedFloat

theorem mul_infinity {u v : UnpackedFloat} (hu : Positive u) (hv : Positive v)
    (h : u = .infinity .positive ∨ v = .infinity .positive) :
    UnpackedFloat.mul Format.binary64 u v = .notANumber ∨
      UnpackedFloat.mul Format.binary64 u v = .infinity .positive := by
  rcases h with rfl | rfl
  · cases v with
    | notANumber | zero => exact Or.inl rfl
    | infinity | finite =>
      cases hv
      exact Or.inr rfl
  · cases u with
    | notANumber | zero => exact Or.inl rfl
    | infinity | finite =>
      cases hu
      exact Or.inr rfl

theorem position_mul_infinity {a b : Float} (ha : Scalar.Unsigned a) (hb : Scalar.Unsigned b)
    (hab : ¬ Scalar.IsNaN (a * b))
    (h : a.toModel.unpack = .infinity .positive ∨ b.toModel.unpack = .infinity .positive) :
    position (a * b) = infiniteBits := by
  rcases mul_infinity (positive_unpack ha) (positive_unpack hb) h with hnan | hinf
  · exact absurd (isNaN_of_pack_notANumber
      (congrArg (Float.ofModel ∘ Float.Model.pack) hnan)) hab
  · exact (congrArg place hinf).trans (place_infinity .positive)

end TransitShapes.Binary64

namespace TransitShapes

open Scalar Binary64

/-- Rounding keeps the order, so the products of doubles keep it. -/
instance : LawfulProduct Float where
  isNaN_mul b ha := isNaN_mul_left b ha
  mul_le_mul_right {a b c} ha hb hc h hac hbc := by
    obtain ⟨-, hnb⟩ := LawfulOrder.isNumber_of_le h
    have hnc : ¬ IsNaN c := fun hnc => hac (isNaN_mul_right a hnc)
    have hfirst := (isNumber_iff (a * c)).mp hac
    rw [le_iff_position]
    refine ⟨⟨hfirst, (isNumber_iff (b * c)).mp hbc⟩, ?_⟩
    by_cases hinf : isFinite b ∧ isFinite c
    · have hfinite := isFinite_of_between (by decide +kernel)
        hinf.1 (ha.nonneg (LawfulOrder.isNumber_of_le h).1) h
      rw [le_iff_position] at h
      rw [position_mul hfinite hinf.2, position_mul hinf.1 hinf.2]
      exact roundSigned_mono (Int.mul_le_mul_of_nonneg_right (amount_mono h.1.1 h.1.2 h.2)
        (amount_nonneg (position_nonneg hc)))
    · have hunpack := (not_and_or.mp hinf).imp (unpack_of_infinite hb hnb)
        (unpack_of_infinite hc hnc)
      rw [position_mul_infinity hb hc hbc hunpack]
      omega

/-- The smallest double above zero. -/
def Binary64.least : Float := Float.ofBits 1

theorem Binary64.least_le {a : Float} (h : 0.0 < a) : least ≤ a := by
  have hzero : position 0.0 = 0 := by decide +kernel
  have hone : position least = 1 := by decide +kernel
  have hfinite : magnitude least ≤ infiniteBits := by decide +kernel
  rw [lt_iff, hzero] at h
  rw [le_iff, hone]
  exact ⟨⟨hfinite, h.1.2⟩, h.2⟩

instance : LawfulDistance Float where
  zero_lt_ten := by decide +kernel
  le_zero_of_mul_globeRadius {a} ha h := by
    have ⟨hproduct, _⟩ := LawfulOrder.isNumber_of_le h
    have hna : ¬ IsNaN a := fun hna => hproduct (isNaN_mul_left _ hna)
    by_contra hle
    -- The smallest double is already too much.
    have hleast := least_le (LawfulOrder.lt_iff.mpr ⟨ha.nonneg hna, hle⟩)
    have hmul := LawfulProduct.mul_le_mul_right ((unsigned_iff least).mpr (by decide +kernel)) ha
      LawfulSign.unsigned_globeRadius hleast (by decide +kernel) hproduct
    have hpos : ¬ least * globeRadius ≤ 0.0 := by decide +kernel
    exact hpos (LawfulOrder.le_trans hmul h)

instance : LawfulMeasure Float where
  isNaN_of_mul_globeRadius {a} ha hnan := by
    by_contra hna
    have hfinite : isFinite (globeRadius : Float) := by decide +kernel
    have hpos : 0 < amount (position globeRadius) := by decide +kernel
    refine (isNumber_iff (a * globeRadius)).mpr ?_ hnan
    by_cases hfa : isFinite a
    · rw [position_mul hfa hfinite]
      exact natAbs_roundSigned_le _ _
    · rw [position_mul_of_infinite hna hfa hfinite hpos]
      exact (isNumber_iff a).mp hna

instance : LawfulNaN Float where
  isNaN_mul b ha := isNaN_mul_left b ha
  isNaN_add := isNaN_add
  isNaN_atan2 y {x} hx := by
    have hnan : Scalar.atan2 y x = Elementary.nan := by
      simp only [Scalar.atan2, Elementary.atan2, ofFloat_of_isNaN hx]
      cases ofFloat y <;> rfl
    rw [hnan]
    exact isNaN_nan

end TransitShapes
