import Mathlib.Analysis.SpecialFunctions.Complex.Arg
import Mathlib.Analysis.SpecialFunctions.Trigonometric.Inverse
import TransitShapes.Proofs.Scalar.Laws

/-! # Real numbers as scalars

What the library would find if nothing were rounded. Nothing can be computed here, but everything
that holds of sums and of distances can be used.
-/

namespace TransitShapes

open Scalar

noncomputable instance : Scalar ℝ where
  decidableLT := Classical.decRel _
  decidableLE := Classical.decRel _
  isFinite _ := true
  sqrt := Real.sqrt
  sin := Real.sin
  cos := Real.cos
  asin := Real.arcsin
  atan2 y x := Complex.arg ⟨x, y⟩
  pi := Real.pi
  cellFloor x := max (-2 ^ 63) (min (2 ^ 63 - 1) ⌊x⌋)
  total := compare
  total_trans := inferInstance

namespace Exact

/-! ## The operations -/

theorem total_isLE_iff (a b : ℝ) : (total a b).isLE ↔ a ≤ b := by
  rw [Ordering.isLE_iff_ne_gt]
  exact compare_le_iff_le

theorem total_eq_iff (a b : ℝ) : total a b = .eq ↔ a = b := compare_eq_iff_eq

theorem not_isNaN (a : ℝ) : ¬ IsNaN a := not_not_intro (le_refl a)

theorem zero_eq : (0.0 : ℝ) = 0 := by norm_num

theorem unsigned_iff (a : ℝ) : Unsigned a ↔ 0 ≤ a := by
  unfold Unsigned
  rw [or_iff_right (not_isNaN a), total_isLE_iff, zero_eq]

theorem norm_eq (v : Vec3 ℝ) : v.norm = Real.sqrt (v.x * v.x + v.y * v.y + v.z * v.z) := rfl

theorem angle_eq (p q : Vec3 ℝ) : p.angle q = Complex.arg ⟨p.dot q, (p.cross q).norm⟩ := rfl

theorem dot_comm (p q : Vec3 ℝ) : p.dot q = q.dot p := by
  unfold Vec3.dot
  ring

theorem norm_cross_comm (p q : Vec3 ℝ) : (p.cross q).norm = (q.cross p).norm := by
  rw [norm_eq, norm_eq]
  unfold Vec3.cross
  congr 1
  ring

theorem norm_cross_self (p : Vec3 ℝ) : (p.cross p).norm = 0 := by
  rw [norm_eq, Real.sqrt_eq_zero']
  unfold Vec3.cross
  apply le_of_eq
  ring

theorem dot_self_nonneg (p : Vec3 ℝ) : 0 ≤ p.dot p :=
  add_nonneg (add_nonneg (mul_self_nonneg _) (mul_self_nonneg _)) (mul_self_nonneg _)

theorem angle_self (p : Vec3 ℝ) : p.angle p = 0 := by
  rw [angle_eq, norm_cross_self]
  exact Complex.arg_ofReal_of_nonneg (dot_self_nonneg p)

end Exact

open Exact

/-! ## The laws -/

instance : LawfulOrder ℝ where
  isNumber_of_le _ := ⟨not_isNaN _, not_isNaN _⟩
  le_trans := le_trans
  le_total _ _ := le_total _ _
  lt_iff := lt_iff_le_not_ge
  le_of_total _ _ h := (total_isLE_iff _ _).mp h

instance : LawfulSign ℝ where
  zero_le_zero := le_refl _
  total_of_le _ _ h := (total_isLE_iff _ _).mpr h
  unsigned_mul_self a := (unsigned_iff _).mpr (mul_self_nonneg a)
  unsigned_mul ha hb := by
    rw [unsigned_iff] at *
    exact mul_nonneg ha hb
  unsigned_add ha hb := by
    rw [unsigned_iff] at *
    exact add_nonneg ha hb
  unsigned_sqrt _ := (unsigned_iff _).mpr (Real.sqrt_nonneg _)
  unsigned_atan2 _ h := by
    rw [unsigned_iff] at *
    exact Complex.arg_nonneg_iff.mpr h
  unsigned_globeRadius := by
    rw [unsigned_iff]
    unfold globeRadius
    norm_num

instance : LawfulSum ℝ where
  isNaN_add _ _ := iff_of_false (not_isNaN _) (not_or.mpr ⟨not_isNaN _, not_isNaN _⟩)
  le_sum _ hb _ _ := le_add_of_nonneg_right ((unsigned_iff _).mp hb)
  sum_le_sum _ _ _ _ h := add_le_add_left h _

/-- Nothing is rounded. -/
instance : LawfulExact ℝ where
  not_isNaN := not_isNaN
  unsignedZero_eq a := by
    unfold unsignedZero
    split
    case isTrue h => exact le_antisymm h.2 h.1
    case isFalse => rfl
  eq_of_total := (total_eq_iff _ _).mp
  add_comm := add_comm
  add_assoc := add_assoc
  zero_add a := by
    rw [zero_eq]
    exact zero_add a
  add_le_add_right c h := by
    linarith
  distance_self p := by
    unfold Vec3.distance
    rw [angle_self, zero_mul, zero_eq]
  distance_comm p q := by
    unfold Vec3.distance
    rw [angle_eq, angle_eq, dot_comm, norm_cross_comm]

end TransitShapes
