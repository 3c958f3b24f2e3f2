import Mathlib.Data.EReal.Inv
import TransitShapes.Network.Basic
import TransitShapes.Proofs.Scalar.Real

/-! # Real numbers and the two infinities as scalars

No real number stands for a distance without an end. Here there is one, and all that is computed
from real numbers is what it is among them. The functions of angles take an infinite value for zero;
none of them is ever given one.
-/

namespace TransitShapes

open Scalar

open Classical in
noncomputable instance : Scalar EReal where
  ofScientific mantissa negative exponent :=
    ((OfScientific.ofScientific mantissa negative exponent : ℝ) : EReal)
  decidableLT := Classical.decRel _
  decidableLE := Classical.decRel _
  isFinite x := decide (x ≠ ⊤ ∧ x ≠ ⊥)
  sqrt x := if x = ⊤ then ⊤ else (Real.sqrt x.toReal : ℝ)
  sin x := (Real.sin x.toReal : ℝ)
  cos x := (Real.cos x.toReal : ℝ)
  asin x := (Real.arcsin x.toReal : ℝ)
  atan2 y x := (Complex.arg ⟨x.toReal, y.toReal⟩ : ℝ)
  pi := (Real.pi : ℝ)
  cellFloor x := if x = ⊤ then 2 ^ 63 - 1 else if x = ⊥ then -2 ^ 63 else cellFloor x.toReal
  total := compare
  total_trans := inferInstance

namespace Extended

/-! ## Order -/

theorem zero_eq : (0.0 : EReal) = 0 := congrArg Real.toEReal Exact.zero_eq

theorem not_isNaN (a : EReal) : ¬ IsNaN a := not_not_intro (le_refl a)

theorem total_isLE_iff (a b : EReal) : (total a b).isLE ↔ a ≤ b := by
  rw [Ordering.isLE_iff_ne_gt]
  exact compare_le_iff_le

theorem total_eq_iff (a b : EReal) : total a b = .eq ↔ a = b := compare_eq_iff_eq

theorem unsigned_iff (a : EReal) : Unsigned a ↔ 0 ≤ a := by
  unfold Unsigned
  rw [or_iff_right (not_isNaN a), total_isLE_iff, zero_eq]

theorem mul_self_nonneg (a : EReal) : 0 ≤ a * a := by
  rcases le_total 0 a with ha | ha
  · exact mul_nonneg ha ha
  · rw [← neg_mul_neg]
    exact mul_nonneg (EReal.neg_nonneg.mpr ha) (EReal.neg_nonneg.mpr ha)

theorem exists_real_of_mul_self_ne_top {a : EReal} (h : a * a ≠ ⊤) : ∃ r : ℝ, (r : EReal) = a := by
  induction a with
  | bot => exact absurd EReal.bot_mul_bot h
  | coe r => exact ⟨r, rfl⟩
  | top => exact absurd EReal.top_mul_top h

end Extended

open Extended

instance : LawfulOrder EReal where
  isNumber_of_le _ := ⟨not_isNaN _, not_isNaN _⟩
  le_trans := le_trans
  le_total _ _ := le_total _ _
  lt_iff := lt_iff_le_not_ge
  le_of_total _ _ h := (total_isLE_iff _ _).mp h

instance : LawfulSign EReal where
  zero_le_zero := le_refl _
  total_of_le _ _ h := (total_isLE_iff _ _).mpr h
  unsigned_mul_self a := (unsigned_iff _).mpr (mul_self_nonneg a)
  unsigned_mul ha hb := by
    rw [unsigned_iff] at *
    exact mul_nonneg ha hb
  unsigned_add ha hb := by
    rw [unsigned_iff] at *
    exact add_nonneg ha hb
  unsigned_sqrt {a} _ := by
    rw [unsigned_iff]
    change 0 ≤ if a = ⊤ then ⊤ else (Real.sqrt a.toReal : EReal)
    split
    · exact le_top
    · exact EReal.coe_nonneg.mpr (Real.sqrt_nonneg _)
  unsigned_atan2 x h := by
    rw [unsigned_iff] at *
    exact EReal.coe_nonneg.mpr (Complex.arg_nonneg_iff.mpr (EReal.toReal_nonneg h))
  unsigned_globeRadius := by
    rw [unsigned_iff]
    apply EReal.coe_nonneg.mpr
    norm_num

/-! ## Vectors with real coordinates -/

namespace Vec3

/-- A real vector among those that may have infinite coordinates. -/
def extend (v : Vec3 ℝ) : Vec3 EReal := ⟨v.x, v.y, v.z⟩

variable (p q : Vec3 ℝ)

theorem dot_extend : p.extend.dot q.extend = (p.dot q : ℝ) := rfl

theorem cross_extend : p.extend.cross q.extend = (p.cross q).extend := rfl

theorem norm_extend : p.extend.norm = (p.norm : ℝ) := by
  unfold norm
  rw [dot_extend]
  exact if_neg (EReal.coe_ne_top _)

theorem norm_extend_eq_one_iff : p.extend.norm = 1 ↔ p.norm = 1 := by
  rw [norm_extend]
  norm_cast

theorem angle_extend : p.extend.angle q.extend = (p.angle q : ℝ) := by
  unfold angle
  rw [cross_extend, norm_extend, dot_extend]
  rfl

theorem distance_extend : p.extend.distance q.extend = (p.distance q : ℝ) := by
  unfold distance
  rw [angle_extend]
  rfl

theorem squaredDistance_extend :
    p.extend.squaredDistance q.extend = (p.squaredDistance q : ℝ) := rfl

theorem exists_extend_of_norm_eq_one {v : Vec3 EReal} (h : v.norm = 1) :
    ∃ u : Vec3 ℝ, u.norm = 1 ∧ u.extend = v := by
  have hdot : v.dot v ≠ ⊤ := by
    intro htop
    have hroot : (sqrt ⊤ : EReal) = ⊤ := if_pos rfl
    unfold norm at h
    rw [htop, hroot] at h
    exact EReal.coe_ne_top 1 h.symm
  have hxy : 0 ≤ v.x * v.x + v.y * v.y := add_nonneg (mul_self_nonneg _) (mul_self_nonneg _)
  have hsum : v.x * v.x + v.y * v.y ≤ v.dot v := le_add_of_nonneg_right (mul_self_nonneg _)
  obtain ⟨x, hx⟩ := exists_real_of_mul_self_ne_top
    (ne_top_of_le_ne_top hdot ((le_add_of_nonneg_right (mul_self_nonneg v.y)).trans hsum))
  obtain ⟨y, hy⟩ := exists_real_of_mul_self_ne_top
    (ne_top_of_le_ne_top hdot ((le_add_of_nonneg_left (mul_self_nonneg v.x)).trans hsum))
  obtain ⟨z, hz⟩ := exists_real_of_mul_self_ne_top
    (ne_top_of_le_ne_top hdot (le_add_of_nonneg_left hxy))
  have hv : (⟨x, y, z⟩ : Vec3 ℝ).extend = v := Vec3.ext hx hy hz
  refine ⟨⟨x, y, z⟩, ?_, hv⟩
  rwa [← hv, norm_extend_eq_one_iff] at h

end Vec3

end TransitShapes
