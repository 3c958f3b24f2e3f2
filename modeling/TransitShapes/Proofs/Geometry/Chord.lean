import TransitShapes.Proofs.Geometry.Space
import TransitShapes.Proofs.Scalar.Extended

/-! # Straight lines through the globe

Of two places the nearer one along the globe is the nearer one in a straight line, and no place
within a distance is farther in a straight line than the chord that spans the distance.
-/

namespace TransitShapes

open Network

/-! ## Among the reals -/

section
variable {p q r : Vec3 ℝ}

theorem Vec3.squaredDistance_eq (hp : p.norm = 1) (hq : q.norm = 1) :
    p.squaredDistance q = 2 - 2 * Real.cos (p.angle q) := by
  rw [cos_angle_of_unit hp hq]
  exact sub_dot_sub hp hq

theorem Vec3.squaredDistance_le_iff (hp : p.norm = 1) (hq : q.norm = 1) (hr : r.norm = 1) :
    p.squaredDistance q ≤ p.squaredDistance r ↔ p.distance q ≤ p.distance r := by
  rw [distance_le_distance_iff, angle_le_angle_iff hp hq hr, ← cos_angle_of_unit hp hq,
    ← cos_angle_of_unit hp hr, squaredDistance_eq hp hq, squaredDistance_eq hp hr]
  constructor <;> intro h <;> linarith

theorem Exact.min_eq (a b : ℝ) : Scalar.min a b = min a b := by
  unfold Scalar.min
  rw [if_neg (not_isNaN a)]
  split
  case isTrue h => exact (min_eq_right h.le).symm
  case isFalse h => exact (min_eq_left (not_lt.mp h)).symm

theorem Network.squaredReach_eq (maxDistance : ℝ) : squaredReach maxDistance =
    2 - 2 * Real.cos (min (maxDistance / globeRadius) Real.pi) + 1e-12 := by
  have hchord (angle : ℝ) : 2.0 * Scalar.sin (angle / 2.0) * (2.0 * Scalar.sin (angle / 2.0)) =
      2 - 2 * Real.cos angle := by
    have htwo : (2.0 : ℝ) = 2 := by norm_num
    have hcos := Real.cos_two_mul_eq_one_sub (angle / 2)
    rw [mul_div_cancel₀ angle two_ne_zero] at hcos
    rw [htwo, hcos]
    change 2 * Real.sin (angle / 2) * (2 * Real.sin (angle / 2)) = _
    ring
  unfold squaredReach
  dsimp only
  rw [hchord, Exact.min_eq]
  rfl

theorem Vec3.squaredDistance_le_squaredReach (hp : p.norm = 1) (hq : q.norm = 1) {maxDistance : ℝ}
    (h : p.distance q ≤ maxDistance) : p.squaredDistance q ≤ squaredReach maxDistance := by
  have hangle : p.angle q ≤ min (maxDistance / globeRadius) Real.pi :=
    le_min ((le_div_iff₀ globeRadius_pos).mpr h) (angle_le_pi p q)
  have hcos := Real.cos_le_cos_of_nonneg_of_le_pi (angle_nonneg p q) (min_le_right _ _) hangle
  rw [squaredDistance_eq hp hq, squaredReach_eq]
  linarith

end

/-! ## With the two infinities -/

namespace Extended

theorem coe_min (a b : ℝ) : Scalar.min (a : EReal) b = ((Scalar.min a b : ℝ) : EReal) := by
  unfold Scalar.min
  simp only [EReal.coe_lt_coe_iff, not_isNaN, Exact.not_isNaN, if_false]
  split <;> rfl

theorem squaredReach_coe (maxDistance : ℝ) :
    squaredReach (maxDistance : EReal) = ((squaredReach maxDistance : ℝ) : EReal) := by
  have hmin : Scalar.min ((maxDistance : EReal) / globeRadius) Scalar.pi =
      ((Scalar.min (maxDistance / globeRadius) Scalar.pi : ℝ) : EReal) := coe_min _ _
  unfold squaredReach
  rw [hmin]
  rfl

theorem squaredReach_top :
    squaredReach (⊤ : EReal) = ((squaredReach (Real.pi * globeRadius) : ℝ) : EReal) := by
  have hradius : (0 : EReal) < globeRadius := EReal.coe_pos.mpr Vec3.globeRadius_pos
  have hend : Scalar.min ((⊤ : EReal) / globeRadius) Scalar.pi = Scalar.pi := by
    rw [EReal.top_div_of_pos_ne_top hradius (EReal.coe_ne_top _)]
    exact if_pos (EReal.coe_lt_top _)
  have hfar : Scalar.min (Real.pi * globeRadius / globeRadius) Scalar.pi = Real.pi := by
    rw [Exact.min_eq, mul_div_cancel_right₀ _ Vec3.globeRadius_pos.ne']
    exact min_self _
  unfold squaredReach
  rw [hend, hfar]
  rfl

variable {p q r : Vec3 EReal}

theorem squaredDistance_le_iff (hp : p.norm = 1) (hq : q.norm = 1) (hr : r.norm = 1) :
    p.squaredDistance q ≤ p.squaredDistance r ↔ p.distance q ≤ p.distance r := by
  obtain ⟨u, hu, rfl⟩ := Vec3.exists_extend_of_norm_eq_one hp
  obtain ⟨v, hv, rfl⟩ := Vec3.exists_extend_of_norm_eq_one hq
  obtain ⟨w, hw, rfl⟩ := Vec3.exists_extend_of_norm_eq_one hr
  simp only [Vec3.squaredDistance_extend, Vec3.distance_extend, EReal.coe_le_coe_iff]
  exact Vec3.squaredDistance_le_iff hu hv hw

theorem squaredDistance_le_squaredReach (hp : p.norm = 1) (hq : q.norm = 1) {maxDistance : EReal}
    (h : p.distance q ≤ maxDistance) : p.squaredDistance q ≤ squaredReach maxDistance := by
  obtain ⟨u, hu, rfl⟩ := Vec3.exists_extend_of_norm_eq_one hp
  obtain ⟨v, hv, rfl⟩ := Vec3.exists_extend_of_norm_eq_one hq
  rw [Vec3.distance_extend] at h
  rw [Vec3.squaredDistance_extend]
  induction maxDistance with
  | bot => exact absurd h (EReal.bot_lt_coe _).not_ge
  | coe maxDistance =>
    rw [squaredReach_coe]
    exact EReal.coe_le_coe_iff.mpr
      (Vec3.squaredDistance_le_squaredReach hu hv (EReal.coe_le_coe_iff.mp h))
  | top =>
    have hfar : u.distance v ≤ Real.pi * globeRadius :=
      mul_le_mul_of_nonneg_right (Vec3.angle_le_pi u v) Vec3.globeRadius_pos.le
    rw [squaredReach_top]
    exact EReal.coe_le_coe_iff.mpr (Vec3.squaredDistance_le_squaredReach hu hv hfar)

end Extended

end TransitShapes
