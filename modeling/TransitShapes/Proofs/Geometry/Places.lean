import TransitShapes.Proofs.Geometry.Space

/-! # Latitudes and longitudes of real vectors

The angle between two vectors comes out of their latitudes and longitudes. It bounds how far the
latitudes are apart, and away from the poles how far the longitudes are.
-/

namespace TransitShapes

open Scalar

/-! ## Degrees -/

namespace Exact

variable {a b : ℝ}

theorem toDegrees_eq (a : ℝ) : toDegrees a = a * (180 / Real.pi) := by
  unfold toDegrees
  have h : (180.0 : ℝ) = 180 := by norm_num
  rw [h]
  rfl

theorem toRadians_eq (a : ℝ) : toRadians a = a * (Real.pi / 180) := by
  unfold toRadians
  have h : (180.0 : ℝ) = 180 := by norm_num
  rw [h]
  rfl

theorem toRadians_toDegrees (a : ℝ) : toRadians (toDegrees a) = a := by
  rw [toRadians_eq, toDegrees_eq]
  field_simp

theorem toDegrees_toRadians (a : ℝ) : toDegrees (toRadians a) = a := by
  rw [toDegrees_eq, toRadians_eq]
  field_simp

theorem toDegrees_le_toDegrees : toDegrees a ≤ toDegrees b ↔ a ≤ b := by
  rw [toDegrees_eq, toDegrees_eq]
  exact mul_le_mul_iff_left₀ (by positivity)

theorem toDegrees_lt_toDegrees : toDegrees a < toDegrees b ↔ a < b :=
  lt_iff_lt_of_le_iff_le toDegrees_le_toDegrees

theorem lt_toRadians_iff : b < toRadians a ↔ toDegrees b < a := by
  rw [← toDegrees_lt_toDegrees, toDegrees_toRadians]

theorem toRadians_lt_iff : toRadians a < b ↔ a < toDegrees b := by
  rw [← toDegrees_lt_toDegrees, toDegrees_toRadians]

theorem toRadians_le_iff : toRadians a ≤ b ↔ a ≤ toDegrees b := by
  rw [← toDegrees_le_toDegrees, toDegrees_toRadians]

theorem toDegrees_add (a b : ℝ) : toDegrees (a + b) = toDegrees a + toDegrees b := by
  rw [toDegrees_eq, toDegrees_eq, toDegrees_eq, add_mul]

theorem toDegrees_sub (a b : ℝ) : toDegrees (a - b) = toDegrees a - toDegrees b := by
  rw [toDegrees_eq, toDegrees_eq, toDegrees_eq, sub_mul]

theorem toDegrees_neg (a : ℝ) : toDegrees (-a) = -toDegrees a := by
  rw [toDegrees_eq, toDegrees_eq, neg_mul]

theorem toDegrees_zero : toDegrees (0 : ℝ) = 0 := by
  rw [toDegrees_eq, zero_mul]

theorem toDegrees_nonneg (h : 0 ≤ a) : 0 ≤ toDegrees a := by
  rw [← toDegrees_zero]
  exact toDegrees_le_toDegrees.mpr h

theorem abs_toDegrees (a : ℝ) : |toDegrees a| = toDegrees |a| := by
  rw [toDegrees_eq, toDegrees_eq, abs_mul, abs_of_pos (a := 180 / Real.pi) (by positivity)]

theorem toDegrees_pi : toDegrees Real.pi = 180 := by
  rw [toDegrees_eq]
  field_simp

theorem toDegrees_pi_div_two : toDegrees (Real.pi / 2) = 90 := by
  rw [toDegrees_eq]
  field_simp
  norm_num

theorem toRadians_mem_Ioo_iff :
    toRadians a ∈ Set.Ioo (-(Real.pi / 2)) (Real.pi / 2) ↔ -90 < a ∧ a < 90 := by
  rw [Set.mem_Ioo, lt_toRadians_iff, toRadians_lt_iff, toDegrees_neg, toDegrees_pi_div_two]

theorem toRadians_mem_Ioc_iff :
    toRadians a ∈ Set.Ioc (-Real.pi) Real.pi ↔ -180 < a ∧ a ≤ 180 := by
  rw [Set.mem_Ioc, lt_toRadians_iff, toRadians_le_iff, toDegrees_neg, toDegrees_pi]

theorem toDegrees_turns (turns : ℤ) : toDegrees (turns * (2 * Real.pi)) = 360 * turns := by
  rw [toDegrees_eq]
  field_simp
  ring

end Exact

namespace Vec3

section
variable {R : Type} [Scalar R]

/-- How far a vector reaches from the axis of the globe. -/
def ringRadius (v : Vec3 R) : R := sqrt (v.x * v.x + v.y * v.y)

/-- The latitude in radians. -/
def latitude (v : Vec3 R) : R := atan2 v.z v.ringRadius

/-- The longitude in radians. -/
def longitude (v : Vec3 R) : R := atan2 v.y v.x

theorem toLatLng_eq (v : Vec3 R) :
    v.toLatLng = ⟨toDegrees v.latitude, toDegrees v.longitude⟩ := rfl

end

variable {p q : Vec3 ℝ}

/-! ## Coordinates -/

theorem nonneg_ringRadius (v : Vec3 ℝ) : 0 ≤ v.ringRadius := Real.sqrt_nonneg _

theorem norm_ring (v : Vec3 ℝ) : ‖(⟨v.x, v.y⟩ : ℂ)‖ = v.ringRadius := by
  rw [Complex.norm_def, Complex.normSq_mk]
  rfl

theorem norm_meridian (v : Vec3 ℝ) : ‖(⟨v.ringRadius, v.z⟩ : ℂ)‖ = v.norm := by
  have hring : v.ringRadius * v.ringRadius = v.x * v.x + v.y * v.y :=
    Real.mul_self_sqrt (add_nonneg (mul_self_nonneg _) (mul_self_nonneg _))
  rw [Complex.norm_def, Complex.normSq_mk, hring]
  rfl

theorem norm_mul_cos_latitude (v : Vec3 ℝ) : v.norm * Real.cos v.latitude = v.ringRadius := by
  rw [← norm_meridian]
  exact Complex.norm_mul_cos_arg _

theorem norm_mul_sin_latitude (v : Vec3 ℝ) : v.norm * Real.sin v.latitude = v.z := by
  rw [← norm_meridian]
  exact Complex.norm_mul_sin_arg _

theorem ringRadius_mul_cos_longitude (v : Vec3 ℝ) :
    v.ringRadius * Real.cos v.longitude = v.x := by
  rw [← norm_ring]
  exact Complex.norm_mul_cos_arg _

theorem ringRadius_mul_sin_longitude (v : Vec3 ℝ) :
    v.ringRadius * Real.sin v.longitude = v.y := by
  rw [← norm_ring]
  exact Complex.norm_mul_sin_arg _

theorem abs_latitude_le (v : Vec3 ℝ) : |v.latitude| ≤ Real.pi / 2 :=
  Complex.abs_arg_le_pi_div_two_iff.mpr v.nonneg_ringRadius

theorem cos_latitude_nonneg (v : Vec3 ℝ) : 0 ≤ Real.cos v.latitude :=
  Real.cos_nonneg_of_mem_Icc (abs_le.mp v.abs_latitude_le)

theorem abs_longitude_le (v : Vec3 ℝ) : |v.longitude| ≤ Real.pi := Complex.abs_arg_le_pi _

/-! ## Angles -/

theorem dot_eq_places (p q : Vec3 ℝ) : p.dot q = p.norm * q.norm *
    (Real.sin p.latitude * Real.sin q.latitude +
      Real.cos p.latitude * Real.cos q.latitude * Real.cos (q.longitude - p.longitude)) := by
  unfold dot
  rw [← ringRadius_mul_cos_longitude p, ← ringRadius_mul_cos_longitude q,
    ← ringRadius_mul_sin_longitude p, ← ringRadius_mul_sin_longitude q, ← norm_mul_sin_latitude p,
    ← norm_mul_sin_latitude q, ← norm_mul_cos_latitude p, ← norm_mul_cos_latitude q, Real.cos_sub]
  ring

theorem cos_angle_eq_places (hp : p ≠ ⟨0, 0, 0⟩) (hq : q ≠ ⟨0, 0, 0⟩) :
    Real.cos (p.angle q) = Real.sin p.latitude * Real.sin q.latitude +
      Real.cos p.latitude * Real.cos q.latitude * Real.cos (q.longitude - p.longitude) := by
  have hne : p.norm * q.norm ≠ 0 := (mul_pos (pos_norm_iff.mpr hp) (pos_norm_iff.mpr hq)).ne'
  apply mul_left_cancel₀ hne
  rw [norm_mul_cos_angle, dot_eq_places]

theorem abs_latitude_sub_le (hp : p ≠ ⟨0, 0, 0⟩) (hq : q ≠ ⟨0, 0, 0⟩) :
    |q.latitude - p.latitude| ≤ p.angle q := by
  have hcos : Real.cos (p.angle q) ≤ Real.cos |q.latitude - p.latitude| := by
    rw [Real.cos_abs, Real.cos_sub, cos_angle_eq_places hp hq]
    have hturn := mul_le_mul_of_nonneg_left (Real.cos_le_one (q.longitude - p.longitude))
      (mul_nonneg p.cos_latitude_nonneg q.cos_latitude_nonneg)
    linarith
  have hrange : |q.latitude - p.latitude| ≤ Real.pi := by
    have h := abs_sub q.latitude p.latitude
    linarith [p.abs_latitude_le, q.abs_latitude_le]
  exact (Real.strictAntiOn_cos.le_iff_ge ⟨angle_nonneg p q, angle_le_pi p q⟩
    ⟨abs_nonneg _, hrange⟩).mp hcos

/-! ## Turns -/

theorem abs_arcsin (x : ℝ) : |Real.arcsin x| = Real.arcsin |x| := by
  rcases le_total 0 x with hx | hx
  · rw [abs_of_nonneg hx, abs_of_nonneg (Real.arcsin_nonneg.mpr hx)]
  · rw [abs_of_nonpos hx, abs_of_nonpos (Real.arcsin_nonpos.mpr hx), Real.arcsin_neg]

theorem exists_arcsin_sin_eq {turn : ℝ} (h : 0 ≤ Real.cos turn) :
    ∃ turns : ℤ, Real.arcsin (Real.sin turn) = turn + turns * (2 * Real.pi) := by
  have hcos : Real.cos (Real.arcsin (Real.sin turn)) = Real.cos turn := by
    rw [Real.cos_arcsin, ← Real.cos_sq', Real.sqrt_sq h]
  have hsin : Real.sin (Real.arcsin (Real.sin turn)) = Real.sin turn :=
    Real.sin_arcsin (Real.neg_one_le_sin _) (Real.sin_le_one _)
  obtain ⟨turns, hturns⟩ := Real.Angle.angle_eq_iff_two_pi_dvd_sub.mp
    (Real.Angle.cos_sin_inj hcos hsin)
  exact ⟨turns, by linarith⟩

/-! ## Circles that leave out the poles

A circle is given by the latitude of its middle and its radius. Another place in it has its own
latitude, and a longitude that is turned away from the middle.
-/

section
variable {lat other turn radius : ℝ}

theorem cos_turn_pos (hpole : |lat| + radius < Real.pi / 2) (hradius : 0 ≤ radius)
    (hother : 0 ≤ Real.cos other)
    (h : Real.cos radius ≤
      Real.sin lat * Real.sin other + Real.cos lat * Real.cos other * Real.cos turn) :
    0 < Real.cos turn := by
  have hlat : 0 ≤ Real.cos lat := Real.cos_nonneg_of_mem_Icc (abs_le.mp (by linarith))
  by_contra hback
  have hsin : Real.cos radius ≤ Real.sin |lat| :=
    calc Real.cos radius ≤ Real.sin lat * Real.sin other := by
          have := mul_nonpos_of_nonneg_of_nonpos (mul_nonneg hlat hother) (not_lt.mp hback)
          linarith
      _ ≤ |Real.sin lat| * |Real.sin other| := (le_abs_self _).trans (abs_mul _ _).le
      _ ≤ |Real.sin lat| := mul_le_of_le_one_right (abs_nonneg _) (Real.abs_sin_le_one _)
      _ = Real.sin |lat| := Real.abs_sin_eq_sin_abs_of_abs_le_pi (by linarith [Real.pi_pos])
  have hless : Real.sin |lat| < Real.sin (Real.pi / 2 - radius) :=
    Real.sin_lt_sin_of_lt_of_le_pi_div_two (by linarith [abs_nonneg lat, Real.pi_pos])
      (by linarith) (by linarith)
  rw [Real.sin_pi_div_two_sub] at hless
  exact absurd hsin hless.not_ge

theorem cos_mul_abs_sin_turn_le (hpole : |lat| + radius < Real.pi / 2) (hradius : 0 ≤ radius)
    (h : Real.cos radius ≤
      Real.sin lat * Real.sin other + Real.cos lat * Real.cos other * Real.cos turn) :
    Real.cos lat * |Real.sin turn| ≤ Real.sin radius := by
  have hlat : 0 ≤ Real.cos lat := Real.cos_nonneg_of_mem_Icc (abs_le.mp (by linarith))
  have hcos : 0 ≤ Real.cos radius :=
    Real.cos_nonneg_of_mem_Icc ⟨by linarith [Real.pi_pos], by linarith [abs_nonneg lat]⟩
  have hsin : 0 ≤ Real.sin radius :=
    Real.sin_nonneg_of_nonneg_of_le_pi hradius (by linarith [abs_nonneg lat, Real.pi_pos])
  have hcauchy : Real.cos radius ^ 2 ≤ Real.sin lat ^ 2 + (Real.cos lat * Real.cos turn) ^ 2 :=
    calc Real.cos radius ^ 2
        ≤ (Real.sin lat * Real.sin other + Real.cos lat * Real.cos other * Real.cos turn) ^ 2 :=
          pow_le_pow_left₀ hcos h 2
      _ = (Real.sin lat ^ 2 + (Real.cos lat * Real.cos turn) ^ 2) *
            (Real.sin other ^ 2 + Real.cos other ^ 2) -
          (Real.sin lat * Real.cos other - Real.cos lat * Real.cos turn * Real.sin other) ^ 2 := by
          ring
      _ ≤ Real.sin lat ^ 2 + (Real.cos lat * Real.cos turn) ^ 2 := by
          rw [Real.sin_sq_add_cos_sq, mul_one]
          exact sub_le_self _ (sq_nonneg _)
  have hturn : (Real.cos lat * Real.sin turn) ^ 2 ≤ Real.sin radius ^ 2 :=
    calc (Real.cos lat * Real.sin turn) ^ 2
        = 1 - (Real.sin lat ^ 2 + (Real.cos lat * Real.cos turn) ^ 2) := by
          rw [mul_pow, mul_pow, Real.sin_sq turn, Real.sin_sq lat]
          ring
      _ ≤ 1 - Real.cos radius ^ 2 := sub_le_sub_left hcauchy 1
      _ = Real.sin radius ^ 2 := (Real.sin_sq radius).symm
  rw [← abs_of_nonneg hlat, ← abs_mul]
  exact abs_le_of_sq_le_sq hturn hsin

end

/-- A longitude in a circle that leaves out the poles is within the reach of the circle, counted
from one side of the antimeridian or from the other. -/
theorem exists_turns {radius : ℝ} (hp : p ≠ ⟨0, 0, 0⟩) (hq : q ≠ ⟨0, 0, 0⟩)
    (hangle : p.angle q ≤ radius) (hpole : |p.latitude| + radius < Real.pi / 2) :
    ∃ turns : ℤ, |q.longitude + turns * (2 * Real.pi) - p.longitude| ≤
      Real.arcsin (Real.sin radius / Real.cos p.latitude) := by
  have hradius := (angle_nonneg p q).trans hangle
  have hcos : Real.cos radius ≤ Real.sin p.latitude * Real.sin q.latitude +
      Real.cos p.latitude * Real.cos q.latitude * Real.cos (q.longitude - p.longitude) := by
    rw [← cos_angle_eq_places hp hq]
    exact Real.cos_le_cos_of_nonneg_of_le_pi (angle_nonneg p q)
      (by linarith [abs_nonneg p.latitude, Real.pi_pos]) hangle
  have hlat : 0 < Real.cos p.latitude := by
    apply Real.cos_pos_of_mem_Ioo
    exact abs_lt.mp (by linarith)
  have hfront := cos_turn_pos hpole hradius q.cos_latitude_nonneg hcos
  have hsin := cos_mul_abs_sin_turn_le hpole hradius hcos
  obtain ⟨turns, hturns⟩ := exists_arcsin_sin_eq hfront.le
  refine ⟨turns, ?_⟩
  have hsame : q.longitude + turns * (2 * Real.pi) - p.longitude =
      Real.arcsin (Real.sin (q.longitude - p.longitude)) := by
    rw [hturns]
    ring
  rw [hsame, abs_arcsin]
  exact Real.arcsin_le_arcsin ((le_div_iff₀' hlat).mpr hsin)

end Vec3

end TransitShapes
