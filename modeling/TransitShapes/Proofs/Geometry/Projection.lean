import TransitShapes.Proofs.Geometry.Places

/-! # From places to vectors and back

A latitude and a longitude give a vector of length 1, and off the poles that vector gives them back.
Every vector of length 1 is the vector of its place, at the poles too, where any longitude would do.
How long a vector is makes no difference to its place.
-/

namespace TransitShapes

open Scalar

/-! ## Directions in the plane -/

namespace Exact

theorem atan2_mul {t : ℝ} (ht : 0 < t) (y x : ℝ) : atan2 (y * t) (x * t) = atan2 y x := by
  have hpoint : (⟨x * t, y * t⟩ : ℂ) = ⟨x, y⟩ * (t : ℂ) := by
    apply Complex.ext <;> simp
  change Complex.arg ⟨x * t, y * t⟩ = Complex.arg ⟨x, y⟩
  rw [hpoint]
  exact Complex.arg_mul_real ht _

theorem atan2_sin_cos {turn : ℝ} (h : turn ∈ Set.Ioc (-Real.pi) Real.pi) :
    atan2 (Real.sin turn) (Real.cos turn) = turn := by
  have hpoint : (⟨Real.cos turn, Real.sin turn⟩ : ℂ) =
      Complex.cos turn + Complex.sin turn * Complex.I := by
    rw [← Complex.ofReal_cos, ← Complex.ofReal_sin]
    exact Complex.mk_eq_add_mul_I _ _
  change Complex.arg ⟨Real.cos turn, Real.sin turn⟩ = turn
  rw [hpoint]
  exact Complex.arg_cos_add_sin_mul_I h

end Exact

namespace Vec3

open Exact

variable {place : LatLng ℝ}

/-! ## The vector of a place -/

theorem ofLatLng_eq (place : LatLng ℝ) : ofLatLng place =
    ⟨Real.cos (toRadians place.lng) * Real.cos (toRadians place.lat),
      Real.sin (toRadians place.lng) * Real.cos (toRadians place.lat),
      Real.sin (toRadians place.lat)⟩ := rfl

theorem ring_ofLatLng (place : LatLng ℝ) : (ofLatLng place).x * (ofLatLng place).x +
    (ofLatLng place).y * (ofLatLng place).y = Real.cos (toRadians place.lat) ^ 2 := by
  rw [ofLatLng_eq]
  calc _ = (Real.sin (toRadians place.lng) ^ 2 + Real.cos (toRadians place.lng) ^ 2) *
        Real.cos (toRadians place.lat) ^ 2 := by ring
    _ = Real.cos (toRadians place.lat) ^ 2 := by rw [Real.sin_sq_add_cos_sq, one_mul]

theorem norm_ofLatLng (place : LatLng ℝ) : (ofLatLng place).norm = 1 := by
  apply norm_eq_one
  unfold dot
  rw [ring_ofLatLng, ofLatLng_eq, ← sq, Real.cos_sq_add_sin_sq]

theorem ringRadius_ofLatLng (h : 0 ≤ Real.cos (toRadians place.lat)) :
    (ofLatLng place).ringRadius = Real.cos (toRadians place.lat) :=
  (congrArg Real.sqrt (ring_ofLatLng place)).trans (Real.sqrt_sq h)

theorem latitude_ofLatLng (h : toRadians place.lat ∈ Set.Ioo (-(Real.pi / 2)) (Real.pi / 2)) :
    (ofLatLng place).latitude = toRadians place.lat := by
  unfold latitude
  rw [ringRadius_ofLatLng (Real.cos_pos_of_mem_Ioo h).le]
  apply atan2_sin_cos
  constructor <;> linarith [h.1, h.2, Real.pi_pos]

theorem longitude_ofLatLng (hlat : toRadians place.lat ∈ Set.Ioo (-(Real.pi / 2)) (Real.pi / 2))
    (hlng : toRadians place.lng ∈ Set.Ioc (-Real.pi) Real.pi) :
    (ofLatLng place).longitude = toRadians place.lng :=
  (atan2_mul (Real.cos_pos_of_mem_Ioo hlat) _ _).trans (atan2_sin_cos hlng)

theorem toLatLng_ofLatLng (hlat : -90 < place.lat ∧ place.lat < 90)
    (hlng : -180 < place.lng ∧ place.lng ≤ 180) : (ofLatLng place).toLatLng = place := by
  rw [← toRadians_mem_Ioo_iff] at hlat
  rw [← toRadians_mem_Ioc_iff] at hlng
  rw [toLatLng_eq, latitude_ofLatLng hlat, longitude_ofLatLng hlat hlng, toDegrees_toRadians,
    toDegrees_toRadians]

/-! ## The place of a vector -/

theorem scale_ofLatLng_toLatLng (p : Vec3 ℝ) : (ofLatLng p.toLatLng).scale p.norm = p := by
  rw [toLatLng_eq, ofLatLng_eq, toRadians_toDegrees, toRadians_toDegrees]
  apply Vec3.ext
  case x =>
    calc Real.cos p.longitude * Real.cos p.latitude * p.norm
        = p.norm * Real.cos p.latitude * Real.cos p.longitude := by ring
      _ = p.x := by rw [norm_mul_cos_latitude, ringRadius_mul_cos_longitude]
  case y =>
    calc Real.sin p.longitude * Real.cos p.latitude * p.norm
        = p.norm * Real.cos p.latitude * Real.sin p.longitude := by ring
      _ = p.y := by rw [norm_mul_cos_latitude, ringRadius_mul_sin_longitude]
  case z => exact (mul_comm _ _).trans (norm_mul_sin_latitude p)

theorem scale_one (v : Vec3 ℝ) : v.scale 1 = v := by
  apply Vec3.ext <;> exact mul_one _

theorem ofLatLng_toLatLng {p : Vec3 ℝ} (hp : p.norm = 1) : ofLatLng p.toLatLng = p := by
  have h := scale_ofLatLng_toLatLng p
  rwa [hp, scale_one] at h

theorem ringRadius_scale (v : Vec3 ℝ) {t : ℝ} (ht : 0 ≤ t) :
    (v.scale t).ringRadius = v.ringRadius * t := by
  have hsquare : (v.scale t).x * (v.scale t).x + (v.scale t).y * (v.scale t).y =
      (v.x * v.x + v.y * v.y) * t ^ 2 := by
    simp only [scale_x, scale_y]
    ring
  change Real.sqrt _ = Real.sqrt _ * t
  rw [hsquare, Real.sqrt_mul (add_nonneg (mul_self_nonneg _) (mul_self_nonneg _)), Real.sqrt_sq ht]

theorem latitude_scale (v : Vec3 ℝ) {t : ℝ} (ht : 0 < t) : (v.scale t).latitude = v.latitude := by
  unfold latitude
  rw [ringRadius_scale v ht.le]
  exact atan2_mul ht _ _

theorem longitude_scale (v : Vec3 ℝ) {t : ℝ} (ht : 0 < t) :
    (v.scale t).longitude = v.longitude := atan2_mul ht _ _

theorem toLatLng_scale (v : Vec3 ℝ) {t : ℝ} (ht : 0 < t) : (v.scale t).toLatLng = v.toLatLng := by
  rw [toLatLng_eq, toLatLng_eq, latitude_scale v ht, longitude_scale v ht]

/-! ## There and back -/

/-- **Places and vectors of length 1 stand for each other.** A place off the poles, with its
longitude within one turn, is the place of its vector. A vector of length 1 is the vector of its
place, wherever it points. Vectors in one direction have one place. -/
theorem toLatLng_ofLatLng_inverse :
    (∀ place : LatLng ℝ, -90 < place.lat ∧ place.lat < 90 → -180 < place.lng ∧ place.lng ≤ 180 →
      (ofLatLng place).toLatLng = place ∧ (ofLatLng place).norm = 1) ∧
    (∀ p : Vec3 ℝ, p.norm = 1 → ofLatLng p.toLatLng = p) ∧
    ∀ (p : Vec3 ℝ) (t : ℝ), 0 < t → (p.scale t).toLatLng = p.toLatLng :=
  ⟨fun place hlat hlng => ⟨toLatLng_ofLatLng hlat hlng, norm_ofLatLng place⟩,
    fun _ hp => ofLatLng_toLatLng hp, fun p _ ht => toLatLng_scale p ht⟩

theorem ofLatLng_antimeridian : ofLatLng ⟨30, 180⟩ = (⟨-(√3 / 2), 0, 1 / 2⟩ : Vec3 ℝ) := by
  have hlat : toRadians (30 : ℝ) = Real.pi / 6 := by
    rw [toRadians_eq]
    ring
  have hlng : toRadians (180 : ℝ) = Real.pi := by
    rw [← toDegrees_pi, toRadians_toDegrees]
  rw [ofLatLng_eq, hlat, hlng, Real.cos_pi, Real.sin_pi, Real.cos_pi_div_six, Real.sin_pi_div_six,
    neg_one_mul, zero_mul]

theorem toLatLng_southPole : (⟨0, 0, -1⟩ : Vec3 ℝ).toLatLng = ⟨-90, 0⟩ := by
  have hring : (⟨0, 0, -1⟩ : Vec3 ℝ).ringRadius = 0 := by
    rw [← norm_ring]
    exact norm_zero
  have hlatitude : (⟨0, 0, -1⟩ : Vec3 ℝ).latitude = -(Real.pi / 2) := by
    unfold latitude
    rw [hring]
    exact Complex.arg_eq_neg_pi_div_two_iff.mpr ⟨rfl, neg_one_lt_zero⟩
  have hlongitude : (⟨0, 0, -1⟩ : Vec3 ℝ).longitude = 0 := Complex.arg_zero
  rw [toLatLng_eq, hlatitude, hlongitude, toDegrees_neg, toDegrees_pi_div_two, toDegrees_zero]

/-- A place on the antimeridian, with vectors of length 1 and of length 2 towards it, and the south
pole. -/
theorem antimeridian_toLatLng_ofLatLng :
    ofLatLng ⟨30, 180⟩ = (⟨-(√3 / 2), 0, 1 / 2⟩ : Vec3 ℝ) ∧
      (⟨-(√3 / 2), 0, 1 / 2⟩ : Vec3 ℝ).norm = 1 ∧
      (⟨-(√3 / 2), 0, 1 / 2⟩ : Vec3 ℝ).toLatLng = ⟨30, 180⟩ ∧
      (⟨-√3, 0, 1⟩ : Vec3 ℝ).toLatLng = ⟨30, 180⟩ ∧
      (⟨0, 0, -1⟩ : Vec3 ℝ).norm = 1 ∧ (⟨0, 0, -1⟩ : Vec3 ℝ).toLatLng = ⟨-90, 0⟩ ∧
      ofLatLng ⟨-90, 0⟩ = (⟨0, 0, -1⟩ : Vec3 ℝ) := by
  obtain ⟨hplace, hvector, hscale⟩ := toLatLng_ofLatLng_inverse
  obtain ⟨hback, hunit⟩ := hplace ⟨30, 180⟩ (by norm_num) (by norm_num)
  rw [ofLatLng_antimeridian] at hback hunit
  have hdouble : (⟨-(√3 / 2), 0, 1 / 2⟩ : Vec3 ℝ).scale 2 = ⟨-√3, 0, 1⟩ := by
    apply Vec3.ext <;> simp
  have hpole : (⟨0, 0, -1⟩ : Vec3 ℝ).norm = 1 := norm_eq_one (by unfold dot; norm_num)
  refine ⟨ofLatLng_antimeridian, hunit, hback, ?_, hpole, toLatLng_southPole, ?_⟩
  · rw [← hdouble, hscale _ 2 two_pos, hback]
  · rw [← toLatLng_southPole, hvector _ hpole]

end Vec3

end TransitShapes
