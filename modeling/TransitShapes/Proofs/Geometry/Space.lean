import Mathlib.Analysis.InnerProductSpace.PiL2
import Mathlib.Geometry.Euclidean.Angle.Unoriented.TriangleInequality
import TransitShapes.Proofs.Scalar.Real

/-! # Real vectors and the angles between them

Where nothing is rounded, vectors are points of Euclidean space, and the angle between two of them
is the one between those points. Lengths and products say what it is.
-/

namespace TransitShapes.Vec3

/-! ## Coordinates -/

section
variable {R : Type} [Scalar R] (p q : Vec3 R) (t : R)

@[simp] theorem add_x : (p + q).x = p.x + q.x := rfl
@[simp] theorem add_y : (p + q).y = p.y + q.y := rfl
@[simp] theorem add_z : (p + q).z = p.z + q.z := rfl
@[simp] theorem sub_x : (p - q).x = p.x - q.x := rfl
@[simp] theorem sub_y : (p - q).y = p.y - q.y := rfl
@[simp] theorem sub_z : (p - q).z = p.z - q.z := rfl
@[simp] theorem scale_x : (p.scale t).x = p.x * t := rfl
@[simp] theorem scale_y : (p.scale t).y = p.y * t := rfl
@[simp] theorem scale_z : (p.scale t).z = p.z * t := rfl

end

variable {p q r : Vec3 ℝ}

/-! ## Products -/

theorem dot_add (p q r : Vec3 ℝ) : p.dot (q + r) = p.dot q + p.dot r := by
  simp only [dot, add_x, add_y, add_z]
  ring

theorem dot_sub (p q r : Vec3 ℝ) : p.dot (q - r) = p.dot q - p.dot r := by
  simp only [dot, sub_x, sub_y, sub_z]
  ring

theorem dot_scale (p q : Vec3 ℝ) (t : ℝ) : p.dot (q.scale t) = p.dot q * t := by
  simp only [dot, scale_x, scale_y, scale_z]
  ring

theorem dot_cross_left (p q : Vec3 ℝ) : p.dot (p.cross q) = 0 := by
  unfold dot cross
  ring

theorem dot_cross_right (p q : Vec3 ℝ) : q.dot (p.cross q) = 0 := by
  unfold dot cross
  ring

theorem cross_dot_cross (p q : Vec3 ℝ) :
    (p.cross q).dot (p.cross q) = p.dot p * q.dot q - p.dot q * p.dot q := by
  unfold dot cross
  ring

/-! ## Length -/

theorem nonneg_norm (v : Vec3 ℝ) : 0 ≤ v.norm := Real.sqrt_nonneg _

theorem norm_mul_self (v : Vec3 ℝ) : v.norm * v.norm = v.dot v :=
  Real.mul_self_sqrt (Exact.dot_self_nonneg v)

theorem dot_self_eq_one (h : p.norm = 1) : p.dot p = 1 := by
  rw [← norm_mul_self, h, one_mul]

theorem norm_eq_one (h : p.dot p = 1) : p.norm = 1 :=
  (congrArg Real.sqrt h).trans Real.sqrt_one

theorem sub_dot_sub (hp : p.norm = 1) (hq : q.norm = 1) :
    (p - q).dot (p - q) = 2 - 2 * p.dot q := by
  have hp := dot_self_eq_one hp
  have hq := dot_self_eq_one hq
  simp only [dot, sub_x, sub_y, sub_z] at hp hq ⊢
  linarith

theorem norm_sub_le_norm_sub_iff (hp : p.norm = 1) (hq : q.norm = 1) (hr : r.norm = 1) :
    (p - q).norm ≤ (p - r).norm ↔ p.dot r ≤ p.dot q := by
  refine (Real.sqrt_le_sqrt_iff (Exact.dot_self_nonneg _)).trans ?_
  rw [sub_dot_sub hp hq, sub_dot_sub hp hr]
  constructor <;> intro h <;> linarith

theorem norm_eq_zero_iff : p.norm = 0 ↔ p = ⟨0, 0, 0⟩ := by
  constructor
  · intro h
    have hdot : p.x * p.x + p.y * p.y + p.z * p.z = 0 := by
      have hsquare := norm_mul_self p
      rw [h, zero_mul] at hsquare
      exact hsquare.symm
    apply Vec3.ext <;> nlinarith [mul_self_nonneg p.x, mul_self_nonneg p.y, mul_self_nonneg p.z]
  · rintro rfl
    simp [Exact.norm_eq]

theorem pos_norm_iff : 0 < p.norm ↔ p ≠ ⟨0, 0, 0⟩ := by
  rw [(nonneg_norm p).lt_iff_ne', ne_eq, norm_eq_zero_iff]

theorem norm_scale (v : Vec3 ℝ) {t : ℝ} (ht : 0 ≤ t) : (v.scale t).norm = v.norm * t := by
  have hdot : (v.scale t).dot (v.scale t) = v.dot v * t ^ 2 := by
    simp only [dot, scale_x, scale_y, scale_z]
    ring
  change Real.sqrt _ = Real.sqrt _ * t
  rw [hdot, Real.sqrt_mul (Exact.dot_self_nonneg v), Real.sqrt_sq ht]

/-! ## Points of Euclidean space -/

noncomputable def toSpace (v : Vec3 ℝ) : EuclideanSpace ℝ (Fin 3) := !₂[v.x, v.y, v.z]

theorem inner_toSpace (p q : Vec3 ℝ) : inner ℝ p.toSpace q.toSpace = p.dot q := by
  simp only [toSpace, PiLp.inner_apply, Fin.sum_univ_three]
  unfold dot
  simp
  ring

theorem norm_toSpace (v : Vec3 ℝ) : ‖v.toSpace‖ = v.norm := by
  rw [norm_eq_sqrt_real_inner, inner_toSpace]
  rfl

theorem toSpace_add (p q : Vec3 ℝ) : (p + q).toSpace = p.toSpace + q.toSpace := by
  ext i
  fin_cases i <;> rfl

theorem toSpace_scale (v : Vec3 ℝ) (t : ℝ) : (v.scale t).toSpace = t • v.toSpace := by
  ext i
  fin_cases i <;> exact mul_comm _ _

theorem dot_le_norm_mul_norm (p q : Vec3 ℝ) : p.dot q ≤ p.norm * q.norm := by
  rw [← inner_toSpace, ← norm_toSpace, ← norm_toSpace]
  exact real_inner_le_norm _ _

theorem dot_le_one (hp : p.norm = 1) (hq : q.norm = 1) : p.dot q ≤ 1 := by
  have h := dot_le_norm_mul_norm p q
  rwa [hp, hq, one_mul] at h

theorem neg_one_le_dot (hp : p.norm = 1) (hq : q.norm = 1) : -1 ≤ p.dot q := by
  have h := (abs_le.mp (abs_real_inner_le_norm p.toSpace q.toSpace)).1
  rwa [inner_toSpace, norm_toSpace, norm_toSpace, hp, hq, one_mul] at h

/-! ## Angles -/

theorem norm_products (p q : Vec3 ℝ) :
    ‖(⟨p.dot q, (p.cross q).norm⟩ : ℂ)‖ = p.norm * q.norm := by
  rw [← sq_eq_sq₀ (norm_nonneg _) (mul_nonneg p.nonneg_norm q.nonneg_norm), Complex.sq_norm,
    Complex.normSq_mk, norm_mul_self, cross_dot_cross, ← norm_mul_self, ← norm_mul_self]
  ring

theorem norm_mul_cos_angle (p q : Vec3 ℝ) :
    p.norm * q.norm * Real.cos (p.angle q) = p.dot q := by
  rw [← norm_products]
  exact Complex.norm_mul_cos_arg _

theorem angle_nonneg (p q : Vec3 ℝ) : 0 ≤ p.angle q :=
  Complex.arg_nonneg_iff.mpr (nonneg_norm _)

theorem angle_le_pi (p q : Vec3 ℝ) : p.angle q ≤ Real.pi := Complex.arg_le_pi _

theorem angle_eq_angle_toSpace (hp : p ≠ ⟨0, 0, 0⟩) (hq : q ≠ ⟨0, 0, 0⟩) :
    p.angle q = InnerProductGeometry.angle p.toSpace q.toSpace := by
  have hnorm : (⟨p.dot q, (p.cross q).norm⟩ : ℂ) ≠ 0 := by
    rw [← norm_pos_iff, norm_products]
    exact mul_pos (pos_norm_iff.mpr hp) (pos_norm_iff.mpr hq)
  rw [Exact.angle_eq, Complex.arg_of_im_nonneg_of_ne_zero (nonneg_norm _) hnorm, norm_products]
  unfold InnerProductGeometry.angle
  rw [inner_toSpace, norm_toSpace, norm_toSpace]

theorem ne_zero_of_unit (h : p.norm = 1) : p ≠ ⟨0, 0, 0⟩ :=
  pos_norm_iff.mp (h ▸ one_pos)

theorem cos_angle_of_unit (hp : p.norm = 1) (hq : q.norm = 1) :
    Real.cos (p.angle q) = p.dot q := by
  have h := norm_mul_cos_angle p q
  rwa [hp, hq, one_mul, one_mul] at h

theorem angle_le_angle_iff (hp : p.norm = 1) (hq : q.norm = 1) (hr : r.norm = 1) :
    p.angle q ≤ p.angle r ↔ p.dot r ≤ p.dot q := by
  rw [← cos_angle_of_unit hp hq, ← cos_angle_of_unit hp hr]
  exact (Real.strictAntiOn_cos.le_iff_ge ⟨angle_nonneg p r, angle_le_pi p r⟩
    ⟨angle_nonneg p q, angle_le_pi p q⟩).symm

/-! ## Distances -/

theorem globeRadius_pos : 0 < (globeRadius : ℝ) := by
  unfold globeRadius
  norm_num

theorem distance_le_distance_iff {p q r s : Vec3 ℝ} :
    p.distance q ≤ r.distance s ↔ p.angle q ≤ r.angle s :=
  mul_le_mul_iff_left₀ globeRadius_pos

end TransitShapes.Vec3
