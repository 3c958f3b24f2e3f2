import TransitShapes.Proofs.Geometry.Space

/-! # Normals of real vectors

A vector that is not zero has a perpendicular. Two vectors that span a plane have their cross
product as the normal of that plane.
-/

namespace TransitShapes

open Scalar

theorem Exact.abs_eq (a : ℝ) : Scalar.abs a = |a| := by
  unfold Scalar.abs
  rw [zero_eq]
  split
  case isTrue h => exact (abs_of_neg h).symm
  case isFalse h => exact (abs_of_nonneg (not_lt.mp h)).symm

theorem Exact.isZero_iff (a : ℝ) : IsZero a ↔ a = 0 := by
  unfold IsZero
  rw [zero_eq]
  exact le_antisymm_iff.symm

namespace Vec3

variable {a b v : Vec3 ℝ}

/-! ## Vectors of length 1 -/

theorem normalized_eq (h : v ≠ ⟨0, 0, 0⟩) : v.normalized = .ok (v.scale (1 / v.norm)) := by
  unfold normalized
  have hfinite : isFinite v.norm = true := rfl
  have hlength : ¬ IsZero v.norm := by
    rw [Exact.isZero_iff, norm_eq_zero_iff]
    exact h
  have hone : (1.0 : ℝ) = 1 := by norm_num
  simp only [hfinite, not_true_eq_false, if_false, if_neg hlength, hone]

theorem norm_scale_inv (h : v ≠ ⟨0, 0, 0⟩) : (v.scale (1 / v.norm)).norm = 1 := by
  have hpos := pos_norm_iff.mpr h
  rw [norm_scale v (by positivity)]
  field_simp

/-! ## Perpendiculars -/

theorem abs_coordinate_le (v : Vec3 ℝ) (axis : Axis) :
    |v.coordinate axis| ≤ |v.coordinate v.dominantAxis| := by
  unfold dominantAxis
  simp only [Exact.abs_eq]
  split
  case isTrue hyx =>
    split
    case isTrue hzx => cases axis <;> simp only [coordinate] <;> linarith
    case isFalse hxz => cases axis <;> simp only [coordinate] <;> linarith
  case isFalse hxy =>
    split
    case isTrue hzy => cases axis <;> simp only [coordinate] <;> linarith
    case isFalse hyz => cases axis <;> simp only [coordinate] <;> linarith

theorem coordinate_dominantAxis_ne_zero (h : v ≠ ⟨0, 0, 0⟩) : v.coordinate v.dominantAxis ≠ 0 := by
  intro hzero
  have hall : ∀ axis, v.coordinate axis = 0 := by
    intro axis
    have hle := v.abs_coordinate_le axis
    rw [hzero, abs_zero] at hle
    exact abs_nonpos_iff.mp hle
  exact h (Vec3.ext (hall .x) (hall .y) (hall .z))

theorem coordinate_mul_of_cross_eq_zero (h : a.cross b = ⟨0, 0, 0⟩) (i j : Axis) :
    a.coordinate i * b.coordinate j = a.coordinate j * b.coordinate i := by
  have hx : a.y * b.z - a.z * b.y = 0 := congrArg Vec3.x h
  have hy : a.z * b.x - a.x * b.z = 0 := congrArg Vec3.y h
  have hz : a.x * b.y - a.y * b.x = 0 := congrArg Vec3.z h
  cases i <;> cases j <;> simp only [coordinate] <;> linarith

theorem coordinate_setCoordinate (t : Vec3 ℝ) (axis : Axis) (value : ℝ) :
    (t.setCoordinate axis value).coordinate axis = value := by
  cases axis <;> rfl

theorem coordinate_setCoordinate_previous (t : Vec3 ℝ) (axis : Axis) (value : ℝ) :
    (t.setCoordinate axis.previous value).coordinate axis = t.coordinate axis := by
  cases axis <;> rfl

theorem abs_coordinate_slanted_le (axis : Axis) :
    |(⟨0.012, 0.053, 0.00457⟩ : Vec3 ℝ).coordinate axis| ≤ 0.053 := by
  rw [abs_le]
  cases axis <;> simp only [coordinate] <;> norm_num

theorem cross_slanted_ne_zero (h : v ≠ ⟨0, 0, 0⟩) :
    v.cross ((⟨0.012, 0.053, 0.00457⟩ : Vec3 ℝ).setCoordinate v.dominantAxis.previous 1.0) ≠
      ⟨0, 0, 0⟩ := by
  intro hcross
  have hmul := coordinate_mul_of_cross_eq_zero hcross v.dominantAxis v.dominantAxis.previous
  rw [coordinate_setCoordinate, coordinate_setCoordinate_previous] at hmul
  have hpos := abs_pos.mpr (coordinate_dominantAxis_ne_zero h)
  have hbound : |v.coordinate v.dominantAxis| ≤ |v.coordinate v.dominantAxis| * 0.053 :=
    calc |v.coordinate v.dominantAxis| = |v.coordinate v.dominantAxis * 1.0| := by norm_num
      _ = |v.coordinate v.dominantAxis.previous| * _ := by rw [hmul, abs_mul]
      _ ≤ |v.coordinate v.dominantAxis| * 0.053 :=
        mul_le_mul (v.abs_coordinate_le _) (abs_coordinate_slanted_le _) (abs_nonneg _)
          (abs_nonneg _)
  linarith

theorem exists_perpendicular (h : v ≠ ⟨0, 0, 0⟩) :
    ∃ n, v.perpendicular = .ok n ∧ n.norm = 1 ∧ v.dot n = 0 := by
  have hne := cross_slanted_ne_zero h
  refine ⟨_, normalized_eq hne, norm_scale_inv hne, ?_⟩
  rw [dot_scale, dot_cross_left, zero_mul]

/-! ## Planes -/

/-- Two vectors that `arcNormal` takes to span a plane: their sum and difference have a cross
product that is not nearly nothing. -/
def SpansPlane {R : Type} [Scalar R] (a b : Vec3 R) : Prop :=
  1e-15 < Scalar.abs ((a + b).cross (b - a)).x ∨ 1e-15 < Scalar.abs ((a + b).cross (b - a)).y ∨
    1e-15 < Scalar.abs ((a + b).cross (b - a)).z

theorem cross_add_sub (a b : Vec3 ℝ) : (a + b).cross (b - a) = (a.cross b).scale 2 := by
  apply Vec3.ext <;> simp [cross] <;> ring

theorem spansPlane_iff : a.SpansPlane b ↔ ∃ axis, 1e-15 < |(a.cross b).coordinate axis| * 2 := by
  unfold SpansPlane
  rw [cross_add_sub]
  simp only [Exact.abs_eq, scale_x, scale_y, scale_z, abs_mul, abs_two]
  constructor
  · rintro (h | h | h)
    · exact ⟨.x, h⟩
    · exact ⟨.y, h⟩
    · exact ⟨.z, h⟩
  · rintro ⟨axis, h⟩
    cases axis with
    | x => exact Or.inl h
    | y => exact Or.inr (Or.inl h)
    | z => exact Or.inr (Or.inr h)

theorem SpansPlane.cross_ne_zero (h : a.SpansPlane b) : a.cross b ≠ ⟨0, 0, 0⟩ := by
  intro hcross
  obtain ⟨axis, haxis⟩ := spansPlane_iff.mp h
  have hzero : (a.cross b).coordinate axis = 0 := by
    rw [hcross]
    cases axis <;> rfl
  rw [hzero, abs_zero, zero_mul] at haxis
  norm_num at haxis

theorem not_spansPlane_self (a : Vec3 ℝ) : ¬ a.SpansPlane a := by
  intro h
  apply h.cross_ne_zero
  apply Vec3.ext <;> simp [cross] <;> ring

theorem arcNormal_of_spansPlane (h : a.SpansPlane b) : a.arcNormal b = .ok (a.cross b) := by
  have hhalf : ((a + b).cross (b - a)).scale 0.5 = a.cross b := by
    rw [cross_add_sub]
    apply Vec3.ext <;> simp only [scale_x, scale_y, scale_z] <;> norm_num <;> ring
  unfold arcNormal
  exact (if_pos h).trans (congrArg _ hhalf)

theorem arcNormal_of_not_spansPlane (h : ¬ a.SpansPlane b) : a.arcNormal b = a.perpendicular :=
  if_neg h

/-! ## Every normal -/

theorem neg_eq (v : Vec3 ℝ) : -v = ⟨-v.x, -v.y, -v.z⟩ := by
  apply Vec3.ext <;> change _ * (-1.0) = _ <;> norm_num

theorem coordinate_neg (v : Vec3 ℝ) (axis : Axis) :
    (-v).coordinate axis = -v.coordinate axis := by
  rw [neg_eq]
  cases axis <;> rfl

theorem cross_swap (a b : Vec3 ℝ) : b.cross a = -(a.cross b) := by
  rw [neg_eq]
  apply Vec3.ext <;> simp only [cross] <;> ring

theorem SpansPlane.symm (h : a.SpansPlane b) : b.SpansPlane a := by
  obtain ⟨axis, haxis⟩ := spansPlane_iff.mp h
  refine spansPlane_iff.mpr ⟨axis, ?_⟩
  rwa [cross_swap, coordinate_neg, abs_neg]

/-- **Two vectors have a normal, unless the first is zero.** If they span a plane it is their cross
product, and the other way round it points to the other side. If they do not it is the perpendicular
of the first, which has length 1. No tie between coordinates leaves a vector without one. -/
theorem arcNormal_exact (a b : Vec3 ℝ) (ha : a ≠ ⟨0, 0, 0⟩) :
    (∃ n, a.arcNormal b = .ok n ∧ n ≠ ⟨0, 0, 0⟩ ∧ n.dot a = 0 ∧
      (a.SpansPlane b → n = a.cross b ∧ n.dot b = 0 ∧ b.arcNormal a = .ok (-n)) ∧
      (¬ a.SpansPlane b → a.perpendicular = .ok n ∧ n.norm = 1)) ∧
    ∀ v : Vec3 ℝ, v ≠ ⟨0, 0, 0⟩ → ∃ n, v.perpendicular = .ok n ∧ n.norm = 1 ∧ n.dot v = 0 := by
  have hperpendicular : ∀ v : Vec3 ℝ, v ≠ ⟨0, 0, 0⟩ →
      ∃ n, v.perpendicular = .ok n ∧ n.norm = 1 ∧ n.dot v = 0 := by
    intro v hv
    obtain ⟨n, hn, hunit, hdot⟩ := exists_perpendicular hv
    exact ⟨n, hn, hunit, (Exact.dot_comm n v).trans hdot⟩
  refine ⟨?_, hperpendicular⟩
  by_cases hspans : a.SpansPlane b
  · refine ⟨a.cross b, arcNormal_of_spansPlane hspans, hspans.cross_ne_zero, ?_, fun _ => ?_,
      absurd hspans⟩
    · rw [Exact.dot_comm, dot_cross_left]
    · rw [Exact.dot_comm, dot_cross_right, ← cross_swap]
      exact ⟨rfl, rfl, arcNormal_of_spansPlane hspans.symm⟩
  · obtain ⟨n, hn, hunit, hdot⟩ := hperpendicular a ha
    exact ⟨n, (arcNormal_of_not_spansPlane hspans).trans hn, ne_zero_of_unit hunit, hdot,
      fun h => absurd h hspans, fun _ => ⟨hn, hunit⟩⟩

theorem diagonal_arcNormal_exact : (⟨1, 1, 1⟩ : Vec3 ℝ) ≠ ⟨0, 0, 0⟩ ∧
    (⟨1, 1, 1⟩ : Vec3 ℝ).SpansPlane ⟨1, 1, 0⟩ ∧
    (⟨1, 1, 0⟩ : Vec3 ℝ).arcNormal ⟨1, 1, 1⟩ = .ok (-⟨-1, 1, 0⟩) ∧
    ¬ (⟨1, 1, 1⟩ : Vec3 ℝ).SpansPlane ⟨-1, -1, -1⟩ ∧
    ∃ n, (⟨1, 1, 1⟩ : Vec3 ℝ).arcNormal ⟨-1, -1, -1⟩ = .ok n ∧
      (⟨1, 1, 1⟩ : Vec3 ℝ).perpendicular = .ok n ∧ n.norm = 1 ∧ n.dot ⟨1, 1, 1⟩ = 0 := by
  have hne : (⟨1, 1, 1⟩ : Vec3 ℝ) ≠ ⟨0, 0, 0⟩ := by simp
  have hcross : (⟨1, 1, 1⟩ : Vec3 ℝ).cross ⟨1, 1, 0⟩ = ⟨-1, 1, 0⟩ := by
    apply Vec3.ext <;> norm_num [cross]
  have hspans : (⟨1, 1, 1⟩ : Vec3 ℝ).SpansPlane ⟨1, 1, 0⟩ := by
    refine spansPlane_iff.mpr ⟨.x, ?_⟩
    rw [hcross]
    norm_num [coordinate]
  have hopposite : ¬ (⟨1, 1, 1⟩ : Vec3 ℝ).SpansPlane ⟨-1, -1, -1⟩ := by
    intro h
    apply h.cross_ne_zero
    apply Vec3.ext <;> norm_num [cross]
  obtain ⟨⟨n, -, -, -, hn, -⟩, -⟩ := arcNormal_exact ⟨1, 1, 1⟩ ⟨1, 1, 0⟩ hne
  obtain ⟨⟨m, hm, -, hdot, -, hunit⟩, -⟩ := arcNormal_exact ⟨1, 1, 1⟩ ⟨-1, -1, -1⟩ hne
  obtain ⟨rfl, -, hback⟩ := hn hspans
  rw [hcross] at hback
  exact ⟨hne, hspans, hback, hopposite, m, hm, (hunit hopposite).1, (hunit hopposite).2, hdot⟩

end Vec3

end TransitShapes
