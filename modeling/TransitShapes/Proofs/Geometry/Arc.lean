import TransitShapes.Proofs.Geometry.Normal

/-! # The nearest point of an arc

The product of a target with the points of a great circle is largest where the target is dropped to,
and falls to both sides. So on an arc it is largest there, or at an end if that is not on the arc.
-/

namespace TransitShapes.Vec3

open Scalar

variable {a b q x : Vec3 ℝ}

/-! ## Arcs -/

/-- A place on the shorter great-circle arc between two others. It is put together from them without
a minus sign. -/
structure OnArc (a b q : Vec3 ℝ) : Prop where
  unit : q.norm = 1
  combines : ∃ s t, 0 ≤ s ∧ 0 ≤ t ∧ q = a.scale s + b.scale t

theorem onArc_left (ha : a.norm = 1) (b : Vec3 ℝ) : OnArc a b a where
  unit := ha
  combines := ⟨1, 0, zero_le_one, le_refl 0, by apply Vec3.ext <;> simp⟩

theorem OnArc.symm (h : OnArc a b q) : OnArc b a q where
  unit := h.unit
  combines := by
    obtain ⟨s, t, hs, ht, rfl⟩ := h.combines
    exact ⟨t, s, ht, hs, by apply Vec3.ext <;> simp [add_comm]⟩

theorem onArc_of_scale_eq {d : Vec3 ℝ} (hd : d ≠ ⟨0, 0, 0⟩) {n u v : ℝ} (hn : 0 < n) (hu : 0 ≤ u)
    (hv : 0 ≤ v) (h : d.scale n = a.scale u + b.scale v) : OnArc a b (d.scale (1 / d.norm)) where
  unit := norm_scale_inv hd
  combines := by
    have hnorm := pos_norm_iff.mpr hd
    obtain ⟨hx, hy, hz⟩ := Vec3.ext_iff.mp h
    simp only [scale_x, scale_y, scale_z, add_x, add_y, add_z] at hx hy hz
    refine ⟨u / (n * d.norm), v / (n * d.norm), by positivity, by positivity, ?_⟩
    apply Vec3.ext <;> simp only [scale_x, scale_y, scale_z, add_x, add_y, add_z] <;> field_simp <;>
      assumption

theorem OnArc.eq_of_self (ha : a.norm = 1) (h : OnArc a a q) : q = a := by
  obtain ⟨s, t, hs, ht, hq⟩ := h.combines
  have hscale : q = a.scale (s + t) := by
    rw [hq]
    apply Vec3.ext <;> simp [mul_add]
  have hone : s + t = 1 := by
    rw [← h.unit, hscale, norm_scale a (add_nonneg hs ht), ha, one_mul]
  rw [hscale, hone]
  apply Vec3.ext <;> simp

theorem OnArc.angle_add_angle (ha : a.norm = 1) (hb : b.norm = 1) (h : OnArc a b q) :
    a.angle q + q.angle b = a.angle b := by
  have hq := ne_zero_of_unit h.unit
  have hspace : q.toSpace ≠ 0 := by
    rw [← norm_pos_iff, norm_toSpace, h.unit]
    exact one_pos
  have hspan : q.toSpace ∈ Submodule.span NNReal {a.toSpace, b.toSpace} := by
    obtain ⟨s, t, hs, ht, hcombines⟩ := h.combines
    rw [Submodule.mem_span_pair]
    refine ⟨⟨s, hs⟩, ⟨t, ht⟩, ?_⟩
    rw [hcombines, toSpace_add, toSpace_scale, toSpace_scale]
    rfl
  rw [angle_eq_angle_toSpace (ne_zero_of_unit ha) hq,
    angle_eq_angle_toSpace hq (ne_zero_of_unit hb),
    angle_eq_angle_toSpace (ne_zero_of_unit ha) (ne_zero_of_unit hb)]
  exact (InnerProductGeometry.angle_eq_angle_add_add_angle_add_of_mem_span hspace hspan).symm

theorem OnArc.distance_add_distance (ha : a.norm = 1) (hb : b.norm = 1) (h : OnArc a b q) :
    a.distance q + q.distance b = a.distance b := by
  unfold distance
  rw [← add_mul, h.angle_add_angle ha hb]

/-! ## Dropping a target onto the plane of an arc -/

/-- A vector without its part along a normal. -/
noncomputable def droppedBy (x normal : Vec3 ℝ) : Vec3 ℝ :=
  x - normal.scale (x.dot normal / normal.dot normal)

theorem isCounterclockwise_iff (a b c : Vec3 ℝ) :
    isCounterclockwise a b c ↔ 0 < (c.cross a).dot b := by
  unfold isCounterclockwise
  rw [decide_eq_true_iff, Exact.zero_eq]

theorem isCounterclockwise_start (ha : a.norm = 1) :
    isCounterclockwise (a.cross b) a (x.droppedBy (a.cross b)) ↔ x.dot a * a.dot b < x.dot b := by
  have h : ((x.droppedBy (a.cross b)).cross (a.cross b)).dot a =
      x.dot b * a.dot a - x.dot a * a.dot b := by
    simp only [droppedBy, dot, cross, sub_x, sub_y, sub_z, scale_x, scale_y, scale_z]
    ring
  rw [isCounterclockwise_iff, h, dot_self_eq_one ha, mul_one, sub_pos]

theorem isCounterclockwise_finish (hb : b.norm = 1) :
    isCounterclockwise (x.droppedBy (a.cross b)) b (a.cross b) ↔
      x.dot b * a.dot b < x.dot a := by
  have h : ((a.cross b).cross (x.droppedBy (a.cross b))).dot b =
      x.dot a * b.dot b - x.dot b * a.dot b := by
    simp only [droppedBy, dot, cross, sub_x, sub_y, sub_z, scale_x, scale_y, scale_z]
    ring
  rw [isCounterclockwise_iff, h, dot_self_eq_one hb, mul_one, sub_pos]

theorem dot_self_pos (h : q ≠ ⟨0, 0, 0⟩) : 0 < q.dot q := by
  rw [← norm_mul_self]
  exact mul_pos (pos_norm_iff.mpr h) (pos_norm_iff.mpr h)

theorem droppedBy_eq (x : Vec3 ℝ) (ha : a.norm = 1) (hb : b.norm = 1)
    (h : a.cross b ≠ ⟨0, 0, 0⟩) :
    (x.droppedBy (a.cross b)).scale ((a.cross b).dot (a.cross b)) =
      a.scale (x.dot a - x.dot b * a.dot b) + b.scale (x.dot b - x.dot a * a.dot b) := by
  have hne := (dot_self_pos h).ne'
  have hcancel : ∀ u v, (u - v * (x.dot (a.cross b) / (a.cross b).dot (a.cross b))) *
      (a.cross b).dot (a.cross b) = u * (a.cross b).dot (a.cross b) - v * x.dot (a.cross b) := by
    intro u v
    field_simp
  have haa : x.dot b - x.dot a * a.dot b = x.dot b * a.dot a - x.dot a * a.dot b := by
    rw [dot_self_eq_one ha, mul_one]
  have hbb : x.dot a - x.dot b * a.dot b = x.dot a * b.dot b - x.dot b * a.dot b := by
    rw [dot_self_eq_one hb, mul_one]
  rw [haa, hbb]
  apply Vec3.ext <;>
    simp only [droppedBy, sub_x, sub_y, sub_z, scale_x, scale_y, scale_z, add_x, add_y, add_z,
      hcancel] <;>
    simp only [dot, cross] <;> ring

theorem dot_droppedBy (x : Vec3 ℝ) (h : OnArc a b q) :
    q.dot (x.droppedBy (a.cross b)) = x.dot q := by
  have hnormal : q.dot (a.cross b) = 0 := by
    obtain ⟨s, t, -, -, hq⟩ := h.combines
    rw [hq, Exact.dot_comm, dot_add, dot_scale, dot_scale, Exact.dot_comm, dot_cross_left,
      Exact.dot_comm, dot_cross_right, zero_mul, zero_mul, add_zero]
  unfold droppedBy
  rw [dot_sub, dot_scale, hnormal, zero_mul, sub_zero, Exact.dot_comm]

/-! ## The nearest place -/

/-- The nearest place of an arc. No place of it has a larger product with the target. -/
structure NearestOn (x a b r : Vec3 ℝ) : Prop where
  onArc : OnArc a b r
  dot_le : ∀ {q}, OnArc a b q → x.dot q ≤ x.dot r

theorem NearestOn.symm {r : Vec3 ℝ} (h : NearestOn x a b r) : NearestOn x b a r where
  onArc := h.onArc.symm
  dot_le hq := h.dot_le hq.symm

theorem NearestOn.angle_le {r : Vec3 ℝ} (h : NearestOn x a b r) (hx : x.norm = 1)
    (hq : OnArc a b q) : x.angle r ≤ x.angle q :=
  (angle_le_angle_iff hx h.onArc.unit hq.unit).mpr (h.dot_le hq)

/-- If a target is dropped between the ends, that is the nearest place. -/
theorem nearestOn_droppedBy (ha : a.norm = 1) (hb : b.norm = 1) (hplane : a.cross b ≠ ⟨0, 0, 0⟩)
    (hstart : x.dot a * a.dot b < x.dot b) (hfinish : x.dot b * a.dot b < x.dot a) :
    x.droppedBy (a.cross b) ≠ ⟨0, 0, 0⟩ ∧
      NearestOn x a b ((x.droppedBy (a.cross b)).scale (1 / (x.droppedBy (a.cross b)).norm)) := by
  have hne : x.droppedBy (a.cross b) ≠ ⟨0, 0, 0⟩ := by
    intro hzero
    have hturn := (isCounterclockwise_start (x := x) ha).mpr hstart
    rw [isCounterclockwise_iff, hzero] at hturn
    simp [dot, cross] at hturn
  have hnorm := pos_norm_iff.mpr hne
  have honarc := onArc_of_scale_eq hne (dot_self_pos hplane) (by linarith) (by linarith)
    (droppedBy_eq x ha hb hplane)
  refine ⟨hne, honarc, fun {q} hq => ?_⟩
  have hown := dot_droppedBy x honarc
  rw [Exact.dot_comm, dot_scale, ← norm_mul_self] at hown
  calc x.dot q = q.dot (x.droppedBy (a.cross b)) := (dot_droppedBy x hq).symm
    _ ≤ q.norm * (x.droppedBy (a.cross b)).norm := dot_le_norm_mul_norm _ _
    _ = (x.droppedBy (a.cross b)).norm := by rw [hq.unit, one_mul]
    _ = x.dot _ := by rw [← hown]; field_simp

theorem nearestOn_left (ha : a.norm = 1) (hb : b.norm = 1) (hends : x.dot b ≤ x.dot a)
    (hout : ¬ (x.dot a * a.dot b < x.dot b ∧ x.dot b * a.dot b < x.dot a)) :
    NearestOn x a b a := by
  refine ⟨onArc_left ha b, fun {q} hq => ?_⟩
  obtain ⟨s, t, hs, ht, hcombines⟩ := hq.combines
  have hproduct : ∀ v : Vec3 ℝ, v.dot q = v.dot a * s + v.dot b * t := by
    intro v
    rw [hcombines, dot_add, dot_scale, dot_scale]
  have hnear : s + a.dot b * t ≤ 1 := by
    have hqa := dot_le_one ha hq.unit
    rwa [hproduct, dot_self_eq_one ha, one_mul] at hqa
  have hsum : 1 ≤ s + t := by
    rw [← dot_self_eq_one hq.unit, hproduct]
    have hqa := mul_le_mul_of_nonneg_right (dot_le_one hq.unit ha) hs
    have hqb := mul_le_mul_of_nonneg_right (dot_le_one hq.unit hb) ht
    linarith
  have hlow := neg_one_le_dot ha hb
  rw [hproduct]
  rcases le_or_gt (x.dot a) 0 with hback | hfront
  · -- Every place of the arc is at least as far behind as the ends.
    have hb := mul_le_mul_of_nonneg_right hends ht
    have hboth := mul_le_mul_of_nonpos_left hsum hback
    linarith
  · have hbeside : x.dot b ≤ x.dot a * a.dot b := by
      by_contra hahead
      have hbehind : x.dot a ≤ x.dot b * a.dot b :=
        not_lt.mp fun h => hout ⟨not_le.mp hahead, h⟩
      -- A wide and a narrow arc each leave no room for both.
      rcases le_or_gt (a.dot b) 0 with hwide | hnarrow <;> nlinarith
    have hb := mul_le_mul_of_nonneg_right hbeside ht
    have ha := mul_le_mul_of_nonneg_left hnear hfront.le
    linarith

theorem nearestOnArc_eq {normal : Vec3 ℝ} (h : a.arcNormal b = .ok normal) (x : Vec3 ℝ) :
    x.nearestOnArc a b =
      if isCounterclockwise normal a (x.droppedBy normal) &&
          isCounterclockwise (x.droppedBy normal) b normal then
        (x.droppedBy normal).normalized
      else if (x - a).norm ≤ (x - b).norm then .ok a
      else .ok b := by
  unfold nearestOnArc
  rw [h]
  rfl

theorem nearestOnArc_self (ha : a.norm = 1) (x : Vec3 ℝ) : x.nearestOnArc a a = .ok a := by
  obtain ⟨n, hn, -, -⟩ := exists_perpendicular (ne_zero_of_unit ha)
  have hturns : ¬ (isCounterclockwise n a (x.droppedBy n) &&
      isCounterclockwise (x.droppedBy n) a n) = true := by
    rw [Bool.and_eq_true, isCounterclockwise_iff, isCounterclockwise_iff]
    rintro ⟨hstart, hfinish⟩
    simp only [cross, dot] at hstart hfinish
    linarith
  rw [nearestOnArc_eq ((arcNormal_of_not_spansPlane (not_spansPlane_self a)).trans hn),
    if_neg hturns, if_pos (le_refl _)]

theorem exists_nearestOnArc (hx : x.norm = 1) (ha : a.norm = 1) (hb : b.norm = 1)
    (hab : a = b ∨ a.SpansPlane b) : ∃ r, x.nearestOnArc a b = .ok r ∧ NearestOn x a b r := by
  rcases hab with rfl | hplane
  · refine ⟨a, nearestOnArc_self ha x, onArc_left ha a, fun {q} hq => ?_⟩
    rw [hq.eq_of_self ha]
  · have hne := hplane.cross_ne_zero
    rw [nearestOnArc_eq (arcNormal_of_spansPlane hplane)]
    split
    case isTrue hturns =>
      rw [Bool.and_eq_true, isCounterclockwise_start ha, isCounterclockwise_finish hb] at hturns
      obtain ⟨hdropped, hnearest⟩ := nearestOn_droppedBy ha hb hne hturns.1 hturns.2
      exact ⟨_, normalized_eq hdropped, hnearest⟩
    case isFalse hout =>
      rw [Bool.and_eq_true, isCounterclockwise_start ha, isCounterclockwise_finish hb] at hout
      split
      case isTrue hends =>
        rw [norm_sub_le_norm_sub_iff hx ha hb] at hends
        exact ⟨a, rfl, nearestOn_left ha hb hends hout⟩
      case isFalse hends =>
        rw [norm_sub_le_norm_sub_iff hx ha hb] at hends
        refine ⟨b, rfl, (nearestOn_left hb ha (not_le.mp hends).le ?_).symm⟩
        rw [Exact.dot_comm b a]
        exact fun hturns => hout hturns.symm

/-- **The nearest place of an arc is found**: there is an answer, it is a place of the arc, and no
other place of the arc is at a smaller angle from the target. -/
theorem nearestOnArc_exact (hx : x.norm = 1) (ha : a.norm = 1) (hb : b.norm = 1)
    (hab : a = b ∨ a.SpansPlane b) :
    ∃ r, x.nearestOnArc a b = .ok r ∧ r.norm = 1 ∧
      (∃ s t, 0 ≤ s ∧ 0 ≤ t ∧ r = a.scale s + b.scale t) ∧
      ∀ q, OnArc a b q → x.dot q ≤ x.dot r ∧ x.angle r ≤ x.angle q := by
  obtain ⟨r, hr, hnearest⟩ := exists_nearestOnArc hx ha hb hab
  exact ⟨r, hr, hnearest.onArc.unit, hnearest.onArc.combines,
    fun q hq => ⟨hnearest.dot_le hq, hnearest.angle_le hx hq⟩⟩

theorem quarter_nearestOnArc :
    (⟨1, 0, 0⟩ : Vec3 ℝ).SpansPlane ⟨0, 1, 0⟩ ∧
      ∃ r, (⟨2 / 3, 2 / 3, 1 / 3⟩ : Vec3 ℝ).nearestOnArc ⟨1, 0, 0⟩ ⟨0, 1, 0⟩ = .ok r ∧
        OnArc ⟨1, 0, 0⟩ ⟨0, 1, 0⟩ r ∧
        (⟨2 / 3, 2 / 3, 1 / 3⟩ : Vec3 ℝ).angle r ≤
          (⟨2 / 3, 2 / 3, 1 / 3⟩ : Vec3 ℝ).angle ⟨3 / 5, 4 / 5, 0⟩ := by
  have hx : (⟨2 / 3, 2 / 3, 1 / 3⟩ : Vec3 ℝ).norm = 1 := norm_eq_one (by unfold dot; norm_num)
  have ha : (⟨1, 0, 0⟩ : Vec3 ℝ).norm = 1 := norm_eq_one (by unfold dot; norm_num)
  have hb : (⟨0, 1, 0⟩ : Vec3 ℝ).norm = 1 := norm_eq_one (by unfold dot; norm_num)
  have hplane : (⟨1, 0, 0⟩ : Vec3 ℝ).SpansPlane ⟨0, 1, 0⟩ :=
    spansPlane_iff.mpr ⟨.z, by norm_num [coordinate, cross]⟩
  have hq : OnArc ⟨1, 0, 0⟩ ⟨0, 1, 0⟩ (⟨3 / 5, 4 / 5, 0⟩ : Vec3 ℝ) :=
    ⟨norm_eq_one (by unfold dot; norm_num), 3 / 5, 4 / 5, by norm_num, by norm_num,
      by apply Vec3.ext <;> simp⟩
  obtain ⟨r, hr, hunit, hcombines, hnearest⟩ := nearestOnArc_exact hx ha hb (Or.inr hplane)
  exact ⟨hplane, r, hr, ⟨hunit, hcombines⟩, (hnearest _ hq).2⟩

end TransitShapes.Vec3
