import TransitShapes.Proofs.Geometry.Arc
import TransitShapes.Polyline.Split
import TransitShapes.Proofs.Polyline.Follow
import TransitShapes.Proofs.Polyline.Length

/-! # What a split keeps

A polyline is cut at the place of its path that is nearest to a target. The place lies on the arc
that is cut, so the two parts together are as long as the whole.
-/

namespace TransitShapes

open Scalar Vec3

namespace Polyline

variable {line : Polyline ℝ} {target p : Vec3 ℝ} {stop : Nat} {s : Sighting ℝ}

/-! ## The nearest place of a path -/

/-- Polylines of locations whose neighbours have one arc between them: they are the same, or span a
plane. -/
structure HasArcs (line : Polyline ℝ) : Prop where
  unit : ∀ p ∈ line.points, p.norm = 1
  arcs : ∀ ends ∈ line.segments, ends.1 = ends.2 ∨ ends.1.SpansPlane ends.2

/-- The nearest place on the first segments of a path. A path without a segment has its first point
only. -/
structure Sighting.NearestOnPath (line : Polyline ℝ) (target : Vec3 ℝ) (stop : Nat)
    (s : Sighting ℝ) : Prop where
  angle : s.angle = target.angle s.point
  place : s.index = 0 ∧ line.points.head? = some s.point ∨
    ∃ ends, line.segments[s.index]? = some ends ∧ OnArc ends.1 ends.2 s.point
  lowest : ∀ i ends q, i < stop → line.segments[i]? = some ends → OnArc ends.1 ends.2 q →
    s.angle ≤ target.angle q

theorem nearestOnPath_head (h : line.points.head? = some p) :
    (⟨p, 0, target.angle p⟩ : Sighting ℝ).NearestOnPath line target 0 where
  angle := rfl
  place := Or.inl ⟨rfl, h⟩
  lowest i _ _ hi := absurd hi (Nat.not_lt_zero i)

theorem Sighting.NearestOnPath.step (h : s.NearestOnPath line target stop)
    (htarget : target.norm = 1) {ends : Vec3 ℝ × Vec3 ℝ} (hends : line.segments[stop]? = some ends)
    (hp : NearestOn target ends.1 ends.2 p) :
    (if target.angle p < s.angle then (⟨p, stop, target.angle p⟩ : Sighting ℝ)
      else s).NearestOnPath line target (stop + 1) := by
  have hlast : ∀ i others q, i < stop + 1 → line.segments[i]? = some others →
      OnArc others.1 others.2 q → s.angle ≤ target.angle q ∨ target.angle p ≤ target.angle q := by
    intro i others q hi hothers hq
    rcases Nat.lt_succ_iff_lt_or_eq.mp hi with hi | rfl
    · exact Or.inl (h.lowest i others q hi hothers hq)
    · cases hothers.symm.trans hends
      exact Or.inr (hp.angle_le htarget hq)
  split
  case isTrue hlt =>
    refine ⟨rfl, Or.inr ⟨ends, hends, hp.onArc⟩, fun i others q hi hothers hq => ?_⟩
    rcases hlast i others q hi hothers hq with hle | hle
    · exact hlt.le.trans hle
    · exact hle
  case isFalse hnot =>
    refine ⟨h.angle, h.place, fun i others q hi hothers hq => ?_⟩
    rcases hlast i others q hi hothers hq with hle | hle
    · exact hle
    · exact (not_lt.mp hnot).trans hle

theorem unit_of_mem_segments (hline : line.HasArcs) {ends : Vec3 ℝ × Vec3 ℝ}
    (h : ends ∈ line.segments) : ends.1.norm = 1 ∧ ends.2.norm = 1 :=
  ⟨hline.unit _ (List.of_mem_zip h).1, hline.unit _ (List.mem_of_mem_tail (List.of_mem_zip h).2)⟩

theorem Sighting.NearestOnPath.run (h : s.NearestOnPath line target stop)
    (htarget : target.norm = 1) (hline : line.HasArcs) {segments : List (Vec3 ℝ × Vec3 ℝ)}
    (hsegments : line.segments.drop stop = segments) :
    ∃ final, s.nearestOnSegments target stop segments = .ok final ∧
      final.NearestOnPath line target line.segments.length := by
  induction segments generalizing s stop with
  | nil =>
    have hlength := List.drop_eq_nil_iff.mp hsegments
    refine ⟨s, rfl, h.angle, h.place, fun i ends q _ hends hq => ?_⟩
    have hi := (List.getElem?_eq_some_iff.mp hends).1
    exact h.lowest i ends q (Nat.lt_of_lt_of_le hi hlength) hends hq
  | cons ends rest ih =>
    obtain ⟨hends, hrest⟩ := getElem?_of_drop_eq_cons hsegments
    have hmem := List.mem_of_getElem? hends
    obtain ⟨ha, hb⟩ := unit_of_mem_segments hline hmem
    obtain ⟨p, hp, hnearest⟩ := exists_nearestOnArc htarget ha hb (hline.arcs ends hmem)
    unfold nearestOnSegments
    rw [hp]
    exact ih (h.step htarget hends hnearest) hrest

theorem exists_nearestOnPath (htarget : target.norm = 1) (hline : line.HasArcs)
    (hne : line.points ≠ []) : ∃ s, line.nearestOnPath target = .ok s ∧
      s.NearestOnPath line target line.segments.length := by
  unfold nearestOnPath
  cases hpoints : line.points with
  | nil => exact absurd hpoints hne
  | cons p rest =>
    exact (nearestOnPath_head (by rw [hpoints]; rfl)).run htarget hline List.drop_zero

/-! ## The place of the cut -/

theorem getElem?_segments {i : Nat} {a b : Vec3 ℝ} :
    line.segments[i]? = some (a, b) ↔ line.points[i]? = some a ∧ line.points[i + 1]? = some b := by
  unfold segments
  rw [List.getElem?_zip_eq_some, List.getElem?_tail]

theorem getLast?_take_of_getElem? {i : Nat} {points : List (Vec3 ℝ)} {a : Vec3 ℝ}
    (h : points[i]? = some a) : (points.take (i + 1)).getLast? = some a := by
  rw [List.take_add_one, h]
  simp

theorem Sighting.NearestOnPath.cut (h : s.NearestOnPath line target stop) (hline : line.HasArcs) :
    line.points = [s.point] ∧ s.index = 0 ∨
      ∃ a b, line.segments[s.index]? = some (a, b) ∧ OnArc a b s.point := by
  rcases h.place with ⟨hzero, hhead⟩ | ⟨⟨a, b⟩, hends, honarc⟩
  · cases hpoints : line.points with
    | nil => simp [hpoints] at hhead
    | cons p rest =>
      rw [hpoints] at hhead
      cases hhead
      cases rest with
      | nil => exact Or.inl ⟨rfl, hzero⟩
      | cons q rest =>
        have hunit : s.point.norm = 1 := hline.unit s.point (by simp [hpoints])
        refine Or.inr ⟨s.point, q, getElem?_segments.mpr ?_, onArc_left hunit q⟩
        simp [hpoints, hzero]
  · exact Or.inr ⟨a, b, hends, honarc⟩

theorem lengthThrough_insert {before : List (Vec3 ℝ)} {a b c : Vec3 ℝ} (ha : a.norm = 1)
    (hb : b.norm = 1) (hbefore : before.getLast? = some a) (hc : OnArc a b c)
    (rest : List (Vec3 ℝ)) :
    lengthThrough (before ++ c :: b :: rest) = lengthThrough (before ++ b :: rest) := by
  rw [lengthThrough_append hbefore, lengthThrough_append hbefore, lengthThrough_cons_cons,
    lengthThrough_cons_cons, lengthThrough_cons_cons, ← add_assoc (a.distance c),
    hc.distance_add_distance ha hb]

theorem splitNear_eq (h : line.nearestOnPath target = .ok s) : line.splitNear target =
    .ok ({ line with points := line.points.take (s.index + 1) },
      { line with points := s.point :: line.points.drop (s.index + 1) }) := by
  unfold splitNear
  rw [h]
  rfl

theorem points_join_pair (first second : Polyline ℝ) :
    (join [first, second]).points = first.points ++ second.points := by
  simp [join, appendPoints]

/-- **A split cuts a polyline at the nearest place of its whole path and loses nothing.** The parts
hold the points of the whole in order, with the place of the cut at the start of the second part,
and joined they are as long as the whole. -/
theorem splitNear_exact (htarget : target.norm = 1) (hline : line.HasArcs)
    (hne : line.points ≠ []) :
    ∃ before c rest,
      line.splitNear target = .ok (⟨before, line.name⟩, ⟨c :: rest, line.name⟩) ∧
      before ++ rest = line.points ∧
      (line.points = [c] ∧ rest = [] ∨
        ∃ a b, before.getLast? = some a ∧ rest.head? = some b ∧ OnArc a b c) ∧
      (∀ ends ∈ line.segments, ∀ q, OnArc ends.1 ends.2 q → target.angle c ≤ target.angle q) ∧
      (2 ≤ line.size → ∃ meters, line.length = .ok meters ∧
        (join [⟨before, line.name⟩, ⟨c :: rest, line.name⟩]).length = .ok meters) := by
  obtain ⟨s, hs, hnearest⟩ := exists_nearestOnPath htarget hline hne
  refine ⟨_, s.point, _, splitNear_eq hs, List.take_append_drop .., ?_, ?_, ?_⟩
  · rcases hnearest.cut hline with ⟨hpoints, hzero⟩ | ⟨a, b, hends, honarc⟩
    · exact Or.inl ⟨hpoints, by rw [hpoints, hzero]; rfl⟩
    · obtain ⟨ha, hb⟩ := getElem?_segments.mp hends
      exact Or.inr ⟨a, b, getLast?_take_of_getElem? ha, by rw [List.head?_drop, hb], honarc⟩
  · intro ends hends q hq
    obtain ⟨i, hi⟩ := List.mem_iff_getElem?.mp hends
    rw [← hnearest.angle]
    exact hnearest.lowest i ends q (List.getElem?_eq_some_iff.mp hi).1 hi hq
  · intro hsize
    have hjoined : 2 ≤ (join [⟨line.points.take (s.index + 1), line.name⟩,
        ⟨s.point :: line.points.drop (s.index + 1), line.name⟩]).size := by
      unfold size at hsize ⊢
      rw [points_join_pair, List.length_append, List.length_take, List.length_cons,
        List.length_drop]
      omega
    refine ⟨line.pathLength, line.length_eq hsize, ?_⟩
    rw [length_eq _ hjoined, pathLength_eq, pathLength_eq, points_join_pair]
    rcases hnearest.cut hline with ⟨hpoints, -⟩ | ⟨a, b, hends, honarc⟩
    · simp [size, hpoints] at hsize
    · obtain ⟨ha, hb⟩ := getElem?_segments.mp hends
      obtain ⟨hunitA, hunitB⟩ := unit_of_mem_segments hline (List.mem_of_getElem? hends)
      obtain ⟨rest, hrest⟩ := List.head?_eq_some_iff.mp ((List.head?_drop ..).trans hb)
      have hlength := lengthThrough_insert hunitA hunitB (getLast?_take_of_getElem? ha) honarc rest
      rw [← hrest, List.take_append_drop] at hlength
      exact congrArg _ hlength

/-- A way over two quarters of great circles. -/
def corner : Polyline ℝ := ⟨[⟨1, 0, 0⟩, ⟨0, 1, 0⟩, ⟨0, 0, 1⟩], some "Corner"⟩

theorem hasArcs_corner : corner.HasArcs where
  unit p hp := by
    apply norm_eq_one
    fin_cases hp <;> norm_num [dot]
  arcs ends hends := by
    right
    fin_cases hends
    · exact spansPlane_iff.mpr ⟨.z, by norm_num [coordinate, cross]⟩
    · exact spansPlane_iff.mpr ⟨.x, by norm_num [coordinate, cross]⟩

theorem corner_splitNear :
    corner.HasArcs ∧ ∃ before c rest meters,
      corner.splitNear ⟨1 / 3, 2 / 3, 2 / 3⟩ =
        .ok (⟨before, some "Corner"⟩, ⟨c :: rest, some "Corner"⟩) ∧
      before ++ rest = corner.points ∧
      (⟨1 / 3, 2 / 3, 2 / 3⟩ : Vec3 ℝ).angle c ≤
        (⟨1 / 3, 2 / 3, 2 / 3⟩ : Vec3 ℝ).angle ⟨0, 3 / 5, 4 / 5⟩ ∧
      corner.length = .ok meters ∧
      (join [⟨before, some "Corner"⟩, ⟨c :: rest, some "Corner"⟩]).length = .ok meters := by
  have htarget : (⟨1 / 3, 2 / 3, 2 / 3⟩ : Vec3 ℝ).norm = 1 := norm_eq_one (by norm_num [dot])
  have hq : OnArc ⟨0, 1, 0⟩ ⟨0, 0, 1⟩ (⟨0, 3 / 5, 4 / 5⟩ : Vec3 ℝ) :=
    ⟨norm_eq_one (by norm_num [dot]), 3 / 5, 4 / 5, by norm_num, by norm_num,
      by apply Vec3.ext <;> simp⟩
  obtain ⟨before, c, rest, hsplit, hpoints, -, hnearest, hlength⟩ :=
    splitNear_exact htarget hasArcs_corner (by simp [corner])
  obtain ⟨meters, hwhole, hjoined⟩ := hlength (by simp [corner, size])
  exact ⟨hasArcs_corner, before, c, rest, meters, hsplit, hpoints,
    hnearest (⟨0, 1, 0⟩, ⟨0, 0, 1⟩) (by simp [corner, segments]) _ hq, hwhole, hjoined⟩

end Polyline

end TransitShapes
