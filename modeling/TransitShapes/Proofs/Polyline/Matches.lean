import Mathlib.Data.List.Forall2
import TransitShapes.Proofs.Polyline.Follow

/-! # The vertices that points are matched with

The score of a pattern is the largest of the distances to these.
-/

namespace TransitShapes

open Scalar

variable {R : Type} [Scalar R]

namespace Polyline

variable {line : Polyline R} {cursor : Nat} {stops : List (Vec3 R)} {taken : List (Sighting R)}

/-- Each point takes the nearest vertex that does not lie before the last one taken. -/
inductive Matched (line : Polyline R) : Nat → List (Vec3 R) → List (Sighting R) → Prop where
  | nil {cursor : Nat} : Matched line cursor [] []
  | cons {cursor : Nat} {p : Vec3 R} {s : Sighting R} {stops : List (Vec3 R)}
      {taken : List (Sighting R)} : line.nearestVertexFrom? p cursor = some s →
      Matched line s.index stops taken → Matched line cursor (p :: stops) (s :: taken)

theorem exists_matched [LawfulOrder R] (stops : List (Vec3 R)) (h : cursor < line.points.length) :
    ∃ taken, line.Matched cursor stops taken := by
  induction stops generalizing cursor with
  | nil => exact ⟨[], .nil⟩
  | cons p rest ih =>
    obtain ⟨s, hs⟩ := line.exists_nearestVertexFrom? p h
    have hpoint := (nearest_of_nearestVertexFrom? hs).point
    obtain ⟨taken, htaken⟩ := ih (List.getElem?_eq_some_iff.mp hpoint).1
    exact ⟨s :: taken, .cons hs htaken⟩

theorem Matched.points [LawfulOrder R] (h : line.Matched cursor stops taken) :
    List.Forall₂ (fun _ s => line.points[s.index]? = some s.point) stops taken := by
  induction h with
  | nil => exact .nil
  | cons hs _ ih => exact .cons (nearest_of_nearestVertexFrom? hs).point ih

theorem Matched.cursor_le [LawfulOrder R] (h : line.Matched cursor stops taken) :
    ∀ s ∈ taken, cursor ≤ s.index := by
  induction h with
  | nil => simp
  | cons hs _ ih =>
    have hstart := (nearest_of_nearestVertexFrom? hs).start_le
    exact List.forall_mem_cons.mpr ⟨hstart, fun t ht => Nat.le_trans hstart (ih t ht)⟩

theorem Matched.ascending [LawfulOrder R] (h : line.Matched cursor stops taken) :
    (taken.map Sighting.index).Pairwise (· ≤ ·) := by
  induction h with
  | nil => exact .nil
  | cons _ hrest ih => exact List.pairwise_cons.mpr ⟨List.forall_mem_map.mpr hrest.cursor_le, ih⟩

abbrev Measured (stops : List (Vec3 R)) (taken : List (Sighting R)) : Prop :=
  List.Forall₂ (fun p s => ¬ IsNaN (p.distance s.point)) stops taken

theorem Matched.measured [LawfulOrder R] (h : line.Matched cursor stops taken)
    (hnumbers : ∀ p ∈ stops, ∀ q ∈ line.points, ¬ IsNaN (p.distance q)) :
    Measured stops taken := by
  induction h with
  | nil => exact .nil
  | cons hs _ ih =>
    obtain ⟨hp, hrest⟩ := List.forall_mem_cons.mp hnumbers
    have hpoint := (nearest_of_nearestVertexFrom? hs).point
    exact .cons (hp _ (List.mem_of_getElem? hpoint)) (ih hrest)

theorem Matched.farthestMatch_lt_iff [LawfulOrder R] (h : line.Matched cursor stops taken)
    (hmeasured : Measured stops taken) {farthest bound : R} (hfarthest : ¬ IsNaN farthest) :
    line.farthestMatch stops cursor farthest < bound ↔
      farthest < bound ∧ List.Forall₂ (fun p s => p.distance s.point < bound) stops taken := by
  induction h generalizing farthest with
  | nil => simp [farthestMatch]
  | cons hs _ ih =>
    obtain ⟨hp, hrest⟩ := List.forall₂_cons.mp hmeasured
    unfold farthestMatch
    rw [hs]
    simp only
    rw [ih hrest (not_isNaN_max hfarthest), max_lt_iff hfarthest hp, List.forall₂_cons, and_assoc]

theorem Matched.followDistance_lt_iff [LawfulSign R] {pattern : Polyline R}
    (h : line.Matched 0 pattern.points taken) (hmeasured : Measured pattern.points taken)
    {score bound : R} (hscore : pattern.followDistance line = .ok score) (hbound : 0.0 < bound) :
    score < bound ↔
      List.Forall₂ (fun p s => p.distance s.point < bound) pattern.points taken := by
  obtain ⟨-, rfl⟩ := followDistance_eq_ok_iff.mp hscore
  rw [h.farthestMatch_lt_iff hmeasured not_isNaN_zero, and_iff_right hbound]

/-! ## Points that rest on a polyline -/

/-- Points stand on vertices of a polyline in order, each at no distance from its own. -/
structure RestsOn (line : Polyline R) (stops : List (Vec3 R)) (positions : List Nat) : Prop where
  ascending : positions.Pairwise (· ≤ ·)
  places : List.Forall₂ (fun p i => ∃ q, line.points[i]? = some q ∧ IsZero (p.distance q)) stops
    positions

theorem not_angle_lt [LawfulDistance R] {p q : Vec3 R} (h : p.distance q ≤ 0.0) (r : Vec3 R) :
    ¬ p.angle r < p.angle q := by
  intro hlt
  have hzero := LawfulDistance.le_zero_of_mul_globeRadius (unsigned_angle p q) h
  have hbelow := lt_of_lt_of_le hlt hzero
  have hnumber := (LawfulOrder.isNumber_of_le (le_of_lt hlt)).1
  exact (LawfulOrder.lt_iff.mp hbelow).2 ((unsigned_angle p r).nonneg hnumber)

theorem RestsOn.attends [LawfulDistance R] {positions : List Nat}
    (h : line.RestsOn stops positions) : line.Attends 0.0 stops positions := by
  obtain ⟨hascending, hplaces⟩ := h
  induction hplaces with
  | nil => exact .nil
  | cons hplace _ ih =>
    obtain ⟨q, hq, hzero⟩ := hplace
    refine .cons hq hzero.1 (fun next hnext => ⟨?_, fun r _ => not_angle_lt hzero.1 r⟩)
      (ih hascending.of_cons)
    exact List.rel_of_pairwise_cons hascending (List.mem_of_mem_head? hnext)

theorem exists_restsOn_of_sublist (hself : ∀ p ∈ line.points, IsZero (p.distance p))
    (h : stops.Sublist line.points) : ∃ positions, line.RestsOn stops positions := by
  obtain ⟨positions, rfl, hpositions⟩ := List.sublist_eq_map_getElem h
  refine ⟨positions.map Fin.val, ?_, ?_⟩
  · exact List.pairwise_map.mpr (hpositions.imp fun hlt => Nat.le_of_lt hlt)
  · rw [List.forall₂_map_left_iff, List.forall₂_map_right_iff, List.forall₂_same]
    exact fun i _ => ⟨_, List.getElem?_eq_getElem i.isLt, hself _ (List.getElem_mem i.isLt)⟩

theorem exists_followDistance_self [LawfulDistance R] (hne : line.points ≠ [])
    (hself : ∀ p ∈ line.points, IsZero (p.distance p)) :
    ∃ score, line.followDistance line = .ok score ∧ score ≤ 0.0 := by
  obtain ⟨positions, hrests⟩ := exists_restsOn_of_sublist hself (List.Sublist.refl _)
  exact hrests.attends.followDistance_le LawfulSign.zero_le_zero line hne

end Polyline

end TransitShapes
