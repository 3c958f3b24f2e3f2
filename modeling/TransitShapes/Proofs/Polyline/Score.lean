import TransitShapes.Proofs.Polyline.Matches
import TransitShapes.Proofs.Scalar.Product

/-! # The score is exact at zero

The score is the largest distance between a point and the vertex it is matched with. Points that
rest on vertices in order score zero: no vertex is nearer to a point than one at no distance, so the
first such vertex is taken, and that one does not lie past the vertex on which the point rests.
-/

namespace TransitShapes

open Scalar

variable {R : Type} [Scalar R]

namespace Polyline

variable {line pattern : Polyline R} {cursor : Nat} {stops : List (Vec3 R)}
  {taken : List (Sighting R)}

/-! ## The largest distance -/

/-- How far each point is from what it is matched with. -/
def offsets (stops : List (Vec3 R)) (taken : List (Sighting R)) : List R :=
  List.zipWith (fun p s => p.distance s.point) stops taken

theorem offsets_cons (p : Vec3 R) (s : Sighting R) (stops : List (Vec3 R))
    (taken : List (Sighting R)) :
    offsets (p :: stops) (s :: taken) = p.distance s.point :: offsets stops taken := rfl

/-- A value is the largest of some, or zero if there are none. -/
structure IsLargest (values : List R) (x : R) : Prop where
  le : ∀ v ∈ values, v ≤ x
  attained : values = [] ∧ x = 0.0 ∨ ∃ v ∈ values, total x v = .eq

theorem le_farthestMatch [LawfulOrder R] (stops : List (Vec3 R)) {cursor : Nat} {farthest : R}
    (h : ¬ IsNaN farthest) : farthest ≤ line.farthestMatch stops cursor farthest := by
  induction stops generalizing cursor farthest with
  | nil => exact not_not.mp h
  | cons p rest ih =>
    unfold farthestMatch
    split
    · exact not_not.mp h
    · exact LawfulOrder.le_trans (le_max_left _ h) (ih (not_isNaN_max h))

theorem Matched.farthestMatch_spec [LawfulOrder R] (h : line.Matched cursor stops taken)
    (hmeasured : Measured stops taken) {farthest : R} (hfarthest : ¬ IsNaN farthest) :
    (∀ d ∈ offsets stops taken, d ≤ line.farthestMatch stops cursor farthest) ∧
      (line.farthestMatch stops cursor farthest = farthest ∨
        line.farthestMatch stops cursor farthest ∈ offsets stops taken) := by
  induction h generalizing farthest with
  | nil => exact ⟨nofun, Or.inl rfl⟩
  | @cons cursor p s stops taken hs _ ih =>
    obtain ⟨hp, hrest⟩ := List.forall₂_cons.mp hmeasured
    have hnumber : ¬ IsNaN (max farthest (p.distance s.point)) := not_isNaN_max hfarthest
    obtain ⟨hle, hor⟩ := ih hrest hnumber
    unfold farthestMatch
    rw [hs]
    simp only
    rw [offsets_cons, List.forall_mem_cons, List.mem_cons]
    refine ⟨⟨?_, hle⟩, ?_⟩
    · exact LawfulOrder.le_trans (le_max_right hfarthest hp) (le_farthestMatch stops hnumber)
    · rcases hor with heq | hmem
      · rw [heq]
        exact (max_eq_or _ _).imp_right Or.inl
      · exact Or.inr (Or.inr hmem)

theorem Measured.unsigned [LawfulSign R] (h : Measured stops taken) :
    ∀ d ∈ offsets stops taken, Unsigned d ∧ ¬ IsNaN d := by
  induction h with
  | nil => nofun
  | cons hp _ ih => exact List.forall_mem_cons.mpr ⟨⟨unsigned_distance _ _, hp⟩, ih⟩

theorem Matched.isLargest [LawfulSign R] (h : line.Matched 0 stops taken)
    (hmeasured : Measured stops taken) :
    IsLargest (offsets stops taken) (line.farthestMatch stops 0 0.0) := by
  obtain ⟨hle, hzero | hmem⟩ := h.farthestMatch_spec hmeasured not_isNaN_zero
  · refine ⟨hle, ?_⟩
    rw [hzero] at hle ⊢
    match hoffsets : offsets stops taken with
    | [] => exact Or.inl ⟨rfl, rfl⟩
    | d :: rest =>
      have hd : d ∈ offsets stops taken := hoffsets ▸ List.mem_cons_self
      obtain ⟨hunsigned, hnumber⟩ := hmeasured.unsigned d hd
      have heq := total_eq_of_le unsigned_zero hunsigned (hunsigned.nonneg hnumber) (hle d hd)
      exact Or.inr ⟨d, List.mem_cons_self, heq⟩
  · exact ⟨hle, Or.inr ⟨_, hmem, Std.ReflCmp.compare_self⟩⟩

/-! ## Zero -/

theorem RestsOn.isZero_farthestMatch [LawfulDistance R] {positions : List Nat}
    (h : line.RestsOn stops positions) : IsZero (line.farthestMatch stops 0 0.0) :=
  ⟨h.attends.farthestMatch_le (fun _ _ => Nat.zero_le _) LawfulSign.zero_le_zero,
    le_farthestMatch stops not_isNaN_zero⟩

theorem Matched.places [LawfulOrder R] (h : line.Matched cursor stops taken)
    (hzero : ∀ d ∈ offsets stops taken, IsZero d) :
    List.Forall₂ (fun p i => ∃ q, line.points[i]? = some q ∧ IsZero (p.distance q)) stops
      (taken.map Sighting.index) := by
  induction h with
  | nil => exact .nil
  | cons hs _ ih =>
    obtain ⟨hp, hrest⟩ := List.forall_mem_cons.mp hzero
    exact .cons ⟨_, (nearest_of_nearestVertexFrom? hs).point, hp⟩ (ih hrest)

/-- Where the score is zero, the points rest on the vertices that they are matched with. -/
theorem Matched.restsOn [LawfulSign R] (h : line.Matched 0 stops taken)
    (hmeasured : Measured stops taken) (hzero : line.farthestMatch stops 0 0.0 ≤ 0.0) :
    line.RestsOn stops (taken.map Sighting.index) := by
  refine ⟨h.ascending, h.places fun d hd => ?_⟩
  obtain ⟨hunsigned, hnumber⟩ := hmeasured.unsigned d hd
  exact ⟨LawfulOrder.le_trans ((h.isLargest hmeasured).le d hd) hzero, hunsigned.nonneg hnumber⟩

theorem not_isNaN_distance [LawfulMeasure R] {p q : Vec3 R} (h : ¬ IsNaN (p.angle q)) :
    ¬ IsNaN (p.distance q) :=
  fun hnan => h (LawfulMeasure.isNaN_of_mul_globeRadius (unsigned_angle p q) hnan)

/-! ## The theorem -/

/-- **The score of a pattern is the largest distance to the vertices it is matched with, and exact
at zero.** Every point takes a vertex, and these come in order. If all angles are numbers, the score
is the largest of the distances, and zero exactly where the points rest on some vertices in order.
What is left of a polyline when points are taken out of it scores zero against the polyline, if its
points are at no distance from themselves. -/
theorem followDistance_exact [LawfulMeasure R] (pattern : Polyline R) (hne : line.points ≠ []) :
    ∃ score taken, pattern.followDistance line = .ok score ∧
      line.Matched 0 pattern.points taken ∧
      List.Forall₂ (fun _ s => line.points[s.index]? = some s.point) pattern.points taken ∧
      (taken.map Sighting.index).Pairwise (· ≤ ·) ∧
      ((∀ p ∈ pattern.points, ∀ q ∈ line.points, ¬ IsNaN (p.angle q)) →
        IsLargest (offsets pattern.points taken) score ∧
        (IsZero score ↔ ∃ positions, line.RestsOn pattern.points positions)) ∧
      ((∀ p ∈ line.points, IsZero (p.distance p)) → pattern.points.Sublist line.points →
        IsZero score) := by
  obtain ⟨taken, htaken⟩ := exists_matched pattern.points (List.length_pos_of_ne_nil hne)
  refine ⟨_, taken, followDistance_eq_ok_iff.mpr ⟨hne, rfl⟩, htaken, htaken.points,
    htaken.ascending, fun hangles => ?_, fun hself hsublist => ?_⟩
  · have hmeasured : Measured pattern.points taken :=
      htaken.measured fun p hp q hq => not_isNaN_distance (hangles p hp q hq)
    refine ⟨htaken.isLargest hmeasured, fun hzero => ⟨_, htaken.restsOn hmeasured hzero.1⟩, ?_⟩
    rintro ⟨positions, hrests⟩
    exact hrests.isZero_farthestMatch
  · obtain ⟨positions, hrests⟩ := exists_restsOn_of_sublist hself hsublist
    exact hrests.isZero_farthestMatch

/-- A polyline that crosses itself and comes back to where it starts. -/
def eight : Polyline Float where
  points := [⟨1.0, 0.0, 0.0⟩, ⟨0.0, 1.0, 0.0⟩, ⟨0.0, 0.0, 1.0⟩, ⟨0.0, 1.0, 0.0⟩, ⟨0.6, 0.0, 0.8⟩,
    ⟨1.0, 0.0, 0.0⟩]

/-- Its start and its crossing, each of them twice, and its end. -/
def lingering : Polyline Float where
  points := [⟨1.0, 0.0, 0.0⟩, ⟨1.0, 0.0, 0.0⟩, ⟨0.0, 1.0, 0.0⟩, ⟨0.0, 1.0, 0.0⟩, ⟨1.0, 0.0, 0.0⟩]

theorem lingering_restsOn : eight.RestsOn lingering.points [0, 0, 1, 1, 5] where
  ascending := by decide
  places := .cons ⟨_, rfl, by decide +kernel⟩ <| .cons ⟨_, rfl, by decide +kernel⟩ <|
    .cons ⟨_, rfl, by decide +kernel⟩ <| .cons ⟨_, rfl, by decide +kernel⟩ <|
    .cons ⟨_, rfl, by decide +kernel⟩ .nil

theorem eight_followDistance_exact :
    (∃ score taken, lingering.followDistance eight = .ok score ∧ IsZero score ∧
      eight.Matched 0 lingering.points taken ∧
      IsLargest (offsets lingering.points taken) score) ∧
    ∃ score, Polyline.followDistance ⟨[⟨1.0, 0.0, 0.0⟩, ⟨0.0, 1.0, 0.0⟩, ⟨0.0, 1.0, 0.0⟩,
      ⟨1.0, 0.0, 0.0⟩], none⟩ eight = .ok score ∧ IsZero score := by
  have hne : eight.points ≠ [] := List.cons_ne_nil _ _
  have hself : ∀ p ∈ eight.points, IsZero (p.distance p) := by decide +kernel
  have hangles : ∀ p ∈ lingering.points, ∀ q ∈ eight.points, ¬ IsNaN (p.angle q) := by
    decide +kernel
  have hsublist : List.Sublist [⟨1.0, 0.0, 0.0⟩, ⟨0.0, 1.0, 0.0⟩, ⟨0.0, 1.0, 0.0⟩,
      ⟨1.0, 0.0, 0.0⟩] eight.points :=
    .cons_cons _ (.cons_cons _ (.cons _ (.cons_cons _ (.cons _ (.cons_cons _ .slnil)))))
  obtain ⟨score, taken, hscore, hmatched, -, -, hexact, -⟩ := followDistance_exact lingering hne
  obtain ⟨other, _, hother, -, -, -, -, hzero⟩ := followDistance_exact _ hne
  obtain ⟨hlargest, hiff⟩ := hexact hangles
  exact ⟨⟨score, taken, hscore, hiff.mpr ⟨_, lingering_restsOn⟩, hmatched, hlargest⟩,
    other, hother, hzero hself hsublist⟩

end Polyline

end TransitShapes
