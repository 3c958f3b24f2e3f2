import TransitShapes.Polyline.Basic
import TransitShapes.Proofs.Scalar.Laws

/-! # Where the points of a pattern are matched

Each point takes the nearest vertex from the last one taken on, and so never looks back. Points that
stand along a polyline in order are all matched no farther off than they stand, as long as none of
them is drawn past the next one.
-/

namespace TransitShapes

open Scalar

variable {R : Type} [Scalar R]

/-! ## The larger of two values -/

theorem Scalar.max_eq_or (a b : R) : max a b = a ∨ max a b = b := by
  unfold Scalar.max
  split
  case isTrue => exact Or.inr rfl
  case isFalse =>
    split
    case isTrue => exact Or.inr rfl
    case isFalse => exact Or.inl rfl

section
variable [LawfulOrder R] {a b c : R}

theorem Scalar.not_isNaN_max (ha : ¬ IsNaN a) : ¬ IsNaN (max a b) := by
  unfold Scalar.max
  split
  case isTrue hlt => exact (LawfulOrder.isNumber_of_le (le_of_lt hlt)).2
  case isFalse => simp [ha]

theorem Scalar.max_le (ha : a ≤ c) (hb : ¬ IsNaN b → b ≤ c) : max a b ≤ c := by
  have ⟨hna, _⟩ := LawfulOrder.isNumber_of_le ha
  unfold Scalar.max
  split
  case isTrue hlt => exact hb (LawfulOrder.isNumber_of_le (le_of_lt hlt)).2
  case isFalse => simpa [hna] using ha

theorem Scalar.le_max_left (b : R) (ha : ¬ IsNaN a) : a ≤ max a b := by
  unfold Scalar.max
  split
  case isTrue hlt => exact le_of_lt hlt
  case isFalse => exact Classical.not_not.mp ha

theorem Scalar.le_max_right (ha : ¬ IsNaN a) (hb : ¬ IsNaN b) : b ≤ max a b := by
  unfold Scalar.max
  split
  case isTrue => exact Classical.not_not.mp hb
  case isFalse hnot => exact le_of_not_lt ha hb hnot

theorem Scalar.max_lt_iff (ha : ¬ IsNaN a) (hb : ¬ IsNaN b) : max a b < c ↔ a < c ∧ b < c := by
  unfold Scalar.max
  split
  case isTrue hlt => exact (and_iff_right_of_imp (lt_trans hlt)).symm
  case isFalse hnot =>
    exact (and_iff_left_of_imp (lt_of_le_of_lt (le_of_not_lt ha hb hnot))).symm

theorem Scalar.max_of_isNaN (ha : ¬ IsNaN a) (hb : IsNaN b) : max a b = a := by
  have hlt : ¬ a < b := fun hlt => (LawfulOrder.isNumber_of_le (le_of_lt hlt)).2 hb
  simp [max, hlt, ha]

end

namespace Polyline

theorem getElem?_of_drop_eq_cons {α : Type} {points rest : List α} {k : Nat} {p : α}
    (h : points.drop k = p :: rest) : points[k]? = some p ∧ points.drop (k + 1) = rest := by
  rw [← List.head?_drop, ← List.tail_drop, h]
  simp

variable {line : Polyline R} {target : Vec3 R} {start stop : Nat} {s : Sighting R}

/-! ## The nearest vertex -/

/-- The first of the nearest points of a polyline in a range. An angle that is not a number is not
compared with any other. -/
structure Sighting.Nearest (line : Polyline R) (target : Vec3 R) (start stop : Nat)
    (s : Sighting R) : Prop where
  start_le : start ≤ s.index
  point : line.points[s.index]? = some s.point
  angle : s.angle = target.angle s.point
  lowest : ∀ i q, start ≤ i → i < stop → line.points[i]? = some q → ¬ target.angle q < s.angle
  first : ∀ i q, start ≤ i → i < s.index → line.points[i]? = some q →
    ¬ IsNaN (target.angle q) → s.angle < target.angle q

theorem Sighting.Nearest.step [LawfulOrder R] (h : s.Nearest line target start stop) {p : Vec3 R}
    (hstart : start ≤ stop) (hp : line.points[stop]? = some p) :
    (if target.angle p < s.angle then (⟨p, stop, target.angle p⟩ : Sighting R) else s).Nearest line
      target start (stop + 1) := by
  have hlast : ∀ i q, i < stop + 1 → line.points[i]? = some q → i < stop ∨ q = p := by
    intro i q hi hq
    rcases Nat.lt_succ_iff_lt_or_eq.mp hi with hi | rfl
    · exact Or.inl hi
    · exact Or.inr (Option.some.inj (hq.symm.trans hp))
  split
  case isTrue hlt =>
    refine ⟨hstart, hp, rfl, ?_, ?_⟩
    · intro i q hi hstop hq hless
      rcases hlast i q hstop hq with hstop | rfl
      · exact h.lowest i q hi hstop hq (lt_trans hless hlt)
      · exact lt_irrefl _ hless
    · intro i q hi hstop hq hnumber
      have ⟨_, hs⟩ := LawfulOrder.isNumber_of_le (le_of_lt hlt)
      exact lt_of_lt_of_le hlt (le_of_not_lt hnumber hs (h.lowest i q hi hstop hq))
  case isFalse hnot =>
    refine ⟨h.start_le, h.point, h.angle, ?_, h.first⟩
    intro i q hi hstop hq
    rcases hlast i q hstop hq with hstop | rfl
    · exact h.lowest i q hi hstop hq
    · exact hnot

theorem Sighting.Nearest.run [LawfulOrder R] {points : List (Vec3 R)}
    (h : s.Nearest line target start stop) (hstart : start ≤ stop)
    (hpoints : line.points.drop stop = points) :
    (s.nearest target stop points).Nearest line target start line.points.length := by
  induction points generalizing s stop with
  | nil =>
    have hlength := List.drop_eq_nil_iff.mp hpoints
    exact ⟨h.start_le, h.point, h.angle, fun i q hi _ hq =>
      h.lowest i q hi (Nat.lt_of_lt_of_le (List.getElem?_eq_some_iff.mp hq).1 hlength) hq, h.first⟩
  | cons p rest ih =>
    obtain ⟨hp, hrest⟩ := getElem?_of_drop_eq_cons hpoints
    exact ih (h.step hstart hp) (Nat.le_succ_of_le hstart) hrest

theorem nearest_of_nearestVertexFrom? [LawfulOrder R]
    (h : line.nearestVertexFrom? target start = some s) :
    s.Nearest line target start line.points.length := by
  unfold nearestVertexFrom? at h
  cases hpoints : line.points.drop start with
  | nil => simp [hpoints] at h
  | cons p rest =>
    obtain ⟨hp, hrest⟩ := getElem?_of_drop_eq_cons hpoints
    simp only [hpoints, Option.some.injEq] at h
    subst h
    have hone : (⟨p, start, target.angle p⟩ : Sighting R).Nearest line target start
        (start + 1) := by
      refine ⟨Nat.le_refl _, hp, rfl, ?_, fun i q hi hstop => absurd hstop (Nat.not_lt.mpr hi)⟩
      intro i q hi hstop hq
      have hsame : i = start := by omega
      subst hsame
      cases hp.symm.trans hq
      exact lt_irrefl _
    exact hone.run (Nat.le_succ _) hrest

theorem exists_nearestVertexFrom? (line : Polyline R) (target : Vec3 R)
    (h : start < line.points.length) : ∃ s, line.nearestVertexFrom? target start = some s := by
  unfold nearestVertexFrom?
  cases hpoints : line.points.drop start with
  | nil => exact absurd (List.drop_eq_nil_iff.mp hpoints) (Nat.not_le.mpr h)
  | cons p rest => exact ⟨_, rfl⟩

/-! ## The score -/

theorem followDistance_eq_ok_iff {pattern : Polyline R} {score : R} :
    pattern.followDistance line = .ok score ↔
      line.points ≠ [] ∧ score = line.farthestMatch pattern.points 0 0.0 := by
  unfold followDistance
  cases hpoints : line.points with
  | nil => simp
  | cons p rest => simp [eq_comm]

theorem not_isNaN_farthestMatch [LawfulOrder R] (stops : List (Vec3 R)) {cursor : Nat}
    {farthest : R} (h : ¬ IsNaN farthest) :
    ¬ IsNaN (line.farthestMatch stops cursor farthest) := by
  induction stops generalizing cursor farthest with
  | nil => exact h
  | cons p rest ih =>
    unfold farthestMatch
    split
    · exact h
    · exact ih (not_isNaN_max h)

theorem not_isNaN_followDistance [LawfulSign R] {pattern : Polyline R} {score : R}
    (h : pattern.followDistance line = .ok score) : ¬ IsNaN score := by
  obtain ⟨_, rfl⟩ := followDistance_eq_ok_iff.mp h
  exact not_isNaN_farthestMatch _ not_isNaN_zero

/-! ## Stops that stand along a polyline -/

/-- Stops stand along a polyline at positions in order, each within a distance of the point at its
position. None of them is nearer to a point behind the position of the next stop. -/
inductive Attends (line : Polyline R) (bound : R) : List (Vec3 R) → List Nat → Prop where
  | nil : Attends line bound [] []
  | cons {p q : Vec3 R} {position : Nat} {stops : List (Vec3 R)} {positions : List Nat} :
      line.points[position]? = some q → p.distance q ≤ bound →
      (∀ next ∈ positions.head?, position ≤ next ∧
        ∀ r ∈ line.points.drop (next + 1), ¬ p.angle r < p.angle q) →
      Attends line bound stops positions →
      Attends line bound (p :: stops) (position :: positions)

theorem attends_cons_iff {bound : R} {p : Vec3 R} {position : Nat} {stops : List (Vec3 R)}
    {positions : List Nat} : line.Attends bound (p :: stops) (position :: positions) ↔
      line.points[position]?.any (fun q => p.distance q ≤ bound ∧
        positions.head?.all fun next => position ≤ next ∧
          (line.points.drop (next + 1)).all fun r => ¬ p.angle r < p.angle q) ∧
      line.Attends bound stops positions := by
  simp only [Option.any_eq_true, Option.all_eq_true, List.all_eq_true, decide_eq_true_eq]
  constructor
  · rintro (_ | ⟨hq, hdistance, hnext, hrest⟩)
    exact ⟨⟨_, hq, hdistance, hnext⟩, hrest⟩
  · rintro ⟨⟨q, hq, hdistance, hnext⟩, hrest⟩
    exact .cons hq hdistance hnext hrest

instance decidableAttends (line : Polyline R) (bound : R) :
    ∀ stops positions, Decidable (line.Attends bound stops positions)
  | [], [] => isTrue .nil
  | [], _ :: _ => isFalse nofun
  | _ :: _, [] => isFalse nofun
  | _ :: stops, _ :: positions =>
    have := decidableAttends line bound stops positions
    decidable_of_iff _ attends_cons_iff.symm

theorem Sighting.Nearest.distance_le [LawfulProduct R]
    (h : s.Nearest line target start line.points.length) {i : Nat} {q : Vec3 R} {bound : R}
    (hi : start ≤ i) (hq : line.points[i]? = some q) (hbound : target.distance q ≤ bound)
    (hnumber : ¬ IsNaN (target.distance s.point)) : target.distance s.point ≤ bound := by
  have ⟨hdistance, _⟩ := LawfulOrder.isNumber_of_le hbound
  have hangle : ¬ IsNaN (target.angle q) := fun hnan => hdistance (LawfulProduct.isNaN_mul _ hnan)
  have hown : ¬ IsNaN (target.angle s.point) :=
    fun hnan => hnumber (LawfulProduct.isNaN_mul _ hnan)
  have hlow := h.lowest i q hi (List.getElem?_eq_some_iff.mp hq).1 hq
  rw [h.angle] at hlow
  have hle := le_of_not_lt hangle hown hlow
  exact LawfulOrder.le_trans (LawfulProduct.mul_le_mul_right (unsigned_angle _ _)
    (unsigned_angle _ _) LawfulSign.unsigned_globeRadius hle hnumber hdistance) hbound

theorem Attends.farthestMatch_le [LawfulProduct R] {bound farthest : R} {stops : List (Vec3 R)}
    {positions : List Nat} (h : line.Attends bound stops positions) {cursor : Nat}
    (hcursor : ∀ first ∈ positions.head?, cursor ≤ first) (hfarthest : farthest ≤ bound) :
    line.farthestMatch stops cursor farthest ≤ bound := by
  -- The cursor is never past the position of the stop that comes next.
  induction h generalizing cursor farthest with
  | nil => exact hfarthest
  | @cons p q position stops positions hq hdistance hnext _ ih =>
    have hposition : cursor ≤ position := hcursor position rfl
    obtain ⟨hlt, _⟩ := List.getElem?_eq_some_iff.mp hq
    obtain ⟨s, hs⟩ := line.exists_nearestVertexFrom? p (Nat.lt_of_le_of_lt hposition hlt)
    have hnearest := nearest_of_nearestVertexFrom? hs
    unfold farthestMatch
    rw [hs]
    refine ih ?_ (max_le hfarthest (hnearest.distance_le hposition hq hdistance))
    intro next hmem
    obtain ⟨hle, hclear⟩ := hnext next hmem
    -- Past the next position no point is nearer to the stop than the one at its own position.
    refine Nat.le_of_not_lt fun hpast => ?_
    have hangle : ¬ IsNaN (p.angle q) := fun hnan =>
      (LawfulOrder.isNumber_of_le hdistance).1 (LawfulProduct.isNaN_mul _ hnan)
    have hless := hnearest.first position q hposition (by omega) hq hangle
    rw [hnearest.angle] at hless
    refine hclear s.point (List.mem_of_getElem? (i := s.index - (next + 1)) ?_) hless
    rw [List.getElem?_drop, Nat.add_sub_cancel' (by omega)]
    exact hnearest.point

/-- **Stops along a polyline are matched with it** no farther off than they stand. -/
theorem Attends.followDistance_le [LawfulProduct R] {bound : R} (hbound : 0.0 ≤ bound)
    (pattern : Polyline R) {positions : List Nat} (h : line.Attends bound pattern.points positions)
    (hpoints : line.points ≠ []) :
    ∃ score, pattern.followDistance line = .ok score ∧ score ≤ bound :=
  ⟨_, followDistance_eq_ok_iff.mpr ⟨hpoints, rfl⟩,
    h.farthestMatch_le (fun _ _ => Nat.zero_le _) hbound⟩

end Polyline

end TransitShapes
