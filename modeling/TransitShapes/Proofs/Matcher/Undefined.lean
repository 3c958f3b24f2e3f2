import TransitShapes.Proofs.Matcher.Answer
import TransitShapes.Proofs.Network.Beam
import TransitShapes.Proofs.Scalar.Product

/-! # Stops that are nowhere

A stop with a coordinate that is not a number is no distance from any point. No vertex is in range
of it, so no route through the network passes it. A polyline that joins the first and the last stop
is scored as if the stop were left out.
-/

namespace TransitShapes

open Scalar

variable {R : Type} [Scalar R]

/-! ## Distances -/

def Vec3.Undefined (p : Vec3 R) : Prop := IsNaN p.x ∨ IsNaN p.y ∨ IsNaN p.z

instance (p : Vec3 R) : Decidable p.Undefined := inferInstanceAs (Decidable (_ ∨ _ ∨ _))

section
variable [LawfulNaN R] {p : Vec3 R}

theorem Vec3.Undefined.isNaN_dot (h : p.Undefined) (q : Vec3 R) : IsNaN (p.dot q) := by
  unfold dot
  rcases h with hx | hy | hz
  · exact LawfulNaN.isNaN_add (.inl (LawfulNaN.isNaN_add (.inl (LawfulNaN.isNaN_mul _ hx))))
  · exact LawfulNaN.isNaN_add (.inl (LawfulNaN.isNaN_add (.inr (LawfulNaN.isNaN_mul _ hy))))
  · exact LawfulNaN.isNaN_add (.inr (LawfulNaN.isNaN_mul _ hz))

theorem Vec3.Undefined.isNaN_angle (h : p.Undefined) (q : Vec3 R) : IsNaN (p.angle q) :=
  LawfulNaN.isNaN_atan2 _ (h.isNaN_dot q)

theorem Vec3.Undefined.isNaN_distance (h : p.Undefined) (q : Vec3 R) : IsNaN (p.distance q) :=
  LawfulNaN.isNaN_mul _ (h.isNaN_angle q)

theorem Vec3.Undefined.not_distance_le (h : p.Undefined) (q : Vec3 R) (bound : R) :
    ¬ p.distance q ≤ bound :=
  fun hle => (LawfulOrder.isNumber_of_le hle).1 (h.isNaN_distance q)

end

/-! ## The score -/

namespace Polyline

variable {line : Polyline R} {p : Vec3 R} {cursor : Nat} {farthest : R}

theorem nearest_of_undefined [LawfulNaN R] (h : p.Undefined) (best : Sighting R) (index : Nat)
    (points : List (Vec3 R)) : best.nearest p index points = best := by
  induction points generalizing index with
  | nil => rfl
  | cons q rest ih =>
    have hlt : ¬ p.angle q < best.angle := fun hlt =>
      (LawfulOrder.isNumber_of_le (le_of_lt hlt)).1 (h.isNaN_angle q)
    simp only [Sighting.nearest, if_neg hlt, ih]

theorem farthestMatch_of_drop_eq_nil (h : line.points.drop cursor = []) (stops : List (Vec3 R)) :
    line.farthestMatch stops cursor farthest = farthest := by
  cases stops with
  | nil => rfl
  | cons p rest => simp [farthestMatch, nearestVertexFrom?, h]

theorem farthestMatch_cons_of_undefined [LawfulNaN R] (h : p.Undefined)
    (hfarthest : ¬ IsNaN farthest) (stops : List (Vec3 R)) :
    line.farthestMatch (p :: stops) cursor farthest = line.farthestMatch stops cursor farthest := by
  cases hdrop : line.points.drop cursor with
  | nil => rw [farthestMatch_of_drop_eq_nil hdrop, farthestMatch_of_drop_eq_nil hdrop]
  | cons q rest =>
    have hnearest : line.nearestVertexFrom? p cursor = some ⟨q, cursor, p.angle q⟩ := by
      simp only [nearestVertexFrom?, hdrop, nearest_of_undefined h]
    simp only [farthestMatch, hnearest, max_of_isNaN hfarthest (h.isNaN_distance q)]

theorem farthestMatch_filter [LawfulNaN R] (hfarthest : ¬ IsNaN farthest) (stops : List (Vec3 R)) :
    line.farthestMatch (stops.filter fun p => ¬ p.Undefined) cursor farthest =
      line.farthestMatch stops cursor farthest := by
  induction stops generalizing cursor farthest with
  | nil => rfl
  | cons p rest ih =>
    by_cases h : p.Undefined
    · rw [farthestMatch_cons_of_undefined h hfarthest, ← ih hfarthest]
      simp [h]
    · have hkeep : (p :: rest).filter (fun p => ¬ p.Undefined) =
          p :: rest.filter fun p => ¬ p.Undefined := by simp [h]
      rw [hkeep]
      unfold farthestMatch
      split
      · rfl
      · exact ih (not_isNaN_max hfarthest)

theorem followDistance_filter [LawfulNaN R] (stops : List (Vec3 R)) (line : Polyline R) :
    followDistance { points := stops.filter fun p => ¬ p.Undefined } line =
      followDistance { points := stops } line := by
  unfold followDistance
  rw [farthestMatch_filter not_isNaN_zero]

end Polyline

/-! ## Routes through the network -/

theorem Network.within_of_undefined [LawfulNaN R] (net : Network R) {p : Vec3 R}
    (h : p.Undefined) (maxDistance : R) : net.within p maxDistance = [] := by
  refine List.eq_nil_iff_forall_not_mem.mpr fun found hfound => ?_
  obtain ⟨q, -, hdistance, hin⟩ := exists_vertex_of_mem_within hfound
  rw [hdistance] at hin
  exact h.not_distance_le q maxDistance hin

namespace Matcher

variable {m : Matcher R} {pattern : List (Vec3 R)} {first last : Vec3 R}

theorem findPath_value_of_within_eq_nil (hlength : 2 ≤ pattern.length)
    (h : ∃ p ∈ pattern, m.network.within p m.settings.maxDistance = []) :
    (m.findPath pattern).value = .ok none := by
  cases hsearch : m.settings.search with
  | nearest =>
    rw [findPath_value_of_nearest hsearch, Network.routeThrough_value hlength,
      (Network.snap_eq_none_iff 0).mpr h]
    rfl
  | beam keep =>
    unfold findPath
    rw [hsearch, Network.beamRoute_value hlength]
    rcases m.network.rangeOfEach_cases m.settings.maxDistance pattern with
      ⟨-, hvalue⟩ | ⟨hall, -⟩
    · rw [hvalue]
      rfl
    · obtain ⟨p, hp, hnil⟩ := h
      exact absurd hnil (hall p hp)

theorem joining_eq_nil_of_undefined [LawfulNaN R] (m : Matcher R)
    (h : first.Undefined ∨ last.Undefined) : m.joining first last = [] := by
  refine List.eq_nil_iff_forall_not_mem.mpr fun id hid => ?_
  obtain ⟨line, start, finish, -, -, hin⟩ := endsInRange_of_mem_joining hid
  rcases h with h | h
  · exact hin.elim (fun hin => h.not_distance_le _ _ hin.1) fun hin => h.not_distance_le _ _ hin.1
  · exact hin.elim (fun hin => h.not_distance_le _ _ hin.2) fun hin => h.not_distance_le _ _ hin.2

theorem matchEndpoints_filter [LawfulNaN R] (m : Matcher R) (pattern : List (Vec3 R))
    (first last : Vec3 R) (found : List (Polyline R)) :
    (m.matchEndpoints (pattern.filter fun p => ¬ p.Undefined) first last found).value =
      (m.matchEndpoints pattern first last found).value := by
  simp only [matchEndpoints, bestMatch, scoreAll, Polyline.followDistance_filter]

theorem lines_ne_nil_of_joining (h : m.joining first last ≠ []) :
    (m.joining first last).filterMap m.network.collection.get? ≠ [] := by
  obtain ⟨id, hid⟩ := List.exists_mem_of_ne_nil _ h
  obtain ⟨line, -, -, hget, -⟩ := endsInRange_of_mem_joining hid
  exact List.ne_nil_of_mem (List.mem_filterMap.mpr ⟨id, hid, hget⟩)

theorem matchPattern_of_joining_ne_nil (hlength : 2 ≤ pattern.length)
    (hfirst : pattern.head? = some first) (hlast : pattern.getLast? = some last)
    (hne : m.joining first last ≠ []) :
    (m.matchPattern pattern).value = .ok (m.matchEndpoints pattern first last
      ((m.joining first last).filterMap m.network.collection.get?)).value := by
  rw [matchPattern_value hlength hfirst hlast]
  simp only [List.isEmpty_iff, if_neg (lines_ne_nil_of_joining hne)]

/-- Where polylines join the first and the last stop, these are defined, and undefined stops between
them make no difference. -/
theorem matchPattern_filter [LawfulNaN R] {middle : List (Vec3 R)}
    (hne : m.joining first last ≠ []) :
    (m.matchPattern ((first :: (middle ++ [last])).filter fun p => ¬ p.Undefined)).value =
      (m.matchPattern (first :: (middle ++ [last]))).value := by
  obtain ⟨hfirst, hlast⟩ := not_or.mp fun h => hne (m.joining_eq_nil_of_undefined h)
  have hkept : (first :: (middle ++ [last])).filter (fun p => ¬ p.Undefined) =
      first :: (middle.filter (fun p => ¬ p.Undefined) ++ [last]) := by
    simp [List.filter_append, hfirst, hlast]
  have hends (between : List (Vec3 R)) :
      (first :: (between ++ [last])).getLast? = some last := by
    rw [← List.cons_append, List.getLast?_concat]
  have hwhole := matchPattern_of_joining_ne_nil (by simp) rfl (hends middle) hne
  have hpart := matchPattern_of_joining_ne_nil (by simp) rfl
    (hends (middle.filter fun p => ¬ p.Undefined)) hne
  rw [hwhole, hkept, hpart, ← hkept, matchEndpoints_filter]

/-! ## The theorem -/

/-- **What becomes of a pattern with an undefined stop.** Where no polyline joins the first and the
last stop there is no answer, with either search. That is so whenever one of these two is undefined.
Otherwise the answer is the same as without the undefined stops. -/
theorem matchPattern_of_undefined [LawfulNaN R] (m : Matcher R) {pattern : List (Vec3 R)}
    (h : ∃ p ∈ pattern, p.Undefined) (hlength : 2 ≤ pattern.length) :
    ∃ first last, pattern.head? = some first ∧ pattern.getLast? = some last ∧
      (first.Undefined ∨ last.Undefined → m.joining first last = []) ∧
      (m.joining first last = [] → (m.matchPattern pattern).value = .ok none) ∧
      (m.joining first last ≠ [] →
        (m.matchPattern (pattern.filter fun p => ¬ p.Undefined)).value =
          (m.matchPattern pattern).value) := by
  match pattern, hlength with
  | first :: second :: rest, hlength =>
    obtain ⟨middle, last, hrest⟩ : ∃ middle last, second :: rest = middle ++ [last] :=
      ⟨_, _, (List.dropLast_append_getLast (List.cons_ne_nil second rest)).symm⟩
    rw [hrest] at h hlength ⊢
    have hlast : (first :: (middle ++ [last])).getLast? = some last := by
      rw [← List.cons_append, List.getLast?_concat]
    refine ⟨first, last, rfl, hlast, m.joining_eq_nil_of_undefined, fun hnil => ?_,
      matchPattern_filter⟩
    obtain ⟨p, hp, hundefined⟩ := h
    rw [matchPattern_of_joining_eq_nil hlength rfl hlast hnil,
      findPath_value_of_within_eq_nil hlength ⟨p, hp, Network.within_of_undefined _ hundefined _⟩]
    rfl

def shuttle : Matcher Float :=
  ofLines [.ofLatLngs [⟨0.0, 0.0⟩, ⟨0.0, 0.01⟩] (some "Line")] {}

/-- The two stops with one between them whose latitude is not a number. -/
def strayStops : List (Vec3 Float) :=
  [.ofLatLng ⟨0.0, 0.0⟩, .ofLatLng ⟨Elementary.nan, 0.0⟩, .ofLatLng ⟨0.0, 0.01⟩]

theorem shuttle_matchPattern_of_undefined :
    (shuttle.matchPattern (strayStops.filter fun p => ¬ p.Undefined)).value =
        (shuttle.matchPattern strayStops).value ∧
      (shuttle.matchPattern (strayStops.take 2)).value = .ok none := by
  obtain ⟨first, last, hfirst, hlast, -, -, hsame⟩ :=
    matchPattern_of_undefined shuttle (show ∃ p ∈ strayStops, p.Undefined by decide +kernel)
      (by decide)
  obtain rfl := Option.some.inj hfirst
  obtain rfl := Option.some.inj hlast
  refine ⟨hsame (by decide +kernel), ?_⟩
  obtain ⟨first, last, hfirst, hlast, hjoining, hnone, -⟩ :=
    matchPattern_of_undefined shuttle
      (show ∃ p ∈ strayStops.take 2, p.Undefined by decide +kernel) (by decide)
  obtain rfl := Option.some.inj hfirst
  obtain rfl := Option.some.inj hlast
  exact hnone (hjoining (.inr (by decide +kernel)))

/-- A stored polyline is the answer although one of the stops is nowhere near it. -/
theorem shuttle_matches_stray : ¬ ∀ (m : Matcher Float) (pattern : List (Vec3 Float)),
    m.network.Reachable → (∃ p ∈ pattern, p.Undefined) →
      ∀ answer, (m.matchPattern pattern).value ≠ .ok (some answer) := by
  intro hclaim
  obtain ⟨answer, hanswer⟩ := exists_ok_of_isSome
    (show (shuttle.matchPattern strayStops).value.toOption.join.isSome by decide +kernel)
  exact hclaim shuttle strayStops (reachable_ofLines ..) (by decide +kernel) answer hanswer

end Matcher

end TransitShapes
