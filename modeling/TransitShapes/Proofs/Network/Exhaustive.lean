import TransitShapes.Proofs.Network.Beam

/-! # A wide beam is exhaustive

A beam that is wide enough for all choices of vertices finds a cheapest one. What it cannot do is
prefer a longer way to none at all: where it is cheapest to stay at one vertex, there is no answer.
-/

namespace TransitShapes.Network

open Scalar

variable {R : Type} [Scalar R] {net : Network R} {maxDistance : R} {points : List (Vec3 R)}

/-- A choice of a vertex in range for every waypoint, at the distance that the waypoint has from it,
joined by routes from each to the next. -/
structure Assigns (net : Network R) (maxDistance : R) (points : List (Vec3 R))
    (stops : List (Nearby R)) (route : Partial R) : Prop where
  inRange : List.Forall₂ (fun p stop => stop ∈ net.within p maxDistance) points stops
  itinerary : net.Itinerary stops route

/-- A choice that costs no more than any other, in the line of all values. -/
structure AssignsLeast (net : Network R) (maxDistance : R) (points : List (Vec3 R))
    (stops : List (Nearby R)) (route : Partial R) : Prop
    extends Assigns net maxDistance points stops route where
  least : ∀ others other, net.Assigns maxDistance points others other →
    (total route.cost other.cost).isLE

/-- Whether all vertices of a choice are one. -/
def Stays (stops : List (Nearby R)) : Prop := ∃ v, ∀ stop ∈ stops, stop.vertex = v

theorem assigns_iff {stops : List (Nearby R)} {route : Partial R} :
    net.Assigns maxDistance points stops route ↔
      List.Forall₂ (fun range stop => stop ∈ range)
        (points.map fun p => net.within p maxDistance) stops ∧ net.Itinerary stops route := by
  rw [List.forall₂_map_left_iff]
  exact ⟨fun h => ⟨h.inRange, h.itinerary⟩, fun h => ⟨h.1, h.2⟩⟩

theorem Assigns.within_ne_nil {stops : List (Nearby R)} {route : Partial R}
    (h : net.Assigns maxDistance points stops route) :
    ∀ p ∈ points, net.within p maxDistance ≠ [] := by
  have hstops := h.inRange
  clear h
  induction hstops with
  | nil => simp
  | cons hstop _ ih => exact List.forall_mem_cons.mpr ⟨List.ne_nil_of_mem hstop, ih⟩

theorem Complete.assignsLeast_head {first : Partial R} {others : List (Partial R)}
    (h : net.Complete (points.map fun p => net.within p maxDistance) (first :: others))
    (hascends : Ascends (first :: others)) :
    ∃ stops, net.AssignsLeast maxDistance points stops first := by
  obtain ⟨stops, hstops⟩ := (h first).mp List.mem_cons_self
  refine ⟨stops, assigns_iff.mpr hstops, fun choice other hother => ?_⟩
  rcases List.mem_cons.mp ((h other).mpr ⟨choice, assigns_iff.mp hother⟩) with rfl | hmem
  · exact total_refl _
  · exact (List.pairwise_cons.mp hascends).1 other hmem

theorem bestThrough_cases (hne : points ≠ [])
    (hall : ∀ p ∈ points, net.within p maxDistance ≠ []) {width : Nat}
    (hwidth : choices (points.map fun p => net.within p maxDistance) ≤ width) :
    net.bestThrough width (points.map fun p => net.within p maxDistance) = none ∧
        (∀ stops route, ¬ net.Assigns maxDistance points stops route) ∨
      ∃ stops route, net.AssignsLeast maxDistance points stops route ∧
        net.bestThrough width (points.map fun p => net.within p maxDistance) =
          joinSegments route.segments := by
  match points with
  | p :: rest =>
    have hothers : ∀ range ∈ rest.map fun q => net.within q maxDistance, range ≠ [] :=
      List.forall_mem_map.mpr (List.forall_mem_cons.mp hall).2
    simp only [List.map_cons, bestThrough]
    rcases net.complete_advanceAnew hothers hwidth with ⟨final, hfinal, hascends, hcomplete⟩ | hnone
    · rw [hfinal]
      cases final with
      | nil =>
        refine Or.inl ⟨rfl, fun stops route hroute => ?_⟩
        exact List.not_mem_nil ((hcomplete route).mpr ⟨stops, assigns_iff.mp hroute⟩)
      | cons first others =>
        obtain ⟨stops, hleast⟩ : ∃ stops, net.AssignsLeast maxDistance (p :: rest) stops first :=
          hcomplete.assignsLeast_head hascends
        exact Or.inr ⟨stops, first, hleast, rfl⟩
    · rw [hnone.1]
      refine Or.inl ⟨rfl, fun stops route hroute => ?_⟩
      have hassigns := assigns_iff.mp hroute
      exact hnone.2 stops route hassigns.1 hassigns.2

/-- The outcome of a search with a beam that is wide enough for all choices. -/
theorem beamRoute_cases (hlength : 2 ≤ points.length) {keep : Nat}
    (hkeep : choices (points.map fun p => net.within p maxDistance) ≤ keep) :
    ∃ answer, (net.beamRoute points maxDistance keep).value = .ok answer ∧
      (answer = none ∧ (∃ p ∈ points, net.within p maxDistance = []) ∨
        answer = none ∧ (∀ stops route, ¬ net.Assigns maxDistance points stops route) ∨
        ∃ stops route, net.AssignsLeast maxDistance points stops route ∧
          answer = joinSegments route.segments) := by
  refine ⟨_, beamRoute_value hlength maxDistance keep, ?_⟩
  rcases net.rangeOfEach_cases maxDistance points with ⟨hempty, hvalue⟩ | ⟨hall, hvalue⟩ <;>
    rw [hvalue]
  · exact Or.inl ⟨rfl, hempty⟩
  · have hne : points ≠ [] := by
      rintro rfl
      simp at hlength
    exact Or.inr (bestThrough_cases hne hall (Nat.le_trans hkeep (Nat.le_max_left keep 1)))

theorem Itinerary.joinSegments_eq_none_iff [LawfulSum R] (hnet : WellFormed net)
    {stops : List (Nearby R)} {route : Partial R} (h : net.Itinerary stops route) :
    joinSegments route.segments = none ↔ Stays stops := by
  have hne : stops.map Nearby.vertex ≠ [] := by
    intro hnil
    have hlast := h.getLast?
    rw [hnil] at hlast
    cases hlast
  rw [hnet.joinSegments_eq_none_iff hne h.routesAlong]
  simp [Stays]

/-! ## What the search by nearest vertices knows -/

theorem exists_stops_of_snaps {vertices : List Nat}
    (h : List.Forall₂ (net.Snaps maxDistance) points vertices) :
    ∃ stops, List.Forall₂ (fun p stop => stop ∈ net.within p maxDistance) points stops ∧
      stops.map Nearby.vertex = vertices := by
  induction h with
  | nil => exact ⟨[], .nil, rfl⟩
  | cons hsnap _ ih =>
    obtain ⟨stops, hstops, hvertices⟩ := ih
    obtain ⟨stop, hstop, hvertex⟩ := Option.map_eq_some_iff.mp hsnap.nearest
    refine ⟨stop :: stops, .cons (List.mem_of_mem_head? hstop) hstops, ?_⟩
    rw [List.map_cons, hvertex, hvertices]

theorem exists_assigns_of_routeThrough (hlength : 2 ≤ points.length) {path : Polyline R}
    (hpath : (net.routeThrough points maxDistance).value = .ok (some path)) :
    ∃ stops route, net.Assigns maxDistance points stops route := by
  rw [routeThrough_value hlength, Except.ok.injEq] at hpath
  obtain ⟨vertices, hsnap, hpath⟩ := Option.bind_eq_some_iff.mp hpath
  obtain ⟨segments, hsegments, -⟩ := Option.bind_eq_some_iff.mp hpath
  have hsnaps := snaps_of_snap hsnap
  obtain ⟨stops, hstops, rfl⟩ := exists_stops_of_snaps hsnaps
  have hne : stops ≠ [] := by
    rintro rfl
    exact ne_nil_of_snaps hlength hsnaps rfl
  obtain ⟨route, hroute, -⟩ :=
    exists_itinerary_of_routesAlong hne ((segmentsThrough_eq_some_iff 0).mp hsegments)
  exact ⟨stops, route, hstops, hroute⟩

/-! ## The theorems -/

/-- **A wide beam is exhaustive.** With room for all choices of vertices, the answer is the route of
a choice that costs no more than any other. There is none only where a waypoint has no vertex in
range, no choice is joined by routes, or a cheapest choice stays at one vertex. -/
theorem Reachable.beamRoute_exhaustive [LawfulSum R] (h : net.Reachable)
    (hlength : 2 ≤ points.length) {keep : Nat}
    (hkeep : choices (points.map fun p => net.within p maxDistance) ≤ keep) :
    ∃ answer, (net.beamRoute points maxDistance keep).value = .ok answer ∧
      (∀ path, answer = some path → ∃ stops route,
        net.AssignsLeast maxDistance points stops route ∧
        path = Polyline.join route.segments (some 0.0)) ∧
      (answer = none → (∃ p ∈ points, net.within p maxDistance = []) ∨
        (¬ ∃ stops route, net.Assigns maxDistance points stops route) ∨
        ∃ stops route, net.AssignsLeast maxDistance points stops route ∧ Stays stops) := by
  obtain ⟨answer, hvalue, hcases⟩ := net.beamRoute_cases hlength hkeep
  refine ⟨answer, hvalue, ?_⟩
  rcases hcases with ⟨rfl, hempty⟩ | ⟨rfl, hno⟩ | ⟨stops, route, hleast, rfl⟩
  · exact ⟨nofun, fun _ => Or.inl hempty⟩
  · refine ⟨nofun, fun _ => Or.inr (Or.inl ?_)⟩
    rintro ⟨stops, route, hroute⟩
    exact hno stops route hroute
  · refine ⟨fun path hpath => ⟨stops, route, hleast, (joinSegments_eq_some_iff.mp hpath).2⟩, ?_⟩
    intro hnone
    have hstays := (hleast.itinerary.joinSegments_eq_none_iff h.wellFormed).mp hnone
    exact Or.inr (Or.inr ⟨stops, route, hleast, hstays⟩)

/-- A spur that ends near the first waypoint, and a corridor that starts farther from it. -/
def spur : Network Float :=
  let corridor := (({} : Network Float).offer
    ⟨[⟨1.0, 0.0, 0.0⟩, ⟨0.0, -1.0, 0.0⟩], none⟩ .smart).value.1
  (corridor.offer ⟨[⟨0.6, 0.8, 0.0⟩, ⟨0.0, 0.0, 1.0⟩], none⟩ .smart).value.1

theorem spur_beamRoute_exhaustive :
    ∃ path stops route,
      (spur.beamRoute [⟨0.8, 0.6, 0.0⟩, ⟨0.0, -1.0, 0.0⟩] 5000000.0 2).value = .ok (some path) ∧
      spur.AssignsLeast 5000000.0 [⟨0.8, 0.6, 0.0⟩, ⟨0.0, -1.0, 0.0⟩] stops route ∧
      path = Polyline.join route.segments (some 0.0) := by
  have hreach : spur.Reachable := .offer _ _ (.offer _ _ .empty)
  have hfound : (spur.beamRoute [⟨0.8, 0.6, 0.0⟩, ⟨0.0, -1.0, 0.0⟩]
      5000000.0 2).value.toOption.join.isSome := by decide +kernel
  have hchoices : choices ([⟨0.8, 0.6, 0.0⟩, ⟨0.0, -1.0, 0.0⟩].map fun p =>
      spur.within p 5000000.0) ≤ 2 := by decide +kernel
  obtain ⟨path, hpath⟩ := exists_ok_of_isSome hfound
  obtain ⟨answer, hvalue, hsome, -⟩ := hreach.beamRoute_exhaustive (le_refl 2) hchoices
  cases hvalue.symm.trans hpath
  obtain ⟨stops, route, hleast, hjoin⟩ := hsome path rfl
  exact ⟨path, stops, route, hpath, hleast, hjoin⟩

/-- **A wide beam finds a route wherever the nearest vertices have one**, unless a cheapest choice
of vertices stays at one of them. -/
theorem Reachable.beamRoute_of_routeThrough [LawfulSum R] (h : net.Reachable)
    (hlength : 2 ≤ points.length) {keep : Nat}
    (hkeep : choices (points.map fun p => net.within p maxDistance) ≤ keep) {path : Polyline R}
    (hpath : (net.routeThrough points maxDistance).value = .ok (some path)) :
    (∃ found, (net.beamRoute points maxDistance keep).value = .ok (some found)) ∨
      ∃ stops route, net.AssignsLeast maxDistance points stops route ∧ Stays stops := by
  obtain ⟨choice, other, hchoice⟩ := exists_assigns_of_routeThrough hlength hpath
  obtain ⟨answer, hvalue, hcases⟩ := net.beamRoute_cases hlength hkeep
  rcases hcases with ⟨-, p, hp, hempty⟩ | ⟨-, hno⟩ | ⟨stops, route, hleast, rfl⟩
  · exact absurd hempty (hchoice.within_ne_nil p hp)
  · exact absurd hchoice (hno choice other)
  · cases hjoin : joinSegments route.segments with
    | some found => exact Or.inl ⟨found, hvalue.trans (congrArg _ hjoin)⟩
    | none =>
      have hstays := (hleast.itinerary.joinSegments_eq_none_iff h.wellFormed).mp hjoin
      exact Or.inr ⟨stops, route, hleast, hstays⟩

/-- A long way round between two places in range of each other. -/
def roundabout : Network Float :=
  (({} : Network Float).offer
    ⟨[⟨1.0, 0.0, 0.0⟩, ⟨0.0, 0.0, 1.0⟩, ⟨0.8, 0.6, 0.0⟩], some "Detour"⟩ .smart).value.1

theorem roundabout_searches : roundabout.Reachable ∧
    choices ([⟨1.0, 0.0, 0.0⟩, ⟨0.8, 0.6, 0.0⟩].map fun p => roundabout.within p 5000000.0) ≤ 4 ∧
    (∃ path, (roundabout.routeThrough [⟨1.0, 0.0, 0.0⟩, ⟨0.8, 0.6, 0.0⟩] 5000000.0).value =
      .ok (some path)) ∧
    ∀ found, (roundabout.beamRoute [⟨1.0, 0.0, 0.0⟩, ⟨0.8, 0.6, 0.0⟩] 5000000.0 4).value ≠
      .ok (some found) :=
  ⟨.offer _ _ .empty, by decide +kernel, exists_ok_of_isSome (by decide +kernel),
    not_ok_of_isNone (by decide +kernel)⟩

/-- The two places are their own nearest vertices, and the way round joins them. The beam is wide
enough for all choices, and still it is cheaper to stay at one of the two. -/
theorem roundabout_missed : ¬ ∀ net : Network Float, net.Reachable →
    ∀ (points : List (Vec3 Float)) (maxDistance : Float) (keep : Nat), 2 ≤ points.length →
      choices (points.map fun p => net.within p maxDistance) ≤ keep →
      (∃ path, (net.routeThrough points maxDistance).value = .ok (some path)) →
      ∃ found, (net.beamRoute points maxDistance keep).value = .ok (some found) := by
  obtain ⟨hreach, hchoices, hfound, hmissed⟩ := roundabout_searches
  intro hclaim
  obtain ⟨found, hvalue⟩ := hclaim _ hreach _ _ _ (le_refl 2) hchoices hfound
  exact hmissed found hvalue

/-- With less room each place has one vertex in range, and the beam takes the way round. -/
theorem roundabout_beamRoute_stays :
    (∃ found, (roundabout.beamRoute [⟨1.0, 0.0, 0.0⟩, ⟨0.8, 0.6, 0.0⟩] 100.0 4).value =
      .ok (some found)) ∧
    ∃ stops route,
      roundabout.AssignsLeast 5000000.0 [⟨1.0, 0.0, 0.0⟩, ⟨0.8, 0.6, 0.0⟩] stops route ∧
      Stays stops := by
  obtain ⟨hreach, hchoices, ⟨path, hpath⟩, hmissed⟩ := roundabout_searches
  constructor
  · have hfew : choices ([⟨1.0, 0.0, 0.0⟩, ⟨0.8, 0.6, 0.0⟩].map fun p =>
        roundabout.within p 100.0) ≤ 4 := by decide +kernel
    obtain ⟨way, hway⟩ := exists_ok_of_isSome (by decide +kernel : (roundabout.routeThrough
      [⟨1.0, 0.0, 0.0⟩, ⟨0.8, 0.6, 0.0⟩] 100.0).value.toOption.join.isSome)
    refine (hreach.beamRoute_of_routeThrough (le_refl 2) hfew hway).resolve_right ?_
    rintro ⟨stops, route, hleast, v, hstays⟩
    have hapart : ∀ a ∈ roundabout.within ⟨1.0, 0.0, 0.0⟩ 100.0,
        ∀ b ∈ roundabout.within ⟨0.8, 0.6, 0.0⟩ 100.0, a.vertex ≠ b.vertex := by decide +kernel
    obtain ⟨a, _, ha, hrest, rfl⟩ := List.forall₂_cons_left_iff.mp hleast.inRange
    obtain ⟨b, _, hb, -, rfl⟩ := List.forall₂_cons_left_iff.mp hrest
    exact hapart a ha b hb ((hstays a (by simp)).trans (hstays b (by simp)).symm)
  · refine (hreach.beamRoute_of_routeThrough (le_refl 2) hchoices hpath).resolve_left ?_
    rintro ⟨found, hvalue⟩
    exact hmissed found hvalue

end TransitShapes.Network
