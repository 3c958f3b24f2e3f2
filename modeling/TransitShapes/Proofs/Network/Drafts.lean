import TransitShapes.Proofs.Network.Exhaustive

/-! # A beam of any width holds itineraries

However narrow the beam is, what it keeps are itineraries over vertices in range. The numbers of a
draft are at any time those of the routes from each of its vertices to the next.
-/

namespace TransitShapes.Network

open Scalar

variable {R : Type} [Scalar R] {net : Network R}

/-! ## What is kept -/

/-- All partial routes are itineraries over vertices in some ranges. -/
def Itineraries (net : Network R) (ranges : List (List (Nearby R))) (beam : List (Partial R)) :
    Prop :=
  ∀ part ∈ beam,
    ∃ stops, List.Forall₂ (fun range stop => stop ∈ range) ranges stops ∧ net.Itinerary stops part

theorem itineraries_start (net : Network R) (inRange : List (Nearby R)) :
    net.Itineraries [inRange] (inRange.map Partial.begin) :=
  fun part hpart => (net.complete_start inRange part).mp hpart

theorem Itineraries.extensions {ranges : List (List (Nearby R))} {beam : List (Partial R)}
    (h : net.Itineraries ranges beam) (inRange : List (Nearby R)) :
    net.Itineraries (ranges ++ [inRange]) (net.extensions beam inRange) := by
  intro longer hlonger
  obtain ⟨part, hpart, next, hnext, line, hline, rfl⟩ := mem_extensions.mp hlonger
  obtain ⟨stops, hstops, hroute⟩ := h part hpart
  exact ⟨stops ++ [next], List.rel_append hstops (.cons hnext .nil), hroute.travel hline⟩

theorem Itineraries.cheapest {ranges : List (List (Nearby R))} {routes : List (Partial R)}
    (h : net.Itineraries ranges routes) (keep : Nat) :
    net.Itineraries ranges (cheapest Partial.cost keep routes) :=
  fun part hpart => h part ((Ascending.sort_perm _ _).mem_iff.mp (List.mem_of_mem_take hpart))

theorem Itineraries.advanceAnew {ranges rest : List (List (Nearby R))}
    {beam final : List (Partial R)} {width : Nat} (h : net.Itineraries ranges beam)
    (hfinal : net.advanceAnew width rest beam = some final) :
    net.Itineraries (ranges ++ rest) final := by
  induction rest generalizing ranges beam with
  | nil =>
    cases hfinal
    rw [List.append_nil]
    exact h
  | cons inRange rest ih =>
    have hkept := (h.extensions inRange).cheapest width
    rw [Network.advanceAnew] at hfinal
    split at hfinal
    · cases hfinal
    · rw [List.append_cons]
      exact ih hkept hfinal

theorem exists_itinerary_of_bestThrough {width : Nat} {ranges : List (List (Nearby R))}
    {path : Polyline R} (h : net.bestThrough width ranges = some path) :
    ∃ stops part, List.Forall₂ (fun range stop => stop ∈ range) ranges stops ∧
      net.Itinerary stops part ∧ joinSegments part.segments = some path := by
  cases ranges with
  | nil => cases h
  | cons first others =>
    obtain ⟨beam, hbeam, h⟩ := Option.bind_eq_some_iff.mp h
    obtain ⟨part, hpart, hjoin⟩ := Option.bind_eq_some_iff.mp h
    have hall := ((net.itineraries_start first).cheapest width).advanceAnew hbeam
    obtain ⟨stops, hstops, hroute⟩ := hall part (List.mem_of_mem_head? hpart)
    exact ⟨stops, part, hstops, hroute, hjoin⟩

/-! ## Drafts on the way -/

/-- A draft that a search has at some time on its way from a beam through the next ranges, and the
routes found by then. It is in the beam, or the search has gone some of the ways from there, or has
gone all of them and keeps the cheapest of what it reached. -/
inductive Meets (net : Network R) (width : Nat) : List (List (Nearby R)) → Array (Polyline R) →
    List (Draft R) → Array (Polyline R) → Draft R → Prop where
  | kept {rest : List (List (Nearby R))} {routes : Array (Polyline R)} {beam : List (Draft R)}
      {draft : Draft R} : draft ∈ beam → Meets net width rest routes beam routes draft
  | swept {inRange : List (Nearby R)} {rest : List (List (Nearby R))}
      {routes : Array (Polyline R)} {beam : List (Draft R)} {tried : List (Draft R × Nearby R)}
      {sweep : Sweep R} {draft : Draft R} : tried <+: ways beam inRange →
      (Sweep.followAll net { table := { routes } } tried).value = sweep →
      draft ∈ beam ∨ draft ∈ sweep.reached.toList →
      Meets net width (inRange :: rest) routes beam sweep.table.routes draft
  | later {inRange : List (Nearby R)} {rest : List (List (Nearby R))}
      {routes more : Array (Polyline R)} {beam : List (Draft R)} {sweep : Sweep R}
      {draft : Draft R} :
      (Sweep.followAll net { table := { routes } } (ways beam inRange)).value = sweep →
      Meets net width rest sweep.table.routes (cheapest Draft.cost width sweep.reached.toList)
        more draft →
      Meets net width (inRange :: rest) routes beam more draft

/-- Drafts that stand for itineraries over vertices in some ranges. -/
def Traced (net : Network R) (passed : List (List (Nearby R))) (routes : Array (Polyline R))
    (beam : List (Draft R)) : Prop :=
  ∃ parts, ReadAs routes beam parts ∧ net.Itineraries passed parts

theorem traced_begin (net : Network R) (inRange : List (Nearby R)) :
    net.Traced [inRange] #[] (inRange.map Draft.begin) :=
  ⟨_, readAs_begin #[] inRange, net.itineraries_start inRange⟩

theorem Traced.cheapest {passed : List (List (Nearby R))} {routes : Array (Polyline R)}
    {beam : List (Draft R)} (h : net.Traced passed routes beam) (keep : Nat) :
    net.Traced passed routes (cheapest Draft.cost keep beam) := by
  obtain ⟨parts, hread, hroutes⟩ := h
  exact ⟨_, hread.cheapest keep, hroutes.cheapest keep⟩

theorem Traced.sweep {passed : List (List (Nearby R))} {routes : Array (Polyline R)}
    {beam : List (Draft R)} (h : net.Traced passed routes beam) {inRange : List (Nearby R)}
    {tried : List (Draft R × Nearby R)} (htried : tried <+: ways beam inRange) {sweep : Sweep R}
    (hsweep : (Sweep.followAll net { table := { routes } } tried).value = sweep) :
    net.Traced passed sweep.table.routes beam ∧
      net.Traced (passed ++ [inRange]) sweep.table.routes sweep.reached.toList := by
  obtain ⟨parts, hread, hroutes⟩ := h
  obtain ⟨untried, hways⟩ := htried
  have hplain := hread.ways inRange
  rw [← hways] at hplain
  -- The partial routes behind the ways that were tried are among all extensions.
  obtain ⟨plain, others, hsplit, hplain, -⟩ := exists_of_forall₂_append hplain
  obtain ⟨hreads, hkeeps⟩ := WaysReadAs.sweep hplain net
  rw [hsweep] at hreads hkeeps
  refine ⟨⟨parts, hread.mono hkeeps, hroutes⟩, _, hreads.reached, fun part hpart => ?_⟩
  apply hroutes.extensions inRange
  unfold extensions
  rw [hsplit, List.filterMap_append]
  exact List.mem_append_left _ hpart

/-- A draft for an itinerary over vertices in the first of some ranges. -/
def Draft.Follows (net : Network R) (ranges : List (List (Nearby R))) (routes : Array (Polyline R))
    (draft : Draft R) : Prop :=
  ∃ passed stops part, passed <+: ranges ∧
    List.Forall₂ (fun range stop => stop ∈ range) passed stops ∧ net.Itinerary stops part ∧
    draft.Reads routes part

theorem Traced.follows {passed ranges : List (List (Nearby R))} {routes : Array (Polyline R)}
    {beam : List (Draft R)} (h : net.Traced passed routes beam) (hpassed : passed <+: ranges)
    {draft : Draft R} (hdraft : draft ∈ beam) : draft.Follows net ranges routes := by
  obtain ⟨parts, hread, hroutes⟩ := h
  obtain ⟨part, hpart, hreads⟩ := hread.exists_of_mem hdraft
  obtain ⟨stops, hstops, hroute⟩ := hroutes part hpart
  exact ⟨passed, stops, part, hpassed, hstops, hroute, hreads⟩

theorem Meets.follows {width : Nat} {passed rest : List (List (Nearby R))}
    {routes more : Array (Polyline R)} {beam : List (Draft R)} {draft : Draft R}
    (h : net.Meets width rest routes beam more draft) (hbeam : net.Traced passed routes beam) :
    draft.Follows net (passed ++ rest) more := by
  induction h generalizing passed with
  | kept hdraft => exact hbeam.follows (List.prefix_append ..) hdraft
  | swept htried hsweep hdraft =>
    obtain ⟨hbeam, hreached⟩ := hbeam.sweep htried hsweep
    rcases hdraft with hdraft | hdraft
    · exact hbeam.follows (List.prefix_append ..) hdraft
    · rw [List.append_cons]
      exact hreached.follows (List.prefix_append ..) hdraft
  | later hsweep _ ih =>
    obtain ⟨-, hreached⟩ := hbeam.sweep List.prefix_rfl hsweep
    rw [List.append_cons]
    exact ih (hreached.cheapest width)

/-! ## The theorem -/

/-- A vertex within reach of a waypoint. -/
def Near (net : Network R) (maxDistance : R) (p : Vec3 R) (v : Nat) : Prop :=
  ∃ q, net.vertex? v = some q ∧ p.distance q ≤ maxDistance

theorem eq_of_rangeOfEach {maxDistance : R} {points : List (Vec3 R)}
    {ranges : List (List (Nearby R))}
    (h : (net.rangeOfEach maxDistance points).value = some ranges) :
    ranges = points.map fun p => net.within p maxDistance := by
  rcases net.rangeOfEach_cases maxDistance points with ⟨-, hvalue⟩ | ⟨-, hvalue⟩ <;>
    rw [hvalue] at h
  · cases h
  · exact (Option.some.inj h).symm

theorem near_of_inRange {maxDistance : R} {points : List (Vec3 R)} {stops : List (Nearby R)}
    (h : List.Forall₂ (fun range stop => stop ∈ range)
      (points.map fun p => net.within p maxDistance) stops) :
    List.Forall₂ (net.Near maxDistance) points (stops.map Nearby.vertex) := by
  rw [List.forall₂_map_left_iff] at h
  rw [List.forall₂_map_right_iff]
  refine h.imp fun p stop hstop => ?_
  obtain ⟨q, hq, hdistance, hin⟩ := exists_vertex_of_mem_within hstop
  exact ⟨q, hq, hdistance ▸ hin⟩

theorem WellFormed.ends_of_joinSegments [LawfulSum R] (h : WellFormed net) {vertices : List Nat}
    {segments : List (Polyline R)} (hne : vertices ≠ [])
    (hroutes : net.RoutesAlong vertices segments) {path : Polyline R}
    (hjoin : joinSegments segments = some path) :
    (∃ v ∈ vertices.head?, ∃ p ∈ path.first?, net.IsAt v p) ∧
      ∃ v ∈ vertices.getLast?, ∃ p ∈ path.last?, net.IsAt v p := by
  have hstages := h.stages_of_segmentsThrough hne ((segmentsThrough_eq_some_iff 0).mpr hroutes)
  have hsome : ¬ ∃ v, ∀ u ∈ vertices, u = v := by
    rw [← h.joinSegments_eq_none_iff hne hroutes, hjoin]
    simp
  have hhead := List.head?_eq_some_head hne
  obtain ⟨b, hb, hruns⟩ := (hstages.runs_join (some 0.0) hhead).resolve_left fun hall =>
    hsome ⟨_, hall⟩
  rw [← (joinSegments_eq_some_iff.mp hjoin).2] at hruns
  obtain ⟨first, hfirst, ha⟩ := hruns.first
  obtain ⟨last, hlast, hb'⟩ := hruns.last
  exact ⟨⟨_, hhead, first, hfirst, h.agree.vertexId?.mp ha⟩,
    b, hb, last, hlast, h.agree.vertexId?.mp hb'⟩

/-- Behind the first waypoints a draft has a vertex near each of them, and its numbers are those of
the routes from each of these vertices to the next. -/
theorem Draft.Follows.exists_vertices {maxDistance : R} {points : List (Vec3 R)}
    {ranges : List (List (Nearby R))} {routes : Array (Polyline R)} {draft : Draft R}
    (h : draft.Follows net ranges routes)
    (hranges : (net.rangeOfEach maxDistance points).value = some ranges) :
    ∃ vertices segments,
      List.Forall₂ (net.Near maxDistance) (points.take vertices.length) vertices ∧
      vertices.getLast? = some draft.vertex ∧ net.RoutesAlong vertices segments ∧
      List.Forall₂ (fun (n : Nat) segment => routes[n]? = some segment)
        draft.segments segments := by
  obtain ⟨passed, stops, part, hpassed, hstops, hroute, hreads⟩ := h
  rw [eq_of_rangeOfEach hranges, List.prefix_iff_eq_take, ← List.map_take] at hpassed
  have hlength : (stops.map Nearby.vertex).length = passed.length := by
    rw [List.length_map, hstops.length_eq]
  refine ⟨stops.map Nearby.vertex, part.segments, ?_, ?_, hroute.routesAlong, hreads.segments⟩
  · rw [hlength]
    apply near_of_inRange
    rw [← hpassed]
    exact hstops
  · rw [hroute.getLast?, hreads.vertex]

/-- **A beam of any width is sound.** The table of routes makes no difference, and a width of zero
none to a width of one. An answer is joined from the routes along a choice of vertices, one within
reach of each waypoint and not all the same, and leads from the first of them to the last. At any
time the numbers of every draft are those of the routes along its own vertices. -/
theorem Reachable.beamRoute_sound [LawfulSum R] (h : net.Reachable) {points : List (Vec3 R)}
    (hlength : 2 ≤ points.length) (maxDistance : R) (keep : Nat) :
    (net.beamRoute points maxDistance keep).value = net.beamRouteAnew points maxDistance keep ∧
    net.beamRoute points maxDistance 0 = net.beamRoute points maxDistance 1 ∧
    (∀ path, (net.beamRoute points maxDistance keep).value = .ok (some path) →
      ∃ vertices segments, List.Forall₂ (net.Near maxDistance) points vertices ∧
        (¬ ∃ v, ∀ u ∈ vertices, u = v) ∧ net.RoutesAlong vertices segments ∧
        path = Polyline.join segments (some 0.0) ∧
        (∃ v ∈ vertices.head?, ∃ p ∈ path.first?, net.IsAt v p) ∧
        ∃ v ∈ vertices.getLast?, ∃ p ∈ path.last?, net.IsAt v p) ∧
    ∀ first others, (net.rangeOfEach maxDistance points).value = some (first :: others) →
      ∀ routes draft, net.Meets (keep.max 1) others #[]
          (cheapest Draft.cost (keep.max 1) (first.map Draft.begin)) routes draft →
        ∃ vertices segments,
          List.Forall₂ (net.Near maxDistance) (points.take vertices.length) vertices ∧
          vertices.getLast? = some draft.vertex ∧ net.RoutesAlong vertices segments ∧
          List.Forall₂ (fun (n : Nat) segment => routes[n]? = some segment)
            draft.segments segments := by
  refine ⟨net.value_beamRoute points maxDistance keep, rfl, ?answer, ?numbers⟩
  case answer =>
    intro path hpath
    rw [beamRoute_value hlength, Except.ok.injEq] at hpath
    obtain ⟨ranges, hranges, hpath⟩ := Option.bind_eq_some_iff.mp hpath
    obtain ⟨stops, part, hstops, hroute, hjoin⟩ := exists_itinerary_of_bestThrough hpath
    rw [eq_of_rangeOfEach hranges] at hstops
    have hnet := h.wellFormed
    have hnear := near_of_inRange hstops
    have hroutes := hroute.routesAlong
    have hne : stops.map Nearby.vertex ≠ [] := by
      intro hnil
      rw [hnil] at hnear
      cases hnear
      simp at hlength
    have hsome := (hnet.joinSegments_eq_none_iff hne hroutes).not.mp (by simp [hjoin])
    exact ⟨_, part.segments, hnear, hsome, hroutes, (joinSegments_eq_some_iff.mp hjoin).2,
      hnet.ends_of_joinSegments hne hroutes hjoin⟩
  case numbers =>
    intro first others hranges routes draft hmeets
    have hstart := (net.traced_begin first).cheapest (keep.max 1)
    exact (hmeets.follows hstart).exists_vertices hranges

theorem spur_beamRoute_sound : ∃ path a b segment,
    (spur.beamRoute [⟨0.8, 0.6, 0.0⟩, ⟨0.0, -1.0, 0.0⟩] 5000000.0 2).value = .ok (some path) ∧
    a ≠ b ∧ spur.Near 5000000.0 ⟨0.8, 0.6, 0.0⟩ a ∧ spur.Near 5000000.0 ⟨0.0, -1.0, 0.0⟩ b ∧
    (spur.route a b).value = some segment ∧ path = Polyline.join [segment] (some 0.0) := by
  have hreach : spur.Reachable := .offer _ _ (.offer _ _ .empty)
  have hfound : (spur.beamRoute [⟨0.8, 0.6, 0.0⟩, ⟨0.0, -1.0, 0.0⟩]
      5000000.0 2).value.toOption.join.isSome := by decide +kernel
  obtain ⟨path, hpath⟩ := exists_ok_of_isSome hfound
  obtain ⟨-, -, hsound, -⟩ := hreach.beamRoute_sound
    (show 2 ≤ ([⟨0.8, 0.6, 0.0⟩, ⟨0.0, -1.0, 0.0⟩] : List (Vec3 Float)).length from le_refl 2)
    5000000.0 2
  obtain ⟨vertices, segments, hnear, hsome, hroutes, hjoin, -⟩ := hsound path hpath
  obtain ⟨a, _, ha, hrest, rfl⟩ := List.forall₂_cons_left_iff.mp hnear
  obtain ⟨b, _, hb, hnil, rfl⟩ := List.forall₂_cons_left_iff.mp hrest
  cases hnil
  obtain ⟨segment, _, hroute, hnil, rfl⟩ := List.forall₂_cons_left_iff.mp hroutes
  cases hnil
  refine ⟨path, a, b, segment, hpath, ?_, ha, hb, hroute, hjoin⟩
  rintro rfl
  exact hsome ⟨a, by simp⟩

end TransitShapes.Network
