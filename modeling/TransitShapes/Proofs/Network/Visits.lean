import TransitShapes.Network.Waypoints
import TransitShapes.Proofs.Network.Route
import TransitShapes.Proofs.Polyline.Join

/-! # What a route through waypoints visits

Every waypoint is moved to a vertex in range, and the route passes these vertices in their order. An
edge whose length is not a number does no harm: only what a route costs is unknown then.
-/

namespace TransitShapes

open Scalar

/-! ## What an evaluation tells -/

theorem exists_ok_of_any {ε α : Type} {value : Except ε (Option α)} {test : α → Bool}
    (h : value.toOption.join.any test) : ∃ a, value = .ok (some a) ∧ test a := by
  match value, h with
  | .ok (some a), h => exact ⟨a, rfl, h⟩

theorem exists_ok_of_isSome {ε α : Type} {value : Except ε (Option α)}
    (h : value.toOption.join.isSome) : ∃ a, value = .ok (some a) := by
  match value, h with
  | .ok (some a), _ => exact ⟨a, rfl⟩

theorem not_ok_of_isNone {ε α : Type} {value : Except ε (Option α)}
    (h : value.toOption.join.isNone) : ∀ a, value ≠ .ok (some a) := by
  rintro a rfl
  cases h

namespace Network

variable {R : Type} [Scalar R] {net : Network R}

/-! ## Points that lead from vertex to vertex -/

/-- Points that begin at one vertex and end at another. -/
structure Runs (net : Network R) (a b : Nat) (points : List (Vec3 R)) : Prop where
  two_points : 2 ≤ points.length
  first : ∃ p, points.head? = some p ∧ net.vertexId? p = some a
  last : ∃ p, points.getLast? = some p ∧ net.vertexId? p = some b

theorem Runs.append {a b c : Nat} {points incoming : List (Vec3 R)} (h : net.Runs a b points)
    (hnext : net.Runs b c incoming) (threshold : Option R) :
    net.Runs a c (Polyline.appendPoints threshold points incoming) := by
  obtain ⟨p, hp, ha⟩ := h.first
  obtain ⟨q, hq, hc⟩ := hnext.last
  have hprefix := Polyline.prefix_appendPoints threshold points incoming
  refine ⟨Nat.le_trans h.two_points hprefix.length_le, ⟨p, ?_, ha⟩, ⟨q, ?_, hc⟩⟩
  · obtain ⟨rest, hrest⟩ := hprefix
    simp [← hrest, List.head?_append, hp]
  · rw [Polyline.getLast?_appendPoints _ _ hnext.two_points, hq]

theorem WellFormed.runs_of_joins (h : WellFormed net) {ride : Ride R} {a b : Nat}
    (hride : ride.Joins net a b) : net.Runs a b ride.line.points := by
  obtain ⟨⟨line, hget, hline⟩, first, last, hends, ha, hb⟩ := hride
  obtain ⟨hfirst, hlast⟩ := (ride.line.ends?_eq_some_iff first last).mp hends
  refine ⟨?_, ⟨first, hfirst, ha⟩, ⟨last, hlast, hb⟩⟩
  have htwo : 2 ≤ line.points.length := h.collection.two_points hget
  rcases hline with hline | hline <;> rw [hline]
  · exact htwo
  · simpa [Polyline.reversed] using htwo

theorem Chain.runs (h : WellFormed net) {a b : Nat} {rides : List (Ride R)}
    (hchain : net.Chain a rides b) (threshold : Option R) :
    rides = [] ∧ a = b ∨
      net.Runs a b (Polyline.join (rides.map Ride.line) threshold).points := by
  induction hchain with
  | nil => exact Or.inl ⟨rfl, rfl⟩
  | @snoc rides ride b c _ hride ih =>
    right
    have hlast := h.runs_of_joins hride
    rw [List.map_append, List.map_singleton, Polyline.points_join_append_singleton]
    rcases ih with ⟨rfl, rfl⟩ | hruns
    · simpa [Polyline.join] using hlast
    · exact hruns.append hlast threshold

theorem WellFormed.exists_chain_of_route [LawfulSum R] (h : WellFormed net) {a b : Nat}
    {segment : Polyline R} (hne : a ≠ b) (hroute : (net.route a b).value = some segment) :
    ∃ rides, net.Chain a rides b ∧
      segment = Polyline.join (rides.map Ride.line) (some 0.0) := by
  have hends := Search.ends_search h.unsignedEdges a b
  unfold route at hroute
  rw [if_neg hne] at hroute
  generalize net.search a b = outcome at hends hroute
  cases hends with
  | unreachable => cases hroute
  | reached hinv hfrontier htarget =>
    obtain ⟨hops, cost, -, -, htraced⟩ := hinv.exists_traced hfrontier htarget
    obtain ⟨rides, hchain, -, hlines⟩ := htraced.walk.exists_chain h
    have hback := (htraced.leadsBack hinv.last_start).reconstruct net
    simp only [hback, joinHops, hlines, Option.some.injEq] at hroute
    exact ⟨rides, hchain, hroute.symm⟩

theorem WellFormed.runs_of_route [LawfulSum R] (h : WellFormed net) {a b : Nat}
    {segment : Polyline R} (hroute : (net.route a b).value = some segment) :
    a = b ∧ segment.points = [] ∨ net.Runs a b segment.points := by
  by_cases hne : a = b
  · unfold route at hroute
    rw [if_pos hne] at hroute
    cases hroute
    exact Or.inl ⟨hne, rfl⟩
  · obtain ⟨rides, hchain, rfl⟩ := h.exists_chain_of_route hne hroute
    exact Or.inr ((hchain.runs h (some 0.0)).resolve_left fun hnil => hne hnil.2)

/-! ## Segments -/

/-- A segment for each step in a list of vertices. -/
inductive Stages (net : Network R) : List Nat → List (Polyline R) → Prop where
  | single {v : Nat} : Stages net [v] []
  | cons {a b : Nat} {rest : List Nat} {segment : Polyline R} {segments : List (Polyline R)} :
      a = b ∧ segment.points = [] ∨ net.Runs a b segment.points → Stages net (b :: rest) segments →
      Stages net (a :: b :: rest) (segment :: segments)

theorem WellFormed.stages_of_segmentsThrough [LawfulSum R] (h : WellFormed net) {index : Nat}
    {vertices : List Nat} {segments : List (Polyline R)} (hne : vertices ≠ [])
    (hsegments : (net.segmentsThrough index vertices).value = some segments) :
    net.Stages vertices segments := by
  induction vertices generalizing index segments with
  | nil => exact absurd rfl hne
  | cons a rest ih =>
    cases rest with
    | nil =>
      cases hsegments
      exact .single
    | cons b rest =>
      simp only [segmentsThrough, Logged.value_bind, Logged.value_mapLog] at hsegments
      cases hroute : (net.route a b).value with
      | none =>
        simp only [hroute] at hsegments
        cases hsegments
      | some segment =>
        simp only [hroute, Logged.value_bind, Logged.value_pure] at hsegments
        obtain ⟨others, hothers, rfl⟩ := Option.map_eq_some_iff.mp hsegments
        exact .cons (h.runs_of_route hroute) (ih (List.cons_ne_nil b rest) hothers)

/-- Vertices stand among points at positions in order. -/
structure Visits (net : Network R) (points : List (Vec3 R)) (vertices positions : List Nat) :
    Prop where
  ascending : positions.Pairwise (· ≤ ·)
  stands : List.Forall₂ (fun v i => ∃ p, points[i]? = some p ∧ net.vertexId? p = some v)
    vertices positions

theorem Visits.cons {points : List (Vec3 R)} {vertices positions : List Nat} {v i : Nat}
    (h : net.Visits points vertices positions)
    (hv : ∃ p, points[i]? = some p ∧ net.vertexId? p = some v) (hi : ∀ j ∈ positions, i ≤ j) :
    net.Visits points (v :: vertices) (i :: positions) :=
  ⟨List.pairwise_cons.mpr ⟨hi, h.ascending⟩, .cons hv h.stands⟩

theorem Visits.exists_head {points : List (Vec3 R)} {vertices positions : List Nat} {v : Nat}
    (h : net.Visits points (v :: vertices) positions) :
    ∃ i ∈ positions, (∃ p, points[i]? = some p ∧ net.vertexId? p = some v) ∧
      ∀ j ∈ positions, i ≤ j := by
  obtain ⟨hascending, hstands⟩ := h
  cases hstands with
  | @cons _ i _ others hi _ =>
    exact ⟨i, List.mem_cons_self, hi,
      List.forall_mem_cons.mpr ⟨Nat.le_refl i, (List.pairwise_cons.mp hascending).1⟩⟩

theorem getElem?_of_prefix {α : Type} {first whole : List α} (h : first <+: whole) {i : Nat} {a : α}
    (ha : first[i]? = some a) : whole[i]? = some a := by
  obtain ⟨rest, rfl⟩ := h
  rw [List.getElem?_append_left (List.getElem?_eq_some_iff.mp ha).1, ha]

theorem exists_last_of_prefix {points whole : List (Vec3 R)} (h : points <+: whole)
    (hne : points ≠ []) {v : Nat} (hv : ∀ p ∈ points.getLast?, net.vertexId? p = some v) :
    ∃ p, whole[points.length - 1]? = some p ∧ net.vertexId? p = some v := by
  have hlast := List.getLast?_eq_getLast_of_ne_nil hne
  refine ⟨points.getLast hne, getElem?_of_prefix h ?_, hv _ hlast⟩
  rw [← List.getLast?_eq_getElem?, hlast]

theorem Stages.exists_visits {vertices : List Nat} {segments : List (Polyline R)}
    (h : net.Stages vertices segments) (threshold : Option R) {points whole : List (Vec3 R)}
    (hpoints : ∀ p ∈ points.getLast?, ∀ v ∈ vertices.head?, net.vertexId? p = some v)
    (hwhole : segments.foldl
      (fun points line => Polyline.appendPoints threshold points line.points) points = whole)
    (hne : whole ≠ []) :
    ∃ positions, net.Visits whole vertices positions ∧
      ∀ i ∈ positions, points.length - 1 ≤ i := by
  induction h generalizing points with
  | @single v =>
    cases hwhole
    have hstands := exists_last_of_prefix (List.prefix_rfl) hne fun p hp => hpoints p hp v rfl
    exact ⟨[points.length - 1], ⟨List.pairwise_singleton .., .cons hstands .nil⟩,
      fun i hi => Nat.le_of_eq (List.mem_singleton.mp hi).symm⟩
  | @cons a b rest segment segments hsegment _ ih =>
    rw [List.foldl_cons] at hwhole
    rcases hsegment with ⟨rfl, hempty⟩ | hruns
    · -- Nothing is appended, so the vertex stands where it stands for the next segment.
      rw [hempty, Polyline.appendPoints_nil] at hwhole
      obtain ⟨positions, hvisits, hfrom⟩ := ih hpoints hwhole
      obtain ⟨i, hi, hstands, hfirst⟩ := hvisits.exists_head
      exact ⟨i :: positions, hvisits.cons hstands hfirst,
        List.forall_mem_cons.mpr ⟨hfrom i hi, hfrom⟩⟩
    · have hnext := Polyline.prefix_appendPoints threshold points segment.points
      have hprefix := hwhole ▸ Polyline.prefix_foldl_appendPoints segments
      have hb : ∀ p ∈ (Polyline.appendPoints threshold points segment.points).getLast?,
          ∀ v ∈ (b :: rest).head?, net.vertexId? p = some v := by
        obtain ⟨q, hq, hb⟩ := hruns.last
        rw [Polyline.getLast?_appendPoints _ _ hruns.two_points, hq]
        intro p hp v hv
        cases hp
        cases hv
        exact hb
      obtain ⟨positions, hvisits, hfrom⟩ := ih hb hwhole
      have hstands : ∃ p, whole[points.length - 1]? = some p ∧ net.vertexId? p = some a := by
        by_cases hsome : points = []
        · subst hsome
          obtain ⟨p, hp, ha⟩ := hruns.first
          rw [Polyline.nil_appendPoints] at hprefix
          exact ⟨p, getElem?_of_prefix hprefix (List.head?_eq_getElem?.symm.trans hp), ha⟩
        · exact exists_last_of_prefix (hnext.trans hprefix) hsome fun p hp => hpoints p hp a rfl
      have hlater : ∀ j ∈ positions, points.length - 1 ≤ j := fun j hj =>
        Nat.le_trans (Nat.sub_le_sub_right hnext.length_le 1) (hfrom j hj)
      exact ⟨(points.length - 1) :: positions, hvisits.cons hstands hlater,
        List.forall_mem_cons.mpr ⟨Nat.le_refl _, hlater⟩⟩

/-! ## Waypoints -/

theorem exists_vertex_of_mem_within {p : Vec3 R} {maxDistance : R} {found : Nearby R}
    (h : found ∈ net.within p maxDistance) :
    ∃ q, net.vertex? found.vertex = some q ∧ found.distance = p.distance q ∧
      found.distance ≤ maxDistance := by
  unfold within at h
  split at h
  case isTrue => cases h
  case isFalse =>
    rw [(Ascending.sort_perm _ _).mem_iff, List.mem_filter, List.mem_filterMap] at h
    obtain ⟨⟨⟨place, id⟩, -, hfound⟩, hin⟩ := h
    obtain ⟨q, hq, rfl⟩ := Option.map_eq_some_iff.mp hfound
    exact ⟨q, hq, rfl, of_decide_eq_true hin⟩

/-- The vertex that a waypoint is moved to, the first of those in range. -/
structure Snaps (net : Network R) (maxDistance : R) (p : Vec3 R) (v : Nat) : Prop where
  nearest : (net.within p maxDistance).head?.map Nearby.vertex = some v
  inRange : ∃ q, net.vertex? v = some q ∧ p.distance q ≤ maxDistance

theorem snaps_of_within {maxDistance : R} {p : Vec3 R} {found : Nearby R}
    {others : List (Nearby R)} (h : net.within p maxDistance = found :: others) :
    net.Snaps maxDistance p found.vertex := by
  have hfound : found ∈ net.within p maxDistance := h ▸ List.mem_cons_self
  obtain ⟨q, hq, hdistance, hin⟩ := exists_vertex_of_mem_within hfound
  exact ⟨by rw [h]; rfl, q, hq, hdistance ▸ hin⟩

theorem snaps_of_snap {maxDistance : R} {index : Nat} {points : List (Vec3 R)}
    {vertices : List Nat} (h : (net.snap maxDistance index points).value = some vertices) :
    List.Forall₂ (net.Snaps maxDistance) points vertices := by
  induction points generalizing index vertices with
  | nil =>
    cases h
    exact .nil
  | cons p rest ih =>
    unfold snap at h
    cases hwithin : net.within p maxDistance with
    | nil =>
      rw [hwithin] at h
      cases h
    | cons found others =>
      rw [hwithin] at h
      obtain ⟨next, hnext, rfl⟩ := Option.map_eq_some_iff.mp h
      exact .cons (snaps_of_within hwithin) (ih hnext)

theorem routeThrough_value {points : List (Vec3 R)} (h : 2 ≤ points.length) (maxDistance : R) :
    (net.routeThrough points maxDistance).value =
      .ok ((net.snap maxDistance 0 points).value.bind fun vertices =>
        (net.segmentsThrough 0 vertices).value.bind joinSegments) := by
  unfold routeThrough
  rw [if_neg (by omega)]
  simp only [Logged.value_bind]
  cases (net.snap maxDistance 0 points).value with
  | none => rfl
  | some vertices =>
    simp only [Logged.value_bind, Option.bind_some]
    cases (net.segmentsThrough 0 vertices).value with
    | none => rfl
    | some segments =>
      simp only [Option.bind_some]
      cases joinSegments segments <;> rfl

theorem ne_nil_of_snaps {maxDistance : R} {points : List (Vec3 R)} {vertices : List Nat}
    (hlength : 2 ≤ points.length) (h : List.Forall₂ (net.Snaps maxDistance) points vertices) :
    vertices ≠ [] := by
  rintro rfl
  cases h
  simp at hlength

theorem joinSegments_eq_some_iff {segments : List (Polyline R)} {path : Polyline R} :
    joinSegments segments = some path ↔
      2 ≤ path.size ∧ path = Polyline.join segments (some 0.0) := by
  unfold joinSegments
  simp only
  split
  case isTrue hsize =>
    refine iff_of_false nofun ?_
    rintro ⟨htwo, rfl⟩
    exact Nat.not_le_of_lt hsize htwo
  case isFalse hsize =>
    rw [Option.some.injEq, eq_comm, iff_and_self]
    rintro rfl
    exact Nat.le_of_not_lt hsize

theorem WellFormed.exists_visits_of_routeThrough [LawfulSum R] (h : WellFormed net)
    {points : List (Vec3 R)} (hlength : 2 ≤ points.length) {maxDistance : R} {path : Polyline R}
    (hroute : (net.routeThrough points maxDistance).value = .ok (some path)) :
    2 ≤ path.size ∧ ∃ vertices positions, List.Forall₂ (net.Snaps maxDistance) points vertices ∧
      net.Visits path.points vertices positions := by
  rw [routeThrough_value hlength, Except.ok.injEq] at hroute
  obtain ⟨vertices, hsnap, hroute⟩ := Option.bind_eq_some_iff.mp hroute
  obtain ⟨segments, hsegments, hjoin⟩ := Option.bind_eq_some_iff.mp hroute
  have hsnaps := snaps_of_snap hsnap
  have hvertices := ne_nil_of_snaps hlength hsnaps
  obtain ⟨hsize, rfl⟩ := joinSegments_eq_some_iff.mp hjoin
  have hpoints : (Polyline.join segments (some 0.0)).points ≠ [] := by
    intro hnil
    simp [Polyline.size, hnil] at hsize
  obtain ⟨positions, hvisits, -⟩ :=
    (h.stages_of_segmentsThrough hvertices hsegments).exists_visits (some 0.0) (by simp)
      (Eq.refl _) hpoints
  exact ⟨hsize, vertices, positions, hsnaps, hvisits⟩

end Network

end TransitShapes
