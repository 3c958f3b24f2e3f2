import TransitShapes.Proofs.Network.Cost
import TransitShapes.Proofs.Scalar.Real

/-! # The route through the nearest vertices is a cheapest one

Every waypoint is moved to the first vertex in range. The segments between these vertices are joined
with nothing lost and nothing twice, also where two waypoints are moved to one vertex.
-/

namespace TransitShapes.Network

open Scalar

variable {R : Type} [Scalar R] {net : Network R}

/-! ## Where the search gives up -/

theorem snap_eq_none_iff {maxDistance : R} {points : List (Vec3 R)} (index : Nat) :
    (net.snap maxDistance index points).value = none ↔
      ∃ p ∈ points, net.within p maxDistance = [] := by
  induction points generalizing index with
  | nil => simp [snap]
  | cons p rest ih =>
    rw [List.exists_mem_cons_iff]
    unfold snap
    cases hwithin : net.within p maxDistance with
    | nil => exact iff_of_true rfl (Or.inl rfl)
    | cons found others =>
      simp only [Logged.value_bind, Logged.value_pure, Option.map_eq_none_iff, ih, reduceCtorEq,
        false_or]

theorem segmentsThrough_value (net : Network R) (index a b : Nat) (rest : List Nat) :
    (net.segmentsThrough index (a :: b :: rest)).value =
      (net.route a b).value.bind fun segment =>
        (net.segmentsThrough (index + 1) (b :: rest)).value.map (segment :: ·) := by
  simp only [segmentsThrough, Logged.value_bind, Logged.value_mapLog]
  cases (net.route a b).value <;> rfl

/-- The routes from each vertex of a list to the next. -/
def RoutesAlong (net : Network R) (vertices : List Nat) (segments : List (Polyline R)) : Prop :=
  List.Forall₂ (fun step segment => (net.route step.1 step.2).value = some segment)
    (vertices.zip vertices.tail) segments

theorem segmentsThrough_eq_some_iff {vertices : List Nat} {segments : List (Polyline R)}
    (index : Nat) :
    (net.segmentsThrough index vertices).value = some segments ↔
      net.RoutesAlong vertices segments := by
  induction vertices generalizing index segments with
  | nil => simp [segmentsThrough, RoutesAlong, eq_comm]
  | cons a rest ih =>
    cases rest with
    | nil => simp [segmentsThrough, RoutesAlong, eq_comm]
    | cons b rest =>
      rw [segmentsThrough_value]
      simp only [Option.bind_eq_some_iff, Option.map_eq_some_iff, ih, RoutesAlong, List.tail_cons,
        List.zip_cons_cons, List.forall₂_cons_left_iff]
      constructor
      · rintro ⟨segment, hroute, others, hothers, rfl⟩
        exact ⟨segment, others, hroute, hothers, rfl⟩
      · rintro ⟨segment, others, hroute, hothers, rfl⟩
        exact ⟨segment, hroute, others, hothers, rfl⟩

theorem segmentsThrough_eq_none_iff {vertices : List Nat} (index : Nat) :
    (net.segmentsThrough index vertices).value = none ↔
      ∃ step ∈ vertices.zip vertices.tail, (net.route step.1 step.2).value = none := by
  induction vertices generalizing index with
  | nil => simp [segmentsThrough]
  | cons a rest ih =>
    cases rest with
    | nil => simp [segmentsThrough]
    | cons b rest =>
      have hrest := ih (index + 1)
      rw [List.tail_cons] at hrest
      rw [segmentsThrough_value, List.tail_cons, List.zip_cons_cons, List.exists_mem_cons_iff,
        ← hrest]
      cases (net.route a b).value <;> simp

/-! ## Joined segments -/

theorem Stages.runs_foldl {origin a : Nat} {vertices : List Nat} {segments : List (Polyline R)}
    (h : net.Stages vertices segments) (threshold : Option R) {points : List (Vec3 R)}
    (ha : vertices.head? = some a) (hpoints : net.Runs origin a points) :
    ∃ b, vertices.getLast? = some b ∧ net.Runs origin b (segments.foldl
      (fun points line => Polyline.appendPoints threshold points line.points) points) := by
  induction h generalizing points a with
  | single => exact ⟨a, ha, hpoints⟩
  | cons hsegment _ ih =>
    cases ha
    rw [List.foldl_cons, List.getLast?_cons_cons]
    rcases hsegment with ⟨rfl, hempty⟩ | hruns
    · rw [hempty, Polyline.appendPoints_nil]
      exact ih rfl hpoints
    · exact ih rfl (hpoints.append hruns threshold)

theorem Stages.runs_join {a : Nat} {vertices : List Nat} {segments : List (Polyline R)}
    (h : net.Stages vertices segments) (threshold : Option R) (ha : vertices.head? = some a) :
    (∀ v ∈ vertices, v = a) ∨ ∃ b, vertices.getLast? = some b ∧
      net.Runs a b (Polyline.join segments threshold).points := by
  unfold Polyline.join
  induction h generalizing a with
  | single =>
    cases ha
    exact Or.inl fun v hv => List.mem_singleton.mp hv
  | cons hsegment hrest ih =>
    cases ha
    rw [List.foldl_cons, List.getLast?_cons_cons]
    rcases hsegment with ⟨rfl, hempty⟩ | hruns
    · rw [hempty, Polyline.appendPoints_nil]
      exact (ih rfl).imp_left fun hall => List.forall_mem_cons.mpr ⟨rfl, hall⟩
    · rw [Polyline.nil_appendPoints]
      exact Or.inr (hrest.runs_foldl threshold rfl hruns)

theorem RoutesAlong.points_eq_nil {v : Nat} {vertices : List Nat} {segments : List (Polyline R)}
    (h : net.RoutesAlong vertices segments) (hall : ∀ u ∈ vertices, u = v) :
    ∀ segment ∈ segments, segment.points = [] := by
  have hsteps : ∀ step ∈ vertices.zip vertices.tail, step.1 = step.2 := by
    intro step hstep
    obtain ⟨hfirst, hsecond⟩ := List.of_mem_zip hstep
    exact (hall _ hfirst).trans (hall _ (List.mem_of_mem_tail hsecond)).symm
  unfold RoutesAlong at h
  generalize vertices.zip vertices.tail = steps at h hsteps
  induction h with
  | nil => simp
  | @cons step segment steps segments hroute _ ih =>
    obtain ⟨hstep, hothers⟩ := List.forall_mem_cons.mp hsteps
    refine List.forall_mem_cons.mpr ⟨?_, ih hothers⟩
    unfold route at hroute
    rw [if_pos hstep] at hroute
    cases hroute
    rfl

theorem WellFormed.joinSegments_eq_none_iff [LawfulSum R] (h : WellFormed net)
    {vertices : List Nat} {segments : List (Polyline R)} (hne : vertices ≠ [])
    (hroutes : net.RoutesAlong vertices segments) :
    joinSegments segments = none ↔ ∃ v, ∀ u ∈ vertices, u = v := by
  unfold joinSegments
  simp only [ite_eq_left_iff, reduceCtorEq, imp_false, not_not]
  constructor
  · intro hsize
    have hstages := h.stages_of_segmentsThrough hne
      ((segmentsThrough_eq_some_iff 0).mpr hroutes)
    rcases hstages.runs_join (some 0.0) (List.head?_eq_some_head hne) with hall | ⟨b, -, hruns⟩
    · exact ⟨_, hall⟩
    · exact absurd hruns.two_points (Nat.not_le_of_lt hsize)
  · rintro ⟨v, hall⟩
    unfold Polyline.size
    rw [Polyline.points_join_eq_nil (hroutes.points_eq_nil hall)]
    exact Nat.zero_lt_two

theorem Stages.lengthThrough_foldl [LawfulExact R] (hnet : WellFormed net) {vertices : List Nat}
    {segments : List (Polyline R)} (h : net.Stages vertices segments) {points : List (Vec3 R)}
    (hpoints : ∀ p ∈ points.getLast?, ∀ v ∈ vertices.head?, net.vertexId? p = some v) :
    Polyline.lengthThrough (segments.foldl
        (fun points line => Polyline.appendPoints (some 0.0) points line.points) points) =
      segments.foldl (fun sum line => sum + line.pathLength) (Polyline.lengthThrough points) := by
  -- The points end at the first vertex that is left, so the next segment goes on from there.
  induction h generalizing points with
  | single => rfl
  | @cons a b rest segment segments hsegment _ ih =>
    rw [List.foldl_cons, List.foldl_cons, Polyline.pathLength_eq]
    rcases hsegment with ⟨rfl, hempty⟩ | hruns
    · rw [hempty, Polyline.appendPoints_nil, Polyline.lengthThrough_nil, LawfulExact.add_zero]
      exact ih hpoints
    · rw [← hnet.lengthThrough_appendPoints (fun p hp => hpoints p hp a rfl)]
      · apply ih
        obtain ⟨q, hq, hb⟩ := hruns.last
        rw [Polyline.getLast?_appendPoints _ _ hruns.two_points, hq]
        intro p hp v hv
        cases hp
        cases hv
        exact hb
      · obtain ⟨q, hq, ha⟩ := hruns.first
        intro p hp
        cases hq.symm.trans hp
        exact ha

theorem Stages.pathLength_join [LawfulExact R] (hnet : WellFormed net) {vertices : List Nat}
    {segments : List (Polyline R)} (h : net.Stages vertices segments) :
    (Polyline.join segments (some 0.0)).pathLength =
      totalCost (segments.map Polyline.pathLength) := by
  unfold totalCost
  rw [List.foldl_map]
  have hnil : ∀ p ∈ ([] : List (Vec3 R)).getLast?, ∀ v ∈ vertices.head?,
      net.vertexId? p = some v := by simp
  exact h.lengthThrough_foldl hnet hnil

theorem RoutesAlong.leastCosts [LawfulExact R] (hnet : WellFormed net) {vertices : List Nat}
    {segments : List (Polyline R)} (h : net.RoutesAlong vertices segments) :
    net.LeastCosts vertices (segments.map Polyline.pathLength) := by
  unfold LeastCosts
  rw [List.forall₂_map_right_iff]
  exact h.imp fun _ _ hroute => hnet.isLeastCost_of_route hroute

/-! ## The theorem -/

theorem snaps_unique {maxDistance : R} {points : List (Vec3 R)} {vertices others : List Nat}
    (h : List.Forall₂ (net.Snaps maxDistance) points vertices)
    (hothers : List.Forall₂ (net.Snaps maxDistance) points others) : vertices = others := by
  apply List.right_unique_forall₂' _ h hothers
  intro p v u hv hu
  exact Option.some.inj (hv.nearest.symm.trans hu.nearest)

/-- What hinders a route through waypoints: no vertex in range, no chain between two of the nearest
vertices, or a single nearest vertex. -/
def Hindered (net : Network R) (points : List (Vec3 R)) (maxDistance : R) : Prop :=
  (∃ p ∈ points, net.within p maxDistance = []) ∨
    ∃ vertices, List.Forall₂ (net.Snaps maxDistance) points vertices ∧
      ((∃ step ∈ vertices.zip vertices.tail, ¬ ∃ rides, net.Chain step.1 rides step.2) ∨
        ∃ v, ∀ u ∈ vertices, u = v)

theorem WellFormed.hindered_iff [LawfulSum R] (h : WellFormed net) {points : List (Vec3 R)}
    (hlength : 2 ≤ points.length) (maxDistance : R) :
    ((net.snap maxDistance 0 points).value.bind fun vertices =>
        (net.segmentsThrough 0 vertices).value.bind joinSegments) = none ↔
      net.Hindered points maxDistance := by
  unfold Hindered
  rw [← snap_eq_none_iff 0]
  cases hsnap : (net.snap maxDistance 0 points).value with
  | none => simp
  | some vertices =>
    have hsnaps := snaps_of_snap hsnap
    have hvertices := ne_nil_of_snaps hlength hsnaps
    -- The nearest vertices are known, so the question is what lies between them.
    suffices (net.segmentsThrough 0 vertices).value.bind joinSegments = none ↔
        (∃ step ∈ vertices.zip vertices.tail, ¬ ∃ rides, net.Chain step.1 rides step.2) ∨
          ∃ v, ∀ u ∈ vertices, u = v by
      simp only [Option.bind_some, this, reduceCtorEq, false_or]
      constructor
      · intro hhinder
        exact ⟨vertices, hsnaps, hhinder⟩
      · rintro ⟨others, hothers, hhinder⟩
        rw [snaps_unique hsnaps hothers]
        exact hhinder
    simp only [← h.route_eq_none_iff, ← segmentsThrough_eq_none_iff 0]
    cases hsegments : (net.segmentsThrough 0 vertices).value with
    | none => simp
    | some segments =>
      have hroutes := (segmentsThrough_eq_some_iff 0).mp hsegments
      simp only [Option.bind_some, h.joinSegments_eq_none_iff hvertices hroutes, reduceCtorEq,
        false_or]

theorem VerticesAgree.mem_within_iff (h : VerticesAgree net) {p : Vec3 R} {maxDistance : R}
    {found : Nearby R} : found ∈ net.within p maxDistance ↔ 0.0 ≤ maxDistance ∧
      ∃ q, net.vertex? found.vertex = some q ∧ found.distance = p.distance q ∧
        found.distance ≤ maxDistance ∧ p.squaredDistance q ≤ squaredReach maxDistance := by
  unfold within
  by_cases hmax : 0.0 ≤ maxDistance
  · rw [if_neg (not_not_intro hmax), (Ascending.sort_perm _ _).mem_iff, List.mem_filter,
      List.mem_filterMap]
    simp only [PointIndex.within, List.mem_filter, h.indexed, List.mem_zipIdx_iff_getElem?,
      Array.getElem?_toList, decide_eq_true_eq, Option.map_eq_some_iff]
    constructor
    · rintro ⟨⟨⟨place, id⟩, ⟨hplace, hreach⟩, q, hq, rfl⟩, hin⟩
      cases hplace.symm.trans hq
      exact ⟨hmax, place, hq, rfl, hin, hreach⟩
    · rintro ⟨-, q, hq, hdistance, hin, hreach⟩
      exact ⟨⟨(q, found.vertex), ⟨hq, hreach⟩, q, hq, by rw [← hdistance]⟩, hin⟩
  · rw [if_pos hmax]
    exact iff_of_false List.not_mem_nil fun hfound => hmax hfound.1

/-- A place is a vertex, but for the sign of a zero. -/
def IsAt (net : Network R) (v : Nat) (p : Vec3 R) : Prop :=
  ∃ q, net.vertex? v = some q ∧ q.SameKey p

/-- **The route through the nearest vertices is a cheapest one.** There is none exactly where it is
hindered. Otherwise it leads from the first of these vertices to the last and visits all of them in
their order. Where nothing is rounded its length is the sum of the least costs from each of them to
the next, and no tour that visits them costs less. -/
theorem Reachable.routeThrough_cheapest [LawfulSum R] (h : net.Reachable)
    {points : List (Vec3 R)} (hlength : 2 ≤ points.length) (maxDistance : R) :
    ∃ answer, (net.routeThrough points maxDistance).value = .ok answer ∧
      (answer = none ↔ net.Hindered points maxDistance) ∧
      ∀ path, answer = some path → 2 ≤ path.size ∧ ∃ vertices positions,
        List.Forall₂ (net.Snaps maxDistance) points vertices ∧
        (∃ v ∈ vertices.head?, ∃ p ∈ path.first?, net.IsAt v p) ∧
        (∃ v ∈ vertices.getLast?, ∃ p ∈ path.last?, net.IsAt v p) ∧
        net.Visits path.points vertices positions ∧
        (LawfulExact R → ∃ costs, net.LeastCosts vertices costs ∧
          path.length = .ok (totalCost costs) ∧
          ∀ start rides finish, net.Tour start rides finish vertices →
            totalCost costs ≤ net.chainCost rides) := by
  have hnet := h.wellFormed
  refine ⟨_, routeThrough_value hlength maxDistance, hnet.hindered_iff hlength maxDistance, ?_⟩
  intro path hpath
  have hvalue : (net.routeThrough points maxDistance).value = .ok (some path) := by
    rw [routeThrough_value hlength, hpath]
  obtain ⟨hsize, visited, positions, hvisited, hvisits⟩ :=
    hnet.exists_visits_of_routeThrough hlength hvalue
  obtain ⟨vertices, hsnap, hpath⟩ := Option.bind_eq_some_iff.mp hpath
  obtain ⟨segments, hsegments, hjoin⟩ := Option.bind_eq_some_iff.mp hpath
  have hsnaps := snaps_of_snap hsnap
  obtain rfl := snaps_unique hsnaps hvisited
  have hvertices := ne_nil_of_snaps hlength hsnaps
  have hroutes := (segmentsThrough_eq_some_iff 0).mp hsegments
  have hstages := hnet.stages_of_segmentsThrough hvertices hsegments
  have hsome : ¬ ∃ v, ∀ u ∈ vertices, u = v := by
    rw [← hnet.joinSegments_eq_none_iff hvertices hroutes, hjoin]
    simp
  have hsame := (joinSegments_eq_some_iff.mp hjoin).2
  have hhead := List.head?_eq_some_head hvertices
  rcases hstages.runs_join (some 0.0) hhead with hall | ⟨b, hb, hruns⟩
  · exact absurd ⟨_, hall⟩ hsome
  rw [← hsame] at hruns
  obtain ⟨first, hfirst, ha⟩ := hruns.first
  obtain ⟨last, hlast, hb'⟩ := hruns.last
  refine ⟨hsize, vertices, positions, hsnaps, ⟨_, hhead, first, hfirst, hnet.agree.vertexId?.mp ha⟩,
    ⟨b, hb, last, hlast, hnet.agree.vertexId?.mp hb'⟩, hvisits, ?_⟩
  intro hexact
  have hcosts := hroutes.leastCosts hnet
  refine ⟨_, hcosts, ?_, fun start rides finish htour => htour.totalCost_le hnet hvertices hcosts⟩
  rw [path.length_eq hsize, hsame, hstages.pathLength_join hnet]

/-! ## A quarter of the globe -/

theorem get?_offer_first (a b : Vec3 R) {id : Nat} {line : Polyline R} :
    (({} : Network R).offer ⟨[a, b], none⟩ .smart).value.1.collection.get? id = some line ↔
      id = 0 ∧ line = ⟨[a, b], none⟩ := by
  rw [collection_offer]
  match id with
  | 0 => exact ⟨fun h => ⟨rfl, (Option.some.inj h).symm⟩, fun h => congrArg some h.2.symm⟩
  | id + 1 => exact iff_of_false nofun (by simp)

/-- A way along a quarter of the equator, over the reals. -/
def quarterLine : Polyline ℝ := ⟨[⟨1, 0, 0⟩, ⟨0, 1, 0⟩], none⟩

noncomputable def quarter : Network ℝ := (({} : Network ℝ).offer quarterLine .smart).value.1

theorem reachable_quarter : quarter.Reachable := .offer _ _ .empty

theorem quarter_get?_eq_some_iff {id : Nat} {line : Polyline ℝ} :
    quarter.collection.get? id = some line ↔ id = 0 ∧ line = quarterLine := get?_offer_first _ _

theorem quarter_vertex?_cases {v : Nat} {p : Vec3 ℝ} (h : quarter.vertex? v = some p) :
    p = ⟨1, 0, 0⟩ ∨ p = ⟨0, 1, 0⟩ := by
  obtain ⟨id, line, ends, hget, hends, hp⟩ := reachable_quarter.wellFormed.isEnd h
  obtain ⟨-, rfl⟩ := quarter_get?_eq_some_iff.mp hget
  cases hends
  exact hp

theorem quarter_distance_pos : 0 < (⟨1, 0, 0⟩ : Vec3 ℝ).distance ⟨0, 1, 0⟩ := by
  have hangle : (⟨1, 0, 0⟩ : Vec3 ℝ).angle ⟨0, 1, 0⟩ = Real.pi / 2 := by
    rw [Exact.angle_eq, Exact.norm_eq, ← Complex.arg_I]
    unfold Vec3.cross Vec3.dot
    congr 1
    apply Complex.ext <;> simp
  unfold Vec3.distance globeRadius
  rw [hangle]
  positivity

theorem quarter_snaps {p : Vec3 ℝ} (hp : p = ⟨1, 0, 0⟩ ∨ p = ⟨0, 1, 0⟩) {v : Nat}
    (h : quarter.Snaps 0 p v) : quarter.vertex? v = some p := by
  obtain ⟨q, hq, hin⟩ := h.inRange
  have hpos := quarter_distance_pos
  rcases hp with rfl | rfl <;> rcases quarter_vertex?_cases hq with rfl | rfl
  · exact hq
  · exact absurd hin hpos.not_ge
  · rw [LawfulExact.distance_comm] at hin
    exact absurd hin hpos.not_ge
  · exact hq

theorem quarter_exists_vertex {p : Vec3 ℝ} (hp : p = ⟨1, 0, 0⟩ ∨ p = ⟨0, 1, 0⟩) :
    ∃ v, quarter.vertex? v = some p := by
  have hnet := reachable_quarter.wellFormed
  have hend : quarter.IsEnd p :=
    ⟨0, quarterLine, _, quarter_get?_eq_some_iff.mpr ⟨rfl, rfl⟩, rfl, hp⟩
  obtain ⟨v, hv⟩ := hnet.exists_vertexId? hend
  obtain ⟨q, hq, hsame⟩ := hnet.agree.vertexId?.mp hv
  exact ⟨v, hsame.eq ▸ hq⟩

theorem quarter_within_ne_nil {p : Vec3 ℝ} (hp : p = ⟨1, 0, 0⟩ ∨ p = ⟨0, 1, 0⟩) :
    quarter.within p 0 ≠ [] := by
  obtain ⟨v, hv⟩ := quarter_exists_vertex hp
  have hagree := reachable_quarter.wellFormed.agree
  apply List.ne_nil_of_mem (a := ⟨p.distance p, v⟩)
  refine hagree.mem_within_iff.mpr ⟨le_of_eq Exact.zero_eq, p, hv, rfl, ?_, ?_⟩
  · exact le_of_eq ((LawfulExact.distance_self p).trans Exact.zero_eq)
  · have hself : p - p = ⟨0, 0, 0⟩ := Vec3.ext (sub_self _) (sub_self _) (sub_self _)
    have hzero : p.squaredDistance p = 0 := by
      unfold Vec3.squaredDistance Vec3.dot
      rw [hself]
      norm_num
    rw [hzero]
    unfold squaredReach
    exact add_nonneg (mul_self_nonneg _) (by norm_num)

theorem quarter_chain {a b : Nat} (ha : quarter.vertex? a = some ⟨1, 0, 0⟩)
    (hb : quarter.vertex? b = some ⟨0, 1, 0⟩) : quarter.Chain a [⟨0, quarterLine⟩] b := by
  have hagree := reachable_quarter.wellFormed.agree
  have hstart : quarter.Chain a [] a := .nil
  exact hstart.snoc ⟨⟨quarterLine, quarter_get?_eq_some_iff.mpr ⟨rfl, rfl⟩, Or.inl rfl⟩, _, _, rfl,
    hagree.vertexId?.mpr ⟨_, ha, .refl _⟩, hagree.vertexId?.mpr ⟨_, hb, .refl _⟩⟩

theorem quarter_snaps_ends {vertices : List Nat}
    (h : List.Forall₂ (quarter.Snaps 0) [⟨1, 0, 0⟩, ⟨0, 1, 0⟩] vertices) :
    ∃ a b, vertices = [a, b] ∧ quarter.vertex? a = some ⟨1, 0, 0⟩ ∧
      quarter.vertex? b = some ⟨0, 1, 0⟩ := by
  cases h with
  | @cons _ a _ _ ha h =>
    cases h with
    | @cons _ b _ _ hb h =>
      cases h
      exact ⟨a, b, rfl, quarter_snaps (Or.inl rfl) ha, quarter_snaps (Or.inr rfl) hb⟩

theorem quarter_not_hindered : ¬ quarter.Hindered [⟨1, 0, 0⟩, ⟨0, 1, 0⟩] 0 := by
  rintro (⟨p, hp, hnil⟩ | ⟨vertices, hsnaps, hhinder⟩)
  · exact quarter_within_ne_nil (by simpa using hp) hnil
  · obtain ⟨a, b, rfl, ha, hb⟩ := quarter_snaps_ends hsnaps
    rcases hhinder with ⟨step, hstep, hno⟩ | ⟨v, hall⟩
    · cases List.mem_singleton.mp hstep
      exact hno ⟨_, quarter_chain ha hb⟩
    · have hsame : a = b := (hall a (by simp)).trans (hall b (by simp)).symm
      rw [hsame, hb] at ha
      simp at ha

theorem quarter_routeThrough_cheapest : quarter.Reachable ∧
    ∃ path a b cost, (quarter.routeThrough [⟨1, 0, 0⟩, ⟨0, 1, 0⟩] 0).value = .ok (some path) ∧
      quarter.vertex? a = some ⟨1, 0, 0⟩ ∧ quarter.vertex? b = some ⟨0, 1, 0⟩ ∧
      quarter.IsLeastCost a b cost ∧ path.length = .ok cost := by
  have hlength : 2 ≤ ([⟨1, 0, 0⟩, ⟨0, 1, 0⟩] : List (Vec3 ℝ)).length := le_refl 2
  obtain ⟨answer, hvalue, hhindered, hpath⟩ :=
    reachable_quarter.routeThrough_cheapest hlength 0
  obtain ⟨path, rfl⟩ := Option.ne_none_iff_exists'.mp (hhindered.not.mpr quarter_not_hindered)
  obtain ⟨-, vertices, positions, hsnaps, -, -, -, hlength⟩ := hpath path rfl
  obtain ⟨a, b, rfl, ha, hb⟩ := quarter_snaps_ends hsnaps
  obtain ⟨costs, hcosts, hlength, -⟩ := hlength inferInstance
  obtain ⟨cost, others, hcost, hothers, rfl⟩ := List.forall₂_cons_left_iff.mp hcosts
  cases hothers
  exact ⟨reachable_quarter, path, a, b, cost, hvalue, ha, hb, hcost,
    hlength.trans (congrArg _ (LawfulExact.zero_add cost))⟩

end TransitShapes.Network
