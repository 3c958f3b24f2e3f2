import TransitShapes.Proofs.Network.Waypoints

/-! # What a search through waypoints tells

A search tells each waypoint, then each segment, and a failure where it gives up. There are five
courses that it can take, and what it tells shows which one it was. Whoever watches gets the steps
as they are taken, and cannot change the answer.
-/

namespace TransitShapes

open Scalar

variable {R : Type}

/-- The length that a step tells. -/
def Progress.length? : Progress R → Option R
  | .segment _ _ _ length => some length
  | _ => none

/-! ## The steps in a log -/

namespace Logged

variable {α β : Type}

/-- The steps that a search has told, in order. -/
def steps (x : Logged (Notice R) α) : List (Progress R) := x.log.filterMap Notice.progress?

@[simp] theorem steps_pure (a : α) : (pure a : Logged (Notice R) α).steps = [] := rfl

@[simp] theorem steps_bind (x : Logged (Notice R) α) (f : α → Logged (Notice R) β) :
    (x >>= f).steps = x.steps ++ (f x.value).steps :=
  List.filterMap_append

@[simp] theorem steps_report (p : Progress R) : (report (.progress p)).steps = [p] := rfl

@[simp] theorem steps_events (x : Logged (Event R) α) :
    (x.mapLog fun e => [Notice.event e]).steps = [] := by
  unfold steps
  rw [log_mapLog, List.filterMap_flatMap]
  exact List.flatMap_eq_nil_iff.mpr fun _ _ => rfl

/-- Whoever watches is told all the steps before the value comes out. -/
def replay {m : Type → Type} [Monad m] (observe : Progress R → m Unit) (x : Logged (Notice R) α) :
    m α := do
  x.steps.forM observe
  return x.value

section
variable {m : Type → Type} [Monad m] [LawfulMonad m] (observe : Progress R → m Unit)

@[simp] theorem replay_pure (a : α) : (pure a : Logged (Notice R) α).replay observe = pure a := by
  simp [replay]

@[simp] theorem replay_report (p : Progress R) :
    (report (.progress p)).replay observe = observe p := by
  simp [replay]

@[simp] theorem replay_events (x : Logged (Event R) α) :
    (x.mapLog fun e => [Notice.event e]).replay observe = pure x.value := by
  simp [replay]

@[simp] theorem replay_bind (x : Logged (Notice R) α) (f : α → Logged (Notice R) β) :
    (x >>= f).replay observe = x.replay observe >>= fun a => (f a).replay observe := by
  simp [replay]

end

end Logged

variable [Scalar R]

namespace Network

/-! ## Searches that are watched -/

section
variable {m : Type → Type} [Monad m] (observe : Progress R → m Unit)

/-- The search for the nearest vertices, which calls the observer at every waypoint. -/
def snapObserved (net : Network R) (maxDistance : R) :
    Nat → List (Vec3 R) → m (Option (List Nat))
  | _, [] => return some []
  | index, p :: rest =>
    match net.within p maxDistance with
    | [] => do
      observe (.waypoint index p 0 none)
      observe (.failure (.noVertexInRange index maxDistance))
      return none
    | nearest :: others => do
      observe
        (.waypoint index p (others.length + 1) (some (net.vertices.getD nearest.vertex default)))
      let vertices ← net.snapObserved maxDistance (index + 1) rest
      return vertices.map (nearest.vertex :: ·)

/-- The search for the segments, which calls the observer at every one. -/
def segmentsObserved (net : Network R) : Nat → List Nat → m (Option (List (Polyline R)))
  | index, start :: finish :: rest => do
    match (net.route start finish).value with
    | none =>
      observe (.failure (.noRoute index))
      return none
    | some segment =>
      observe (.segment index (net.vertices.getD start default)
        (net.vertices.getD finish default) (routeLength segment))
      let segments ← net.segmentsObserved (index + 1) (finish :: rest)
      return segments.map (segment :: ·)
  | _, _ => return some []

/-- The search through waypoints as it runs with an observer, which may have a state of its own and
may even stop the search. -/
def routeThroughObserved (net : Network R) (points : List (Vec3 R)) (maxDistance : R) :
    m (Except ShapeError (Option (Polyline R))) := do
  if points.length < 2 then return .error (.tooFewPoints 2 points.length)
  match ← net.snapObserved observe maxDistance 0 points with
  | none => return .ok none
  | some vertices =>
    match ← net.segmentsObserved observe 0 vertices with
    | none => return .ok none
    | some segments =>
      match joinSegments segments with
      | none =>
        observe (.failure .oneVertex)
        return .ok none
      | some path => return .ok (some path)

variable [LawfulMonad m]

theorem replay_snap (net : Network R) (maxDistance : R) (index : Nat) (points : List (Vec3 R)) :
    (net.snap maxDistance index points).replay observe =
      net.snapObserved observe maxDistance index points := by
  induction points generalizing index with
  | nil => exact Logged.replay_pure observe _
  | cons p rest ih =>
    unfold snap snapObserved
    cases net.within p maxDistance <;>
      simp only [Logged.replay_bind, Logged.replay_report, Logged.replay_pure, ih]

theorem replay_segmentsThrough (net : Network R) (index : Nat) (vertices : List Nat) :
    (net.segmentsThrough index vertices).replay observe =
      net.segmentsObserved observe index vertices := by
  induction vertices generalizing index with
  | nil => exact Logged.replay_pure observe _
  | cons a rest ih =>
    cases rest with
    | nil => exact Logged.replay_pure observe _
    | cons b rest =>
      unfold segmentsThrough segmentsObserved
      simp only [Logged.replay_bind, Logged.replay_events, pure_bind]
      cases (net.route a b).value <;>
        simp only [Logged.replay_bind, Logged.replay_report, Logged.replay_pure, ih]

theorem replay_routeThrough (net : Network R) (points : List (Vec3 R)) (maxDistance : R) :
    (net.routeThrough points maxDistance).replay observe =
      net.routeThroughObserved observe points maxDistance := by
  unfold routeThrough routeThroughObserved
  split
  case isTrue => exact Logged.replay_pure observe _
  case isFalse =>
    rw [Logged.replay_bind, replay_snap]
    refine bind_congr fun found => ?_
    cases found with
    | none => exact Logged.replay_pure observe _
    | some vertices =>
      simp only
      rw [Logged.replay_bind, replay_segmentsThrough]
      refine bind_congr fun found => ?_
      cases found with
      | none => exact Logged.replay_pure observe _
      | some segments =>
        simp only
        cases joinSegments segments <;>
          simp only [Logged.replay_bind, Logged.replay_report, Logged.replay_pure]

end

/-! ## The steps of a search -/

variable {net : Network R} {maxDistance : R}

/-- The place of a vertex. -/
def place (net : Network R) (v : Nat) : Vec3 R := net.vertices.getD v default

/-- The steps of waypoints that are moved to vertices, counted from `index`. -/
def waypointSteps (net : Network R) (maxDistance : R) (index : Nat) (points : List (Vec3 R))
    (vertices : List Nat) : List (Progress R) :=
  ((points.zip vertices).zipIdx index).map fun ((p, v), i) =>
    .waypoint i p (net.within p maxDistance).length (some (net.place v))

/-- The steps of segments from each vertex to the next, counted from `index`. -/
def segmentSteps (net : Network R) (index : Nat) (vertices : List Nat)
    (segments : List (Polyline R)) : List (Progress R) :=
  (((vertices.zip vertices.tail).zip segments).zipIdx index).map fun (((a, b), segment), i) =>
    .segment i (net.place a) (net.place b) (routeLength segment)

theorem snap_append {early : List (Vec3 R)} {vertices : List Nat}
    (h : List.Forall₂ (net.Snaps maxDistance) early vertices) (index : Nat)
    (late : List (Vec3 R)) :
    (net.snap maxDistance index (early ++ late)).value =
        ((net.snap maxDistance (index + early.length) late).value.map (vertices ++ ·)) ∧
      (net.snap maxDistance index (early ++ late)).steps =
        net.waypointSteps maxDistance index early vertices ++
          (net.snap maxDistance (index + early.length) late).steps := by
  induction h generalizing index with
  | nil => simp [waypointSteps]
  | @cons p v early vertices hp _ ih =>
    obtain ⟨ihValue, ihSteps⟩ := ih (index + 1)
    rw [List.length_cons, Nat.add_comm early.length 1, ← Nat.add_assoc]
    obtain ⟨nearest, hnearest, rfl⟩ := Option.map_eq_some_iff.mp hp.nearest
    obtain ⟨others, hwithin⟩ := List.head?_eq_some_iff.mp hnearest
    constructor
    · simp only [List.cons_append, snap, hwithin, Logged.value_bind, Logged.value_pure, ihValue,
        Option.map_map]
      rfl
    · simp only [List.cons_append, snap, hwithin, Logged.steps_bind, Logged.steps_report,
        Logged.steps_pure, ihSteps, List.append_nil]
      simp [waypointSteps, place, hwithin]

theorem RoutesAlong.cons {a b : Nat} {rest : List Nat} {segment : Polyline R}
    {segments : List (Polyline R)} (hroute : (net.route a b).value = some segment)
    (h : net.RoutesAlong (b :: rest) segments) :
    net.RoutesAlong (a :: b :: rest) (segment :: segments) :=
  List.Forall₂.cons hroute h

theorem exists_cons_append_singleton {α : Type} (early : List α) (a : α) :
    ∃ b front, early ++ [a] = b :: front :=
  List.exists_cons_of_ne_nil (by simp)

theorem segmentsThrough_append {early : List Nat} {a : Nat} {segments : List (Polyline R)}
    (h : net.RoutesAlong (early ++ [a]) segments) (index : Nat) (late : List Nat) :
    (net.segmentsThrough index (early ++ a :: late)).value =
        (net.segmentsThrough (index + early.length) (a :: late)).value.map (segments ++ ·) ∧
      (net.segmentsThrough index (early ++ a :: late)).steps =
        net.segmentSteps index (early ++ [a]) segments ++
          (net.segmentsThrough (index + early.length) (a :: late)).steps := by
  induction early generalizing index segments with
  | nil =>
    cases h
    simp [segmentSteps]
  | cons e early ih =>
    obtain ⟨b, front, hfront⟩ := exists_cons_append_singleton early a
    have hlate : early ++ a :: late = b :: (front ++ late) := by
      rw [← List.cons_append, ← hfront]
      simp
    rw [List.cons_append, hfront] at h
    obtain ⟨segment, others, hroute, hothers, rfl⟩ := List.forall₂_cons_left_iff.mp h
    have hrest : net.RoutesAlong (early ++ [a]) others := by
      rw [hfront]
      exact hothers
    obtain ⟨ihValue, ihSteps⟩ := ih hrest (index + 1)
    rw [List.length_cons, Nat.add_comm early.length 1, ← Nat.add_assoc, List.cons_append,
      List.cons_append, hfront, hlate]
    rw [hlate] at ihValue ihSteps
    rw [hfront] at ihSteps
    constructor
    · rw [segmentsThrough_value, hroute, Option.bind_some, ihValue, Option.map_map]
      rfl
    · simp only [segmentsThrough, Logged.steps_bind, Logged.steps_events, Logged.value_mapLog,
        hroute, Logged.steps_report, Logged.steps_pure, ihSteps, List.append_nil, List.nil_append]
      simp [segmentSteps, place]

theorem routeThrough_steps {points : List (Vec3 R)} (h : 2 ≤ points.length) (maxDistance : R) :
    (net.routeThrough points maxDistance).steps = (net.snap maxDistance 0 points).steps ++
      (net.snap maxDistance 0 points).value.elim [] fun vertices =>
        (net.segmentsThrough 0 vertices).steps ++
          (net.segmentsThrough 0 vertices).value.elim [] fun segments =>
            (joinSegments segments).elim [.failure .oneVertex] fun _ => [] := by
  unfold routeThrough
  rw [if_neg (by omega), Logged.steps_bind]
  congr 1
  cases (net.snap maxDistance 0 points).value with
  | none => rfl
  | some vertices =>
    simp only [Option.elim_some]
    rw [Logged.steps_bind]
    congr 1
    cases (net.segmentsThrough 0 vertices).value with
    | none => rfl
    | some segments =>
      simp only [Option.elim_some]
      cases joinSegments segments <;> rfl

/-! ## The courses of a search -/

/-- The courses that a search through waypoints can take: what comes out, and the steps that are
told on the way. -/
inductive Course (net : Network R) (points : List (Vec3 R)) (maxDistance : R) :
    Except ShapeError (Option (Polyline R)) → List (Progress R) → Prop where
  | tooFew : points.length < 2 →
      Course net points maxDistance (.error (.tooFewPoints 2 points.length)) []
  | outOfRange {early : List (Vec3 R)} {p : Vec3 R} {late : List (Vec3 R)} {vertices : List Nat} :
      2 ≤ points.length → points = early ++ p :: late →
      List.Forall₂ (net.Snaps maxDistance) early vertices → net.within p maxDistance = [] →
      Course net points maxDistance (.ok none) (net.waypointSteps maxDistance 0 early vertices ++
        [.waypoint early.length p 0 none, .failure (.noVertexInRange early.length maxDistance)])
  | unreached {early : List Nat} {a b : Nat} {late : List Nat} {segments : List (Polyline R)} :
      2 ≤ points.length → List.Forall₂ (net.Snaps maxDistance) points (early ++ a :: b :: late) →
      net.RoutesAlong (early ++ [a]) segments → (¬ ∃ rides, net.Chain a rides b) →
      Course net points maxDistance (.ok none)
        (net.waypointSteps maxDistance 0 points (early ++ a :: b :: late) ++
          net.segmentSteps 0 (early ++ [a]) segments ++ [.failure (.noRoute early.length)])
  | oneVertex {vertices : List Nat} {segments : List (Polyline R)} :
      2 ≤ points.length → List.Forall₂ (net.Snaps maxDistance) points vertices →
      net.RoutesAlong vertices segments → (∃ v, ∀ u ∈ vertices, u = v) →
      Course net points maxDistance (.ok none) (net.waypointSteps maxDistance 0 points vertices ++
        net.segmentSteps 0 vertices segments ++ [.failure .oneVertex])
  | found {vertices : List Nat} {segments : List (Polyline R)} :
      2 ≤ points.length → List.Forall₂ (net.Snaps maxDistance) points vertices →
      net.RoutesAlong vertices segments → (¬ ∃ v, ∀ u ∈ vertices, u = v) →
      Course net points maxDistance (.ok (some (Polyline.join segments (some 0.0))))
        (net.waypointSteps maxDistance 0 points vertices ++ net.segmentSteps 0 vertices segments)

theorem snap_of_snaps {points : List (Vec3 R)} {vertices : List Nat}
    (h : List.Forall₂ (net.Snaps maxDistance) points vertices) :
    (net.snap maxDistance 0 points).value = some vertices ∧
      (net.snap maxDistance 0 points).steps = net.waypointSteps maxDistance 0 points vertices := by
  have happend := snap_append h 0 []
  simpa [snap] using happend

theorem segmentsThrough_of_routesAlong {vertices : List Nat} {segments : List (Polyline R)}
    (h : net.RoutesAlong vertices segments) :
    (net.segmentsThrough 0 vertices).value = some segments ∧
      (net.segmentsThrough 0 vertices).steps = net.segmentSteps 0 vertices segments := by
  refine ⟨(segmentsThrough_eq_some_iff 0).mpr h, ?_⟩
  rcases List.eq_nil_or_concat vertices with rfl | ⟨front, a, rfl⟩
  · rfl
  · rw [List.concat_eq_append] at h ⊢
    rw [(segmentsThrough_append h 0 []).2]
    simp [segmentsThrough]

theorem snap_of_outOfRange {p : Vec3 R} (h : net.within p maxDistance = []) (index : Nat)
    (late : List (Vec3 R)) : (net.snap maxDistance index (p :: late)).value = none ∧
      (net.snap maxDistance index (p :: late)).steps =
        [.waypoint index p 0 none, .failure (.noVertexInRange index maxDistance)] := by
  unfold snap
  rw [h]
  exact ⟨rfl, rfl⟩

theorem segmentsThrough_of_unreached {a b : Nat} (h : (net.route a b).value = none) (index : Nat)
    (late : List Nat) : (net.segmentsThrough index (a :: b :: late)).value = none ∧
      (net.segmentsThrough index (a :: b :: late)).steps = [.failure (.noRoute index)] := by
  refine ⟨by rw [segmentsThrough_value, h, Option.bind_none], ?_⟩
  simp only [segmentsThrough, Logged.steps_bind, Logged.steps_events, Logged.value_mapLog, h,
    Logged.steps_report, Logged.steps_pure, List.append_nil, List.nil_append]

/-- A search takes each of its courses where the course says. -/
theorem Course.value_steps [LawfulSum R] (hnet : WellFormed net) {points : List (Vec3 R)}
    {outcome : Except ShapeError (Option (Polyline R))} {steps : List (Progress R)}
    (h : net.Course points maxDistance outcome steps) :
    (net.routeThrough points maxDistance).value = outcome ∧
      (net.routeThrough points maxDistance).steps = steps := by
  cases h with
  | tooFew hfew =>
    unfold routeThrough
    rw [if_pos hfew]
    exact ⟨rfl, rfl⟩
  | @outOfRange early p late vertices hlength hpoints hsnaps hwithin =>
    obtain ⟨hvalue, hsteps⟩ := snap_append hsnaps 0 (p :: late)
    obtain ⟨hnone, hfailure⟩ := snap_of_outOfRange hwithin (0 + early.length) late
    rw [hnone, Option.map_none, ← hpoints] at hvalue
    rw [hfailure, Nat.zero_add, ← hpoints] at hsteps
    rw [routeThrough_value hlength, routeThrough_steps hlength, hvalue, hsteps]
    simp
  | @unreached early a b late segments hlength hsnaps hroutes hchain =>
    obtain ⟨hvalue, hsteps⟩ := snap_of_snaps hsnaps
    obtain ⟨hsegments, hsegmentSteps⟩ := segmentsThrough_append hroutes 0 (b :: late)
    obtain ⟨hnone, hfailure⟩ := segmentsThrough_of_unreached
      (hnet.route_eq_none_iff.mpr hchain) (0 + early.length) late
    rw [hnone, Option.map_none] at hsegments
    rw [hfailure, Nat.zero_add] at hsegmentSteps
    rw [routeThrough_value hlength, routeThrough_steps hlength, hvalue, hsteps]
    simp [hsegments, hsegmentSteps]
  | @oneVertex vertices segments hlength hsnaps hroutes hsame =>
    obtain ⟨hvalue, hsteps⟩ := snap_of_snaps hsnaps
    obtain ⟨hsegments, hsegmentSteps⟩ := segmentsThrough_of_routesAlong hroutes
    have hjoin := (hnet.joinSegments_eq_none_iff (ne_nil_of_snaps hlength hsnaps) hroutes).mpr hsame
    rw [routeThrough_value hlength, routeThrough_steps hlength, hvalue, hsteps]
    simp [hsegments, hsegmentSteps, hjoin]
  | @found vertices segments hlength hsnaps hroutes hdiffer =>
    obtain ⟨hvalue, hsteps⟩ := snap_of_snaps hsnaps
    obtain ⟨hsegments, hsegmentSteps⟩ := segmentsThrough_of_routesAlong hroutes
    have hjoin := (hnet.joinSegments_eq_none_iff (ne_nil_of_snaps hlength hsnaps) hroutes).not.mpr
      hdiffer
    obtain ⟨path, hpath⟩ := Option.ne_none_iff_exists'.mp hjoin
    obtain ⟨-, rfl⟩ := joinSegments_eq_some_iff.mp hpath
    rw [routeThrough_value hlength, routeThrough_steps hlength, hvalue, hsteps]
    simp [hsegments, hsegmentSteps, hpath]

theorem snaps_or_outOfRange (net : Network R) (maxDistance : R) (points : List (Vec3 R)) :
    (∃ vertices, List.Forall₂ (net.Snaps maxDistance) points vertices) ∨
      ∃ early p late vertices, points = early ++ p :: late ∧
        List.Forall₂ (net.Snaps maxDistance) early vertices ∧ net.within p maxDistance = [] := by
  induction points with
  | nil => exact Or.inl ⟨[], .nil⟩
  | cons p rest ih =>
    cases hwithin : net.within p maxDistance with
    | nil => exact Or.inr ⟨[], p, rest, [], rfl, .nil, hwithin⟩
    | cons found others =>
      have hp := snaps_of_within hwithin
      rcases ih with ⟨vertices, hsnaps⟩ | ⟨early, q, late, vertices, rfl, hsnaps, hnone⟩
      · exact Or.inl ⟨_, .cons hp hsnaps⟩
      · exact Or.inr ⟨p :: early, q, late, _, rfl, .cons hp hsnaps, hnone⟩

theorem routesAlong_or_unreached (net : Network R) (vertices : List Nat) :
    (∃ segments, net.RoutesAlong vertices segments) ∨
      ∃ early a b late segments, vertices = early ++ a :: b :: late ∧
        net.RoutesAlong (early ++ [a]) segments ∧ (net.route a b).value = none := by
  induction vertices with
  | nil => exact Or.inl ⟨[], .nil⟩
  | cons a rest ih =>
    cases rest with
    | nil => exact Or.inl ⟨[], .nil⟩
    | cons b rest =>
      cases hroute : (net.route a b).value with
      | none => exact Or.inr ⟨[], a, b, rest, [], rfl, .nil, hroute⟩
      | some segment =>
        rcases ih with ⟨segments, hroutes⟩ | ⟨early, c, d, late, segments, heq, hroutes, hnone⟩
        · exact Or.inl ⟨_, hroutes.cons hroute⟩
        · refine Or.inr ⟨a :: early, c, d, late, segment :: segments, by rw [heq]; rfl, ?_, hnone⟩
          obtain ⟨b', front, hfront⟩ := exists_cons_append_singleton early c
          have hb : b = b' := by
            have hhead := congrArg List.head? heq
            have hsame : (early ++ c :: d :: late).head? = (early ++ [c]).head? := by
              cases early <;> rfl
            rw [hsame, hfront] at hhead
            exact Option.some.inj hhead
          subst hb
          rw [hfront] at hroutes
          rw [List.cons_append, hfront]
          exact hroutes.cons hroute

theorem exists_course [LawfulSum R] (hnet : WellFormed net) (points : List (Vec3 R))
    (maxDistance : R) : ∃ outcome steps, net.Course points maxDistance outcome steps := by
  by_cases hlength : 2 ≤ points.length
  · rcases net.snaps_or_outOfRange maxDistance points with
      ⟨vertices, hsnaps⟩ | ⟨early, p, late, vertices, hpoints, hsnaps, hwithin⟩
    · rcases net.routesAlong_or_unreached vertices with
        ⟨segments, hroutes⟩ | ⟨early, a, b, late, segments, rfl, hroutes, hnone⟩
      · by_cases hsame : ∃ v, ∀ u ∈ vertices, u = v
        · exact ⟨_, _, .oneVertex hlength hsnaps hroutes hsame⟩
        · exact ⟨_, _, .found hlength hsnaps hroutes hsame⟩
      · exact ⟨_, _, .unreached hlength hsnaps hroutes (hnet.route_eq_none_iff.mp hnone)⟩
    · exact ⟨_, _, .outOfRange hlength hpoints hsnaps hwithin⟩
  · exact ⟨_, _, .tooFew (Nat.lt_of_not_le hlength)⟩

/-! ## What the steps say -/

section
variable {points : List (Vec3 R)} {vertices : List Nat} {segments : List (Polyline R)}
  {index : Nat}

theorem failure_not_mem_waypointSteps (reason : RouteFailure R) :
    .failure reason ∉ net.waypointSteps maxDistance index points vertices := by
  simp [waypointSteps]

theorem failure_not_mem_segmentSteps (reason : RouteFailure R) :
    .failure reason ∉ net.segmentSteps index vertices segments := by
  simp [segmentSteps]

theorem mem_waypointSteps {i v : Nat} {p : Vec3 R} (hp : points[i]? = some p)
    (hv : vertices[i]? = some v) :
    .waypoint i p (net.within p maxDistance).length (some (net.place v)) ∈
      net.waypointSteps maxDistance 0 points vertices := by
  refine List.mem_map.mpr ⟨((p, v), i), ?_, rfl⟩
  rw [List.mem_zipIdx_iff_getElem?, List.getElem?_zip_eq_some]
  exact ⟨hp, hv⟩

theorem ends_of_mem_segmentSteps {i : Nat} {start finish : Vec3 R} {length : R}
    (h : .segment i start finish length ∈ net.segmentSteps 0 vertices segments) :
    ∃ a b, vertices[i]? = some a ∧ vertices[i + 1]? = some b ∧ start = net.place a ∧
      finish = net.place b := by
  obtain ⟨⟨⟨⟨a, b⟩, segment⟩, j⟩, hmem, heq⟩ := List.mem_map.mp h
  cases heq
  rw [List.mem_zipIdx_iff_getElem?, List.getElem?_zip_eq_some, List.getElem?_zip_eq_some,
    List.getElem?_tail] at hmem
  exact ⟨a, b, hmem.1.1, hmem.1.2, rfl, rfl⟩

end

theorem Course.failure {points : List (Vec3 R)} {outcome : Except ShapeError (Option (Polyline R))}
    {steps : List (Progress R)} (h : net.Course points maxDistance outcome steps) :
    ∃ before, (∀ reason, .failure reason ∉ before) ∧
      (outcome = .ok none ∧ (∃ reason, steps = before ++ [.failure reason]) ∨
        outcome ≠ .ok none ∧ steps = before) := by
  cases h with
  | tooFew => exact ⟨[], nofun, Or.inr ⟨nofun, rfl⟩⟩
  | @outOfRange early p late vertices =>
    refine ⟨net.waypointSteps maxDistance 0 early vertices ++ [.waypoint early.length p 0 none],
      fun reason => ?_, Or.inl ⟨rfl, _, (List.append_assoc _ [_] [_]).symm⟩⟩
    simp [failure_not_mem_waypointSteps]
  | unreached =>
    refine ⟨_, fun reason => ?_, Or.inl ⟨rfl, _, rfl⟩⟩
    simp [failure_not_mem_waypointSteps, failure_not_mem_segmentSteps]
  | oneVertex =>
    refine ⟨_, fun reason => ?_, Or.inl ⟨rfl, _, rfl⟩⟩
    simp [failure_not_mem_waypointSteps, failure_not_mem_segmentSteps]
  | found =>
    refine ⟨_, fun reason => ?_, Or.inr ⟨nofun, rfl⟩⟩
    simp [failure_not_mem_waypointSteps, failure_not_mem_segmentSteps]

/-- A segment has the two vertices that its waypoints were moved to, as they were told. -/
structure Spans (net : Network R) (points : List (Vec3 R)) (maxDistance : R)
    (steps : List (Progress R)) (i : Nat) (start finish : Vec3 R) : Prop where
  start : ∃ p v, points[i]? = some p ∧ net.Snaps maxDistance p v ∧ net.vertex? v = some start ∧
    .waypoint i p (net.within p maxDistance).length (some start) ∈ steps
  finish : ∃ p v, points[i + 1]? = some p ∧ net.Snaps maxDistance p v ∧
    net.vertex? v = some finish ∧
    .waypoint (i + 1) p (net.within p maxDistance).length (some finish) ∈ steps

theorem Snaps.vertex?_eq {p : Vec3 R} {v : Nat} (h : net.Snaps maxDistance p v) :
    net.vertex? v = some (net.place v) := by
  obtain ⟨q, hq, -⟩ := h.inRange
  rw [hq]
  unfold vertex? at hq
  simp [place, hq]

theorem exists_waypointStep {points : List (Vec3 R)} {vertices : List Nat}
    (h : List.Forall₂ (net.Snaps maxDistance) points vertices) {i v : Nat}
    (hv : vertices[i]? = some v) : ∃ p u, points[i]? = some p ∧ net.Snaps maxDistance p u ∧
      net.vertex? u = some (net.place v) ∧
      .waypoint i p (net.within p maxDistance).length (some (net.place v)) ∈
        net.waypointSteps maxDistance 0 points vertices := by
  have hlt : i < points.length := by
    rw [h.length_eq]
    exact (List.getElem?_eq_some_iff.mp hv).1
  have hp : points[i]? = some points[i] := List.getElem?_eq_getElem hlt
  have hsnaps : net.Snaps maxDistance points[i] v := by
    obtain ⟨hi, rfl⟩ := List.getElem?_eq_some_iff.mp hv
    exact h.get hlt hi
  exact ⟨_, v, hp, hsnaps, hsnaps.vertex?_eq, mem_waypointSteps hp hv⟩

theorem spans_of_mem_steps {points : List (Vec3 R)} {vertices visited : List Nat}
    {segments : List (Polyline R)} (h : List.Forall₂ (net.Snaps maxDistance) points vertices)
    (hvisited : visited <+: vertices) {i : Nat} {start finish : Vec3 R} {length : R}
    {rest : List (Progress R)} (hrest : .segment i start finish length ∉ rest)
    (hsegment : .segment i start finish length ∈ net.waypointSteps maxDistance 0 points vertices ++
      net.segmentSteps 0 visited segments ++ rest) :
    net.Spans points maxDistance (net.waypointSteps maxDistance 0 points vertices ++
      net.segmentSteps 0 visited segments ++ rest) i start finish := by
  have hmem : .segment i start finish length ∈ net.segmentSteps 0 visited segments := by
    simp only [List.mem_append, hrest, or_false] at hsegment
    refine hsegment.resolve_left ?_
    simp [waypointSteps]
  obtain ⟨a, b, ha, hb, rfl, rfl⟩ := ends_of_mem_segmentSteps hmem
  have hstart := getElem?_of_prefix hvisited ha
  have hfinish := getElem?_of_prefix hvisited hb
  obtain ⟨p, v, hp, hsnaps, hv, hfirst⟩ := exists_waypointStep h hstart
  obtain ⟨q, w, hq, hsnaps', hw, hlast⟩ := exists_waypointStep h hfinish
  rw [List.append_assoc]
  exact ⟨⟨p, v, hp, hsnaps, hv, List.mem_append_left _ hfirst⟩,
    ⟨q, w, hq, hsnaps', hw, List.mem_append_left _ hlast⟩⟩

theorem Course.spans {points : List (Vec3 R)} {outcome : Except ShapeError (Option (Polyline R))}
    {steps : List (Progress R)} (h : net.Course points maxDistance outcome steps) {i : Nat}
    {start finish : Vec3 R} {length : R} (hsegment : .segment i start finish length ∈ steps) :
    net.Spans points maxDistance steps i start finish := by
  cases h with
  | tooFew => cases hsegment
  | outOfRange => simp [waypointSteps] at hsegment
  | @unreached early a b late _ _ hsnaps =>
    have hvisited : early ++ [a] <+: early ++ a :: b :: late :=
      (List.prefix_append_right_inj early).mpr ⟨b :: late, rfl⟩
    exact spans_of_mem_steps hsnaps hvisited (by simp) hsegment
  | oneVertex _ hsnaps => exact spans_of_mem_steps hsnaps List.prefix_rfl (by simp) hsegment
  | found _ hsnaps =>
    rw [← List.append_nil (_ ++ _)] at hsegment ⊢
    exact spans_of_mem_steps hsnaps List.prefix_rfl (by simp) hsegment

theorem routeLength_eq (line : Polyline R) : routeLength line = line.pathLength := by
  unfold routeLength
  by_cases h : 2 ≤ line.size
  · rw [line.length_eq h]
    rfl
  · have hsegments : line.segments = [] := by
      apply List.eq_nil_of_length_eq_zero
      simp only [Polyline.segments, List.length_zip, List.length_tail]
      unfold Polyline.size at h
      omega
    unfold Polyline.length Polyline.pathLength
    rw [if_pos (Nat.lt_of_not_le h), hsegments]
    rfl

theorem lengths_waypointSteps (points : List (Vec3 R)) (vertices : List Nat) :
    (net.waypointSteps maxDistance 0 points vertices).filterMap Progress.length? = [] := by
  rw [List.filterMap_eq_nil_iff]
  intro step hstep
  obtain ⟨_, -, rfl⟩ := List.mem_map.mp hstep
  rfl

theorem RoutesAlong.lengths_segmentSteps {vertices : List Nat} {segments : List (Polyline R)}
    (h : net.RoutesAlong vertices segments) :
    (net.segmentSteps 0 vertices segments).filterMap Progress.length? =
      segments.map Polyline.pathLength := by
  have hlast : ((vertices.zip vertices.tail).zip segments).map Prod.snd = segments :=
    List.map_snd_zip h.length_eq.ge
  calc (net.segmentSteps 0 vertices segments).filterMap Progress.length?
      = (((vertices.zip vertices.tail).zip segments).zipIdx 0).map
          fun (step, _) => routeLength step.2 := by
        unfold segmentSteps
        rw [List.filterMap_map, ← List.filterMap_eq_map]
        rfl
    _ = ((((vertices.zip vertices.tail).zip segments).zipIdx 0).map Prod.fst).map
          fun step => routeLength step.2 := by
        rw [List.map_map]
        rfl
    _ = (((vertices.zip vertices.tail).zip segments).map Prod.snd).map Polyline.pathLength := by
        rw [List.zipIdx_map_fst, List.map_map]
        exact List.map_congr_left fun step _ => routeLength_eq step.2
    _ = segments.map Polyline.pathLength := by rw [hlast]

theorem Course.length_eq [LawfulExact R] (hnet : WellFormed net) {points : List (Vec3 R)}
    {path : Polyline R} {steps : List (Progress R)}
    (h : net.Course points maxDistance (.ok (some path)) steps) :
    path.length = .ok (totalCost (steps.filterMap Progress.length?)) := by
  cases h with
  | @found vertices segments hlength hsnaps hroutes hdiffer =>
    have hvertices := ne_nil_of_snaps hlength hsnaps
    have hstages := hnet.stages_of_segmentsThrough hvertices
      ((segmentsThrough_eq_some_iff 0).mpr hroutes)
    have hjoin := (hnet.joinSegments_eq_none_iff hvertices hroutes).not.mpr hdiffer
    obtain ⟨path, hpath⟩ := Option.ne_none_iff_exists'.mp hjoin
    obtain ⟨hsize, rfl⟩ := joinSegments_eq_some_iff.mp hpath
    rw [List.filterMap_append, lengths_waypointSteps, List.nil_append,
      hroutes.lengths_segmentSteps, ← hstages.pathLength_join hnet, Polyline.length_eq _ hsize]

/-! ## The theorem -/

/-- **What a search tells shows its course and cannot change it.** The steps and the answer are
those of one of the five courses. A failure is told last, exactly when no route is found, and each
segment has the vertices that its two waypoints were moved to. Where nothing is rounded the lengths
that are told add up to the length of the route. Any verbosity and any observer get the same answer;
the observer is called with these steps in their order. -/
theorem Reachable.routeThrough_course [LawfulSum R] (h : net.Reachable) (points : List (Vec3 R))
    (maxDistance : R) :
    (∀ outcome steps, net.Course points maxDistance outcome steps ↔
      (net.routeThrough points maxDistance).value = outcome ∧
        (net.routeThrough points maxDistance).steps = steps) ∧
    (∃ before, (∀ reason, .failure reason ∉ before) ∧
      ((net.routeThrough points maxDistance).value = .ok none ∧
          (∃ reason, (net.routeThrough points maxDistance).steps = before ++ [.failure reason]) ∨
        (net.routeThrough points maxDistance).value ≠ .ok none ∧
          (net.routeThrough points maxDistance).steps = before)) ∧
    (∀ i start finish length,
      .segment i start finish length ∈ (net.routeThrough points maxDistance).steps →
      net.Spans points maxDistance (net.routeThrough points maxDistance).steps i start finish) ∧
    (LawfulExact R → ∀ path, (net.routeThrough points maxDistance).value = .ok (some path) →
      path.length = .ok (totalCost
        ((net.routeThrough points maxDistance).steps.filterMap Progress.length?))) ∧
    (∀ verbosity, (net.routeThroughLogged points maxDistance verbosity).value =
      (net.routeThrough points maxDistance).value) ∧
    ∀ (m : Type → Type) [Monad m] [LawfulMonad m] (observe : Progress R → m Unit),
      net.routeThroughObserved observe points maxDistance = do
        (net.routeThrough points maxDistance).steps.forM observe
        return (net.routeThrough points maxDistance).value := by
  have hnet := h.wellFormed
  obtain ⟨outcome, steps, hcourse⟩ := exists_course hnet points maxDistance
  obtain ⟨rfl, rfl⟩ := hcourse.value_steps hnet
  refine ⟨fun outcome steps => ⟨fun hother => hother.value_steps hnet, ?_⟩, hcourse.failure,
    fun _ _ _ _ hsegment => hcourse.spans hsegment, ?_, fun _ => rfl,
    fun m _ _ observe => (replay_routeThrough observe net points maxDistance).symm⟩
  · rintro ⟨rfl, rfl⟩
    exact hcourse
  · intro hexact path hpath
    rw [hpath] at hcourse
    exact hcourse.length_eq hnet

theorem eq_ok_none_of_any {ε α : Type} {value : Except ε (Option α)}
    (h : value.toOption.any Option.isNone) : value = .ok none := by
  match value, h with
  | .ok none, _ => rfl

/-- A route along a quarter of the globe, and a search in a network of doubles whose second waypoint
is far from every vertex. -/
theorem quarter_and_detour_course :
    quarter.Reachable ∧ Reachable detour ∧
      (∃ path, (quarter.routeThrough [⟨1, 0, 0⟩, ⟨0, 1, 0⟩] 0).value = .ok (some path) ∧
        path.length = .ok (totalCost
          ((quarter.routeThrough [⟨1, 0, 0⟩, ⟨0, 1, 0⟩] 0).steps.filterMap Progress.length?))) ∧
      ∃ before reason, (detour.routeThrough [⟨1.0, 0.0, 0.0⟩, ⟨0.0, 0.0, -1.0⟩] 100.0).steps =
        before ++ [.failure reason] := by
  have hdetour : Reachable detour := .offer _ _ (.offer _ _ (.offer _ _ (.offer _ _ .empty)))
  have hnone : (detour.routeThrough [⟨1.0, 0.0, 0.0⟩, ⟨0.0, 0.0, -1.0⟩] 100.0).value.toOption.any
      Option.isNone := by decide +kernel
  have hanswer := eq_ok_none_of_any hnone
  have hlength : 2 ≤ ([⟨1, 0, 0⟩, ⟨0, 1, 0⟩] : List (Vec3 ℝ)).length := le_refl 2
  have hfound := (reachable_quarter.wellFormed.hindered_iff hlength 0).not.mpr quarter_not_hindered
  obtain ⟨path, hpath⟩ := Option.ne_none_iff_exists'.mp hfound
  have hvalue := (routeThrough_value hlength 0).trans (congrArg _ hpath)
  obtain ⟨-, -, -, hsum, -⟩ := reachable_quarter.routeThrough_course [⟨1, 0, 0⟩, ⟨0, 1, 0⟩] 0
  obtain ⟨-, ⟨before, -, hends⟩, -⟩ :=
    hdetour.routeThrough_course [⟨1.0, 0.0, 0.0⟩, ⟨0.0, 0.0, -1.0⟩] 100.0
  rcases hends with ⟨-, reason, hsteps⟩ | ⟨hne, -⟩
  · exact ⟨reachable_quarter, hdetour, ⟨path, hvalue, hsum inferInstance path hvalue⟩, before,
      reason, hsteps⟩
  · exact absurd hanswer hne

end Network

end TransitShapes
