import Mathlib.Data.Option.Basic
import TransitShapes.Network.Beam
import TransitShapes.Proofs.Ascending

/-! # The table of routes leaves no trace

The same search can do without a table. It looks for every route anew, and a partial route has the
routes themselves in place of their numbers. Whatever the table says, that search finds too, so the
two keep the same partial routes in the same order and give the same answer.
-/

namespace TransitShapes.Network

open Scalar

variable {R : Type}

/-! ## Routes at their numbers -/

/-- Every route is still at its number. -/
def Keeps (routes more : Array (Polyline R)) : Prop :=
  ∀ (n : Nat) (line : Polyline R), routes[n]? = some line → more[n]? = some line

theorem Keeps.refl (routes : Array (Polyline R)) : Keeps routes routes := fun _ _ h => h

theorem Keeps.trans {routes more most : Array (Polyline R)} (h : Keeps routes more)
    (hmore : Keeps more most) : Keeps routes most :=
  fun n line hline => hmore n line (h n line hline)

theorem keeps_push (routes : Array (Polyline R)) (line : Polyline R) :
    Keeps routes (routes.push line) := by
  intro n other hother
  obtain ⟨hn, rfl⟩ := Array.getElem?_eq_some_iff.mp hother
  exact Array.getElem?_push_lt hn

/-- A partial route with its segments in place of their numbers. -/
structure Partial (R : Type) where
  cost : R
  vertex : Nat
  segments : List (Polyline R)

def Partial.begin (stop : Nearby R) : Partial R := ⟨stop.distance, stop.vertex, []⟩

/-- A draft stands for a partial route: its numbers are those of the segments. -/
structure Draft.Reads (routes : Array (Polyline R)) (draft : Draft R) (part : Partial R) :
    Prop where
  cost : draft.cost = part.cost
  vertex : draft.vertex = part.vertex
  segments : List.Forall₂ (fun (n : Nat) line => routes[n]? = some line) draft.segments
    part.segments

theorem Draft.Reads.mono {routes more : Array (Polyline R)} {draft : Draft R} {part : Partial R}
    (h : draft.Reads routes part) (hmore : Keeps routes more) : draft.Reads more part :=
  ⟨h.cost, h.vertex, h.segments.imp hmore⟩

theorem Draft.reads_begin (routes : Array (Polyline R)) (stop : Nearby R) :
    (Draft.begin stop).Reads routes (.begin stop) := ⟨rfl, rfl, .nil⟩

theorem Draft.Reads.filterMap {routes : Array (Polyline R)} {draft : Draft R} {part : Partial R}
    (h : draft.Reads routes part) : draft.segments.filterMap (routes[·]?) = part.segments := by
  have hsegments := h.segments
  generalize draft.segments = numbers at hsegments
  generalize part.segments = segments at hsegments
  induction hsegments with
  | nil => rfl
  | cons hn _ ih => rw [List.filterMap_cons_some hn, ih]

/-- Drafts that stand for partial routes, one for one. -/
abbrev ReadAs (routes : Array (Polyline R)) (drafts : List (Draft R)) (parts : List (Partial R)) :
    Prop :=
  List.Forall₂ (Draft.Reads routes) drafts parts

theorem ReadAs.mono {routes more : Array (Polyline R)} {drafts : List (Draft R)}
    {parts : List (Partial R)} (h : ReadAs routes drafts parts) (hmore : Keeps routes more) :
    ReadAs more drafts parts :=
  List.Forall₂.imp (fun _ _ hread => hread.mono hmore) h

theorem readAs_begin (routes : Array (Polyline R)) (inRange : List (Nearby R)) :
    ReadAs routes (inRange.map Draft.begin) (inRange.map Partial.begin) := by
  rw [ReadAs, List.forall₂_map_left_iff, List.forall₂_map_right_iff, List.forall₂_same]
  exact fun stop _ => Draft.reads_begin routes stop

theorem ReadAs.exists_of_mem {routes : Array (Polyline R)} {drafts : List (Draft R)}
    {parts : List (Partial R)} (h : ReadAs routes drafts parts) {draft : Draft R}
    (hdraft : draft ∈ drafts) : ∃ part ∈ parts, draft.Reads routes part := by
  induction h with
  | nil => cases hdraft
  | cons hread _ ih =>
    rcases List.mem_cons.mp hdraft with rfl | hdraft
    · exact ⟨_, List.mem_cons_self, hread⟩
    · obtain ⟨part, hpart, hread⟩ := ih hdraft
      exact ⟨part, List.mem_cons_of_mem _ hpart, hread⟩

/-- Ways on from drafts that stand for ways on from partial routes. -/
abbrev WaysReadAs (routes : Array (Polyline R)) (tried : List (Draft R × Nearby R))
    (plain : List (Partial R × Nearby R)) : Prop :=
  List.Forall₂ (fun way other => way.1.Reads routes other.1 ∧ way.2 = other.2) tried plain

theorem ReadAs.ways {routes : Array (Polyline R)} {drafts : List (Draft R)}
    {parts : List (Partial R)} (h : ReadAs routes drafts parts) (inRange : List (Nearby R)) :
    WaysReadAs routes (ways drafts inRange) (Network.ways parts inRange) := by
  induction h with
  | nil => exact .nil
  | cons hread _ ih =>
    refine List.rel_append ?_ ih
    rw [List.forall₂_map_left_iff, List.forall₂_map_right_iff, List.forall₂_same]
    exact fun next _ => ⟨hread, rfl⟩

variable [Scalar R] {net : Network R}

/-! ## The search without a table -/

def Partial.extend (part : Partial R) (line : Polyline R) (next : Nearby R) : Partial R where
  cost := part.cost + routeLength line + next.distance
  vertex := next.vertex
  segments := part.segments ++ [line]

def Partial.onward? (net : Network R) (way : Partial R × Nearby R) : Option (Partial R) :=
  (net.route way.1.vertex way.2.vertex).value.map fun line => way.1.extend line way.2

def extensions (net : Network R) (beam : List (Partial R)) (inRange : List (Nearby R)) :
    List (Partial R) :=
  (ways beam inRange).filterMap (Partial.onward? net)

def advanceAnew (net : Network R) (width : Nat) :
    List (List (Nearby R)) → List (Partial R) → Option (List (Partial R))
  | [], beam => some beam
  | inRange :: rest, beam =>
    match cheapest Partial.cost width (net.extensions beam inRange) with
    | [] => none
    | kept => net.advanceAnew width rest kept

def bestThrough (net : Network R) (width : Nat) : List (List (Nearby R)) → Option (Polyline R)
  | [] => none
  | first :: others =>
    (net.advanceAnew width others (cheapest Partial.cost width (first.map Partial.begin))).bind
      fun beam => beam.head?.bind fun part => joinSegments part.segments

/-- `beamRoute` without a table of routes. -/
def beamRouteAnew (net : Network R) (points : List (Vec3 R)) (maxDistance : R) (keep : Nat) :
    Except ShapeError (Option (Polyline R)) :=
  if points.length < 2 then .error (.tooFewPoints 2 points.length)
  else .ok ((net.rangeOfEach maxDistance points).value.bind (net.bestThrough (keep.max 1)))

/-! ## What the table says -/

/-- An answer of the table: the number of the route between two vertices with its length, or that
there is none. -/
inductive Tells (net : Network R) (routes : Array (Polyline R)) (a b : Nat) :
    Option (Segment R) → Prop where
  | noRoute : (net.route a b).value = none → Tells net routes a b none
  | route {n : Nat} {line : Polyline R} : (net.route a b).value = some line →
      routes[n]? = some line → Tells net routes a b (some ⟨n, routeLength line⟩)

theorem Tells.mono {routes more : Array (Polyline R)} {a b : Nat} {found : Option (Segment R)}
    (h : net.Tells routes a b found) (hmore : Keeps routes more) : net.Tells more a b found := by
  cases h with
  | noRoute hnone => exact .noRoute hnone
  | route hline hn => exact .route hline (hmore _ _ hn)

/-- Everything that the table knows is what a search would find. -/
def RouteTable.Sound (net : Network R) (table : RouteTable R) : Prop :=
  ∀ a b found, table.known[(a, b)]? = some found → net.Tells table.routes a b found

theorem RouteTable.sound_of_routes (net : Network R) (routes : Array (Polyline R)) :
    RouteTable.Sound net { routes } := by
  intro a b found hfound
  simp at hfound

theorem RouteTable.Sound.insert {table : RouteTable R} (h : table.Sound net)
    {routes : Array (Polyline R)} (hroutes : Keeps table.routes routes) {a b : Nat}
    {found : Option (Segment R)} (hfound : net.Tells routes a b found) :
    RouteTable.Sound net ⟨routes, table.known.insert (a, b) found⟩ := by
  intro c d other hother
  rw [Std.TreeMap.getElem?_insert] at hother
  split at hother
  case isTrue heq =>
    cases Std.LawfulEqCmp.eq_of_compare heq
    cases hother
    exact hfound
  case isFalse => exact (h c d other hother).mono hroutes

/-- What a table gives when a pair is looked up, together with the table from then on. -/
structure RouteTable.Answers (net : Network R) (table : RouteTable R) (a b : Nat)
    (answer : RouteTable R × Option (Segment R)) : Prop where
  sound : answer.1.Sound net
  keeps : Keeps table.routes answer.1.routes
  tells : net.Tells answer.1.routes a b answer.2

theorem RouteTable.Sound.lookUp {table : RouteTable R} (h : table.Sound net) (a b : Nat) :
    table.Answers net a b (table.lookUp net a b).value := by
  unfold RouteTable.lookUp
  cases hknown : table.known[(a, b)]? with
  | some found => exact ⟨h, .refl _, h a b found hknown⟩
  | none =>
    simp only [Logged.value_bind]
    cases hroute : (net.route a b).value with
    | none =>
      have htells : net.Tells table.routes a b none := .noRoute hroute
      exact ⟨h.insert (.refl _) htells, .refl _, htells⟩
    | some line =>
      have hkeeps := keeps_push table.routes line
      have htells : net.Tells (table.routes.push line) a b
          (some ⟨table.routes.size, routeLength line⟩) :=
        .route hroute Array.getElem?_push_size
      exact ⟨h.insert hkeeps htells, hkeeps, htells⟩

/-! ## Drafts of partial routes -/

theorem Draft.Reads.extend {routes : Array (Polyline R)} {draft : Draft R} {part : Partial R}
    (h : draft.Reads routes part) {n : Nat} {line : Polyline R} (hn : routes[n]? = some line)
    (next : Nearby R) :
    (draft.extend next ⟨n, routeLength line⟩).Reads routes (part.extend line next) where
  cost := congrArg (· + routeLength line + next.distance) h.cost
  vertex := rfl
  segments := List.rel_append h.segments (.cons hn .nil)

theorem ReadAs.cheapest {routes : Array (Polyline R)} {drafts : List (Draft R)}
    {parts : List (Partial R)} (h : ReadAs routes drafts parts) (keep : Nat) :
    ReadAs routes (cheapest Draft.cost keep drafts) (cheapest Partial.cost keep parts) := by
  refine List.forall₂_take keep (Ascending.forall₂_sort (fun a b x y ha hb => ?_) h)
  rw [ha.cost, hb.cost]

/-! ## Sweeps -/

/-- A sweep has reached what some partial routes stand for. -/
structure Sweep.Reads (net : Network R) (sweep : Sweep R) (parts : List (Partial R)) : Prop where
  sound : sweep.table.Sound net
  reached : ReadAs sweep.table.routes sweep.reached.toList parts

theorem Sweep.Reads.follow {sweep : Sweep R} {parts : List (Partial R)} (h : sweep.Reads net parts)
    {draft : Draft R} {part : Partial R} (hread : draft.Reads sweep.table.routes part)
    (next : Nearby R) :
    (Sweep.follow net sweep (draft, next)).value.Reads net
        (parts ++ (Partial.onward? net (part, next)).toList) ∧
      Keeps sweep.table.routes (Sweep.follow net sweep (draft, next)).value.table.routes := by
  have hanswer := h.sound.lookUp draft.vertex next.vertex
  simp only [Sweep.follow, Logged.value_bind]
  generalize (sweep.table.lookUp net draft.vertex next.vertex).value = answer at hanswer
  obtain ⟨table, found⟩ := answer
  obtain ⟨hsound, hkeeps, htells⟩ := hanswer
  refine ⟨?_, ?_⟩
  · have hbefore := h.reached.mono hkeeps
    rw [hread.vertex] at htells
    cases htells with
    | noRoute hnone =>
      refine ⟨hsound, ?_⟩
      simpa [Partial.onward?, hnone] using hbefore
    | route hline hn =>
      refine ⟨hsound, ?_⟩
      have hlonger := (hread.mono hkeeps).extend hn next
      simpa [Partial.onward?, hline] using List.rel_append hbefore (.cons hlonger .nil)
  · cases found <;> exact hkeeps

theorem Sweep.Reads.followAll {sweep : Sweep R} {parts : List (Partial R)}
    (h : sweep.Reads net parts) {routes : Array (Polyline R)}
    (hroutes : Keeps routes sweep.table.routes) {tried : List (Draft R × Nearby R)}
    {plain : List (Partial R × Nearby R)} (htried : WaysReadAs routes tried plain) :
    (Sweep.followAll net sweep tried).value.Reads net
        (parts ++ plain.filterMap (Partial.onward? net)) ∧
      Keeps routes (Sweep.followAll net sweep tried).value.table.routes := by
  -- Along the ways. A route that is found is put behind the others, so what stands at the numbers
  -- of the drafts to come stays there: that is `hroutes`, carried along.
  induction htried generalizing sweep parts with
  | nil => exact ⟨by simpa [Sweep.followAll] using h, hroutes⟩
  | @cons way other rest others hway _ ih =>
    obtain ⟨draft, next⟩ := way
    obtain ⟨part, _⟩ := other
    obtain ⟨hread, rfl⟩ := hway
    obtain ⟨hnext, hkeeps⟩ := h.follow (hread.mono hroutes) next
    have hall := ih hnext (hroutes.trans hkeeps)
    have hparts : parts ++ List.filterMap (Partial.onward? net) ((part, next) :: others) =
        parts ++ (Partial.onward? net (part, next)).toList ++
          others.filterMap (Partial.onward? net) := by
      rw [List.append_assoc]
      cases honward : Partial.onward? net (part, next) <;> simp [honward]
    rw [hparts]
    exact hall

theorem WaysReadAs.sweep {routes : Array (Polyline R)} {tried : List (Draft R × Nearby R)}
    {plain : List (Partial R × Nearby R)} (h : WaysReadAs routes tried plain) (net : Network R) :
    (Sweep.followAll net { table := { routes } } tried).value.Reads net
        (plain.filterMap (Partial.onward? net)) ∧
      Keeps routes (Sweep.followAll net { table := { routes } } tried).value.table.routes := by
  have hstart : Sweep.Reads net { table := { routes } } [] :=
    ⟨RouteTable.sound_of_routes net routes, .nil⟩
  exact hstart.followAll (.refl routes) h

/-! ## Whole searches -/

/-- With the table or without it, the same partial routes are kept to the end. -/
theorem ReadAs.advance {routes : Array (Polyline R)} {beam : List (Draft R)}
    {parts : List (Partial R)} (h : ReadAs routes beam parts) (width : Nat)
    (rest : List (List (Nearby R))) :
    Option.Rel (fun found kept => ReadAs found.1 found.2 kept)
      (net.advance width rest routes beam).value (net.advanceAnew width rest parts) := by
  induction rest generalizing routes beam parts with
  | nil => exact .some h
  | cons inRange rest ih =>
    obtain ⟨hsweep, -⟩ := (h.ways inRange).sweep net
    have hkept := hsweep.reached.cheapest width
    rw [← extensions] at hkept
    simp only [Network.advance, advanceAnew, Logged.value_bind]
    generalize (Sweep.followAll net { table := { routes } }
      (Network.ways beam inRange)).value = sweep at hkept
    generalize Network.cheapest Draft.cost width sweep.reached.toList = kept at hkept
    generalize Network.cheapest Partial.cost width (net.extensions parts inRange) = plain at hkept
    -- The two beams have the same length, so they are empty at the same waypoint.
    cases hkept with
    | nil => exact .none
    | cons hfirst hothers => exact ih (.cons hfirst hothers)

theorem reads_drafts (net : Network R) (width : Nat) (first : List (Nearby R))
    (others : List (List (Nearby R))) :
    Option.Rel (fun found kept => ReadAs found.1 found.2 kept)
      (net.drafts width (first :: others)).value
      (net.advanceAnew width others (cheapest Partial.cost width (first.map Partial.begin))) :=
  ((readAs_begin #[] first).cheapest width).advance width others

theorem bind_joinSegments {found : Option (Array (Polyline R) × List (Draft R))}
    {kept : Option (List (Partial R))}
    (h : Option.Rel (fun found kept => ReadAs found.1 found.2 kept) found kept) :
    (found.bind fun found => found.2.head?.bind fun draft =>
        joinSegments (draft.segments.filterMap (found.1[·]?))) =
      kept.bind fun beam => beam.head?.bind fun part => joinSegments part.segments := by
  cases h with
  | none => rfl
  | @some found beam hbeam =>
    obtain ⟨routes, drafts⟩ := found
    cases hbeam with
    | nil => rfl
    | cons hfirst _ => exact congrArg joinSegments hfirst.filterMap

theorem bestThrough_eq (net : Network R) (width : Nat) (ranges : List (List (Nearby R))) :
    ((net.drafts width ranges).value.bind fun found => found.2.head?.bind fun draft =>
      joinSegments (draft.segments.filterMap (found.1[·]?))) = net.bestThrough width ranges := by
  cases ranges with
  | nil => rfl
  | cons first others => exact bind_joinSegments (net.reads_drafts width first others)

theorem beamRoute_value {points : List (Vec3 R)} (h : 2 ≤ points.length) (maxDistance : R)
    (keep : Nat) :
    (net.beamRoute points maxDistance keep).value =
      .ok ((net.rangeOfEach maxDistance points).value.bind (net.bestThrough (keep.max 1))) := by
  have hshort : ¬ points.length < 2 := by omega
  unfold beamRoute
  simp only [hshort, if_false, Logged.value_bind]
  cases (net.rangeOfEach maxDistance points).value with
  | none => rfl
  | some ranges =>
    rw [Option.bind_some, ← bestThrough_eq]
    rfl

theorem value_beamRoute (net : Network R) (points : List (Vec3 R)) (maxDistance : R) (keep : Nat) :
    (net.beamRoute points maxDistance keep).value = net.beamRouteAnew points maxDistance keep := by
  unfold beamRouteAnew
  split
  case isTrue hshort => simp [beamRoute, hshort]
  case isFalse hlong => exact beamRoute_value (Nat.le_of_not_lt hlong) maxDistance keep

end TransitShapes.Network
