import TransitShapes.Network.Route

/-! # Routes through waypoints with a choice of vertices

Where several vertices are in range of a waypoint, the nearest one need not be on the best route.
This search keeps a number of partial routes from waypoint to waypoint, the cheapest ones. A partial
route costs its length and the distances of its waypoints from their vertices.

A route from one vertex to another is searched for once, however many partial routes go on along it.
A table has all that were found, and a partial route has the numbers of its segments there.
-/

namespace TransitShapes

open Scalar

namespace Network

/-! ## The table of routes -/

/-- A route of the table by its number, with its length in meters. -/
structure Segment (R : Type) where
  number : Nat
  length : R

def comparePairs : Nat × Nat → Nat × Nat → Ordering :=
  compareLex (compareOn Prod.fst) (compareOn Prod.snd)

instance : Std.TransCmp comparePairs := by
  unfold comparePairs
  infer_instance

instance : Std.LawfulEqCmp comparePairs where
  eq_of_compare {a b} h := by
    simp only [comparePairs, compareLex_eq_eq, compareOn, Std.LawfulEqOrd.compare_eq_iff_eq] at h
    exact Prod.ext h.1 h.2

/-- All routes found so far, and for the pairs of vertices that were looked up the segment between
them, or that there is none. -/
structure RouteTable (R : Type) where
  routes : Array (Polyline R) := #[]
  known : Std.TreeMap (Nat × Nat) (Option (Segment R)) comparePairs := ∅

variable {R : Type} [Scalar R]

/-- The segment from one vertex to another. A search is made for it if the table does not know. -/
def RouteTable.lookUp (net : Network R) (table : RouteTable R) (start finish : Nat) :
    Logged (Event R) (RouteTable R × Option (Segment R)) :=
  match table.known[(start, finish)]? with
  | some found => return (table, found)
  | none => do
    match ← net.route start finish with
    | none => return ({ table with known := table.known.insert (start, finish) none }, none)
    | some line =>
      let found : Segment R := ⟨table.routes.size, routeLength line⟩
      return (⟨table.routes.push line, table.known.insert (start, finish) (some found)⟩, some found)

/-! ## Partial routes -/

/-- A route through the first waypoints. -/
structure Draft (R : Type) where
  cost : R
  vertex : Nat
  segments : List Nat
deriving Inhabited

def Draft.begin (stop : Nearby R) : Draft R := ⟨stop.distance, stop.vertex, []⟩

def Draft.extend (draft : Draft R) (next : Nearby R) (segment : Segment R) : Draft R where
  cost := draft.cost + segment.length + next.distance
  vertex := next.vertex
  segments := draft.segments ++ [segment.number]

/-- The cheapest of some partial routes, as many as `keep`. Of equally cheap ones the first stay. -/
def cheapest {α : Type} (cost : α → R) (keep : Nat) (parts : List α) : List α :=
  (Ascending.sort (fun a b => total (cost a) (cost b)) parts).take keep

/-- Every partial route with every vertex near the next waypoint. -/
def ways {α : Type} (beam : List α) (inRange : List (Nearby R)) : List (α × Nearby R) :=
  beam.flatMap fun part => inRange.map fun next => (part, next)

/-! ## From waypoint to waypoint -/

/-- A search on its way to the next waypoint: the table, and the partial routes that got there. -/
structure Sweep (R : Type) where
  table : RouteTable R
  reached : Array (Draft R) := #[]

/-- Goes on along one way, if a route leads there. -/
def Sweep.follow (net : Network R) (sweep : Sweep R) (way : Draft R × Nearby R) :
    Logged (Event R) (Sweep R) := do
  let (table, found) ← sweep.table.lookUp net way.1.vertex way.2.vertex
  match found with
  | none => return { sweep with table }
  | some segment => return ⟨table, sweep.reached.push (way.1.extend way.2 segment)⟩

def Sweep.followAll (net : Network R) (sweep : Sweep R) (tried : List (Draft R × Nearby R)) :
    Logged (Event R) (Sweep R) :=
  tried.foldlM (Sweep.follow net) sweep

/-- The partial routes that are kept after each waypoint in turn, with all routes found. What is
known of pairs of vertices is forgotten at every waypoint. -/
def advance (net : Network R) (width : Nat) :
    List (List (Nearby R)) → Array (Polyline R) → List (Draft R) →
      Logged (Event R) (Option (Array (Polyline R) × List (Draft R)))
  | [], routes, beam => return some (routes, beam)
  | inRange :: rest, routes, beam => do
    let sweep ← Sweep.followAll net { table := { routes } } (ways beam inRange)
    match cheapest Draft.cost width sweep.reached.toList with
    | [] =>
      Logged.report .waypointUnreached
      return none
    | kept => net.advance width rest sweep.table.routes kept

/-! ## Whole searches -/

/-- The vertices in range of every waypoint, if each has some. -/
def rangeOfEach (net : Network R) (maxDistance : R) :
    List (Vec3 R) → Logged (Event R) (Option (List (List (Nearby R))))
  | [] => return some []
  | p :: rest =>
    match net.within p maxDistance with
    | [] => do
      Logged.report (.waypointOutOfRange maxDistance)
      return none
    | inRange => do
      let others ← net.rangeOfEach maxDistance rest
      return others.map (inRange :: ·)

/-- The partial routes through vertices in some ranges, with all routes found. -/
def drafts (net : Network R) (width : Nat) :
    List (List (Nearby R)) → Logged (Event R) (Option (Array (Polyline R) × List (Draft R)))
  | [] => return none
  | first :: others =>
    net.advance width others #[] (cheapest Draft.cost width (first.map Draft.begin))

/-- The route through at least two waypoints that keeps so many partial routes on the way, at least
one. There is none if all waypoints of the cheapest one are at one vertex. -/
def beamRoute (net : Network R) (points : List (Vec3 R)) (maxDistance : R) (keep : Nat) :
    Logged (Event R) (Except ShapeError (Option (Polyline R))) := do
  if points.length < 2 then return .error (.tooFewPoints 2 points.length)
  match ← net.rangeOfEach maxDistance points with
  | none => return .ok none
  | some ranges =>
    let found ← net.drafts (keep.max 1) ranges
    return .ok <| do
      let (routes, beam) ← found
      joinSegments ((← beam.head?).segments.filterMap (routes[·]?))

end Network

end TransitShapes
