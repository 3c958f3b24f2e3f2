import TransitShapes.Network.Route

/-! # Routes through waypoints

Every waypoint is moved to the nearest vertex in range, and the routes from vertex to vertex are
joined. The search tells its progress as it goes. What it tells cannot change what it finds.
-/

namespace TransitShapes

/-- A report of a route search: an entry for the log, or a step for whoever watches. -/
inductive Notice (R : Type) where
  | event (e : Event R)
  | progress (p : Progress R)
deriving Repr

namespace Notice

variable {R : Type} [Scalar R]

def event? : Notice R → Option (Event R)
  | event e => some e
  | progress _ => none

def progress? : Notice R → Option (Progress R)
  | event _ => none
  | progress p => some p

def toEvent? (verbosity : UInt8) : Notice R → Option (Event R)
  | event e => some e
  | progress p => p.event? verbosity

end Notice

namespace Network

variable {R : Type} [Scalar R]

/-- The nearest vertex of every waypoint, counted from `index`. -/
def snap (net : Network R) (maxDistance : R) :
    Nat → List (Vec3 R) → Logged (Notice R) (Option (List Nat))
  | _, [] => return some []
  | index, p :: rest =>
    match net.within p maxDistance with
    | [] => do
      Logged.report (.progress (.waypoint index p 0 none))
      Logged.report (.progress (.failure (.noVertexInRange index maxDistance)))
      return none
    | nearest :: others => do
      Logged.report (.progress
        (.waypoint index p (others.length + 1) (some (net.vertices.getD nearest.vertex default))))
      let vertices ← net.snap maxDistance (index + 1) rest
      return vertices.map (nearest.vertex :: ·)

/-- The routes from each vertex to the next, counted from `index`. -/
def segmentsThrough (net : Network R) :
    Nat → List Nat → Logged (Notice R) (Option (List (Polyline R)))
  | index, start :: finish :: rest => do
    match ← (net.route start finish).mapLog fun e => [.event e] with
    | none =>
      Logged.report (.progress (.failure (.noRoute index)))
      return none
    | some segment =>
      Logged.report (.progress (.segment index (net.vertices.getD start default)
        (net.vertices.getD finish default) (routeLength segment)))
      let segments ← net.segmentsThrough (index + 1) (finish :: rest)
      return segments.map (segment :: ·)
  | _, _ => return some []

/-- The route through at least two waypoints, each at the nearest vertex within a distance in
meters. There is none if all of them are at one vertex. -/
def routeThrough (net : Network R) (points : List (Vec3 R)) (maxDistance : R) :
    Logged (Notice R) (Except ShapeError (Option (Polyline R))) := do
  if points.length < 2 then return .error (.tooFewPoints 2 points.length)
  match ← net.snap maxDistance 0 points with
  | none => return .ok none
  | some vertices =>
    match ← net.segmentsThrough 0 vertices with
    | none => return .ok none
    | some segments =>
      match joinSegments segments with
      | none =>
        Logged.report (.progress (.failure .oneVertex))
        return .ok none
      | some path => return .ok (some path)

def routeThroughLogged (net : Network R) (points : List (Vec3 R)) (maxDistance : R)
    (verbosity : UInt8) : Logged (Event R) (Except ShapeError (Option (Polyline R))) :=
  (net.routeThrough points maxDistance).mapLog fun notice => (notice.toEvent? verbosity).toList

end Network

end TransitShapes
