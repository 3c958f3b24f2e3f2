import TransitShapes.Geometry.Sphere

/-! # What the library reports while it works

`Event` is an entry for the log. `Progress` is what a route search through waypoints tells whoever
watches it. A verbosity decides which of its steps become events as well.
-/

namespace TransitShapes

/-- Why no route through the waypoints was found. -/
inductive RouteFailure (R : Type) where
  | noVertexInRange (waypoint : Nat) (maxDistance : R)
  | noRoute (waypoint : Nat)
  | oneVertex
deriving Repr, DecidableEq

/-- One step of a route search through waypoints. -/
inductive Progress (R : Type) where
  | waypoint (index : Nat) (place : Vec3 R) (inRange : Nat) (snapped : Option (Vec3 R))
  | segment (index : Nat) (start finish : Vec3 R) (length : R)
  | failure (reason : RouteFailure R)
deriving Repr

inductive Event (R : Type) where
  | duplicateSkipped (shape : String) (distance : R)
  | duplicateRenamed (shape newName : String) (distance : R)
  | fullScan (maxDistance : R)
  | noRoute (start finish : Nat)
  | waypointOutOfRange (maxDistance : R)
  | waypointUnreached
  | scoringCandidates (count : Nat)
  | matchTooFar (shape : String) (score maxDistance : R)
  | noPathFound (stops : Nat) (maxDistance : R)
  | waypointSnapped (index : Nat) (place : LatLng R) (inRange : Nat) (distance : R)
  | waypointUnsnapped (index : Nat) (place : LatLng R)
  | segmentJoined (index : Nat) (start finish : Vec3 R) (length : R)
  | searchFailed (reason : RouteFailure R)
deriving Repr

/-- The event for one step of a search. Failures and segments need a verbosity of 1, and waypoints
one of 2. -/
def Progress.event? {R : Type} [Scalar R] (verbosity : UInt8) : Progress R → Option (Event R)
  | .waypoint index place inRange snapped =>
    if verbosity < 2 then none
    else some <| match snapped with
      | some vertex => .waypointSnapped index place.toLatLng inRange (place.distance vertex)
      | none => .waypointUnsnapped index place.toLatLng
  | .segment index start finish length =>
    if verbosity < 1 then none else some (.segmentJoined index start finish length)
  | .failure reason => if verbosity < 1 then none else some (.searchFailed reason)

end TransitShapes
