import TransitShapes.Decimal.Layout
import TransitShapes.Event.Basic
import TransitShapes.Scalar.Double

/-! # Log entries as they are written

Every event has a level, a message, and fields with names.
-/

namespace TransitShapes

inductive Level where
  | debug
  | info
  | warn
deriving Repr, DecidableEq

inductive FieldValue where
  | count (n : Nat)
  | measure (x : Float)
  | text (s : String)
deriving Repr

structure LogRecord where
  level : Level
  message : String
  fields : List (String × FieldValue) := []
deriving Repr

def Level.text : Level → String
  | debug => "DEBUG"
  | info => "INFO"
  | warn => "WARN"

/-- The three coordinates in brackets, with fifteen places each. -/
def Vec3.text (v : Vec3 Float) : String :=
  let write := Decimal.writeFixed 15
  "(" ++ write v.x ++ ", " ++ write v.y ++ ", " ++ write v.z ++ ")"

def RouteFailure.message : RouteFailure Float → String
  | .noVertexInRange waypoint maxDistance =>
    s!"waypoint {waypoint} has no vertex within " ++ Decimal.plain.write maxDistance ++ " m"
  | .noRoute waypoint => s!"no path between waypoints {waypoint} and {waypoint + 1}"
  | .oneVertex => "every waypoint snapped to the same vertex"

def Event.record : Event Float → LogRecord
  | .duplicateSkipped shape distance =>
    ⟨.warn, "Skipping duplicate shape", [("shape", .text shape), ("distance", .measure distance)]⟩
  | .duplicateRenamed shape newName distance =>
    ⟨.warn, "Duplicate shape name with different geometry",
      [("shape", .text shape), ("renamed", .text newName), ("distance", .measure distance)]⟩
  | .fullScan maxDistance =>
    ⟨.debug, "Endpoint lookup falls back to a full scan", [("max_distance", .measure maxDistance)]⟩
  | .noRoute start finish =>
    ⟨.debug, "No path between vertices", [("start", .count start), ("end", .count finish)]⟩
  | .waypointOutOfRange maxDistance =>
    ⟨.debug, "Waypoint has no vertex in range", [("max_distance", .measure maxDistance)]⟩
  | .waypointUnreached => ⟨.debug, "No candidate path reaches the next waypoint", []⟩
  | .scoringCandidates count =>
    ⟨.debug, "Scoring polylines matched by endpoints", [("candidates", .count count)]⟩
  | .matchTooFar shape score maxDistance =>
    ⟨.warn, "No matching shape within max-distance",
      [("shape", .text shape), ("score", .measure score), ("max_distance", .measure maxDistance)]⟩
  | .noPathFound stops maxDistance =>
    ⟨.warn, "No path through the shape graph",
      [("stops", .count stops), ("max_distance", .measure maxDistance)]⟩
  | .waypointSnapped index place inRange distance =>
    ⟨.debug, "Waypoint snapped to vertex",
      [("index", .count index), ("lat", .measure place.lat), ("lng", .measure place.lng),
        ("candidates", .count inRange), ("distance", .measure distance)]⟩
  | .waypointUnsnapped index place =>
    ⟨.debug, "No vertex in range of waypoint",
      [("index", .count index), ("lat", .measure place.lat), ("lng", .measure place.lng)]⟩
  | .segmentJoined index start finish length =>
    ⟨.debug, "Joined path segment",
      [("index", .count index), ("start", .text start.text), ("end", .text finish.text),
        ("length", .measure length)]⟩
  | .searchFailed reason =>
    ⟨.info, "Multi-point path search failed", [("reason", .text reason.message)]⟩

end TransitShapes
