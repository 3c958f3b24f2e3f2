import TransitShapes.Geometry.Vec3

/-! # Places on the globe and the ways between them -/

namespace TransitShapes

/-- A place in degrees. -/
@[ext]
structure LatLng (R : Type) where
  lat : R
  lng : R
deriving Repr, Inhabited

open Scalar

variable {R : Type} [Scalar R]

/-- The mean radius of the globe in meters. -/
def globeRadius : R := 6371010.0

namespace Vec3

def ofLatLng (place : LatLng R) : Vec3 R :=
  let phi := toRadians place.lat
  let theta := toRadians place.lng
  let ringRadius := cos phi
  ⟨cos theta * ringRadius, sin theta * ringRadius, sin phi⟩

def toLatLng (v : Vec3 R) : LatLng R :=
  ⟨toDegrees (atan2 v.z (sqrt (v.x * v.x + v.y * v.y))), toDegrees (atan2 v.y v.x)⟩

/-- The angle between two vectors in radians, from their cross and dot products so that small and
nearly straight angles keep their digits. -/
def angle (a b : Vec3 R) : R := atan2 (a.cross b).norm (a.dot b)

/-- The way along the globe in meters. -/
def distance (a b : Vec3 R) : R := a.angle b * globeRadius

/-- Whether `a`, `b`, `c` turn counterclockwise around the origin. -/
def isCounterclockwise (a b c : Vec3 R) : Bool := 0.0 < (c.cross a).dot b

/-- The point nearest to `target` on the shorter great-circle arc from `a` to `b`.

The target is dropped onto the plane of the arc. If the result lies between the ends it is the
answer, and otherwise the end that is nearer in a straight line. -/
def nearestOnArc (target a b : Vec3 R) : Except ShapeError (Vec3 R) := do
  let normal ← a.arcNormal b
  let dropped := target - normal.scale (target.dot normal / normal.dot normal)
  if isCounterclockwise normal a dropped && isCounterclockwise dropped b normal then
    dropped.normalized
  else if (target - a).norm ≤ (target - b).norm then
    return a
  else
    return b

end Vec3

end TransitShapes
