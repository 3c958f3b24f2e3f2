import TransitShapes.Polyline.Basic

/-! # Splitting a polyline near a target -/

namespace TransitShapes.Polyline

variable {R : Type} [Scalar R]

/-- The nearest of a first sighting and the nearest points of the segments that follow, each with
the number of its segment. -/
def Sighting.nearestOnSegments (target : Vec3 R) (best : Sighting R) :
    Nat → List (Vec3 R × Vec3 R) → Except ShapeError (Sighting R)
  | _, [] => .ok best
  | index, (a, b) :: rest => do
    let p ← target.nearestOnArc a b
    let angle := target.angle p
    (if angle < best.angle then ⟨p, index, angle⟩ else best).nearestOnSegments target (index + 1)
      rest

/-- The point of the path nearest to a target, with the number of its segment. -/
def nearestOnPath (line : Polyline R) (target : Vec3 R) : Except ShapeError (Sighting R) :=
  match line.points with
  | [] => .error (.tooFewPoints 1 0)
  | p :: _ => (⟨p, 0, target.angle p⟩ : Sighting R).nearestOnSegments target 0 line.segments

/-- The two parts of a polyline before and after the point of its path nearest to a target.

The first part ends with the vertex that begins the segment of that point, and the second part
begins with the point itself. Both keep the name. -/
def splitNear (line : Polyline R) (target : Vec3 R) :
    Except ShapeError (Polyline R × Polyline R) := do
  let cut ← line.nearestOnPath target
  return ({ line with points := line.points.take (cut.index + 1) },
    { line with points := cut.point :: line.points.drop (cut.index + 1) })

end TransitShapes.Polyline
