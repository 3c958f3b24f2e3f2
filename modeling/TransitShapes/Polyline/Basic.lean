import TransitShapes.Geometry.Sphere

/-! # Polylines -/

namespace TransitShapes

open Scalar

/-- Points on the globe in order, with a name or without one. An empty name is a name. -/
@[ext]
structure Polyline (R : Type) where
  points : List (Vec3 R) := []
  name : Option String := none
deriving Repr, Inhabited

namespace Polyline

variable {R : Type} [Scalar R]

/-! ## Points -/

def ofLatLngs (places : List (LatLng R)) (name : Option String := none) : Polyline R :=
  ⟨places.map Vec3.ofLatLng, name⟩

def toLatLngs (line : Polyline R) : List (LatLng R) := line.points.map Vec3.toLatLng

def size (line : Polyline R) : Nat := line.points.length

def first? (line : Polyline R) : Option (Vec3 R) := line.points.head?

def last? (line : Polyline R) : Option (Vec3 R) := line.points.getLast?

def ends? (line : Polyline R) : Option (Vec3 R × Vec3 R) := do
  return (← line.first?, ← line.last?)

/-- The point at a position. A negative one counts from the end. -/
def point (line : Polyline R) (index : Int) : Except ShapeError (Vec3 R) :=
  let position := if index < 0 then line.size + index else index
  let found := if position < 0 then none else line.points[position.toNat]?
  found.elim (.error (.indexOutOfRange index line.size)) .ok

def push (line : Polyline R) (p : Vec3 R) : Polyline R := { line with points := line.points ++ [p] }

def withName (line : Polyline R) (name : String) : Polyline R := { line with name := some name }

def reversed (line : Polyline R) : Polyline R := { line with points := line.points.reverse }

/-! ## Length -/

def segments (line : Polyline R) : List (Vec3 R × Vec3 R) := line.points.zip line.points.tail

/-- The sum of the distances from point to point, in order. -/
def pathLength (line : Polyline R) : R :=
  line.segments.foldl (fun sum (a, b) => sum + a.distance b) 0.0

/-- The length in meters. It needs two points. -/
def length (line : Polyline R) : Except ShapeError R :=
  if line.size < 2 then .error (.tooFewPoints 2 line.size) else .ok line.pathLength

/-! ## The nearest vertex -/

/-- A point seen from a target: where it stands in its polyline, and how far off it is. -/
structure Sighting (R : Type) where
  point : Vec3 R
  index : Nat
  angle : R
deriving Repr, Inhabited

/-- The nearest of a first sighting and the points that follow. Of equally near ones the earliest
stays. -/
def Sighting.nearest (target : Vec3 R) (best : Sighting R) : Nat → List (Vec3 R) → Sighting R
  | _, [] => best
  | index, p :: rest =>
    let angle := target.angle p
    (if angle < best.angle then ⟨p, index, angle⟩ else best).nearest target (index + 1) rest

/-- The vertex nearest to a target among those from a position on. -/
def nearestVertexFrom? (line : Polyline R) (target : Vec3 R) (start : Nat) :
    Option (Sighting R) :=
  match line.points.drop start with
  | [] => none
  | p :: rest => some ((⟨p, start, target.angle p⟩ : Sighting R).nearest target (start + 1) rest)

def nearestVertex (line : Polyline R) (target : Vec3 R) : Except ShapeError (Sighting R) :=
  (line.nearestVertexFrom? target 0).elim (.error (.tooFewPoints 1 0)) .ok

/-! ## How closely one polyline follows another -/

/-- The largest distance from a point to the vertex it is matched with, and from an earlier one.
Each point takes the nearest vertex that does not lie before the last one taken. -/
def farthestMatch (candidate : Polyline R) : List (Vec3 R) → Nat → R → R
  | [], _, farthest => farthest
  | p :: rest, cursor, farthest =>
    match candidate.nearestVertexFrom? p cursor with
    | none => farthest
    | some taken =>
      candidate.farthestMatch rest taken.index (Scalar.max farthest (p.distance taken.point))

/-- How far this polyline strays from a candidate, in meters. A lower value is a better match. -/
def followDistance (line candidate : Polyline R) : Except ShapeError R :=
  if candidate.points.isEmpty then .error (.tooFewPoints 1 0)
  else .ok (candidate.farthestMatch line.points 0 0.0)

/-! ## Joining polylines end to end -/

def nameSeparator : String := ";"

/-- Points with more points after them. With a threshold, the first of these is left out if it lies
that close to the last point before it, in meters. -/
def appendPoints (threshold : Option R) (points incoming : List (Vec3 R)) : List (Vec3 R) :=
  match threshold, points.getLast?, incoming with
  | some limit, some previous, next :: rest =>
    if previous.distance next ≤ limit then points ++ rest else points ++ incoming
  | _, _, _ => points ++ incoming

/-- The polylines in order as one. A polyline without a name counts as one with an empty name. -/
def join (lines : List (Polyline R)) (threshold : Option R := none) : Polyline R :=
  { points := lines.foldl (fun points line => appendPoints threshold points line.points) []
    name := some (nameSeparator.intercalate (lines.map (·.name.getD ""))) }

end Polyline

/-! ## From the vertices of a feed -/

variable {R : Type} [Scalar R]

/-- A vertex as a feed lists it, with the distance travelled so far if the feed has it. -/
@[ext]
structure ShapeVertex (R : Type) where
  place : LatLng R
  travelled : Option R := none
deriving Repr, Inhabited

/-- The polyline through the places of the vertices. Their distances are not needed: the places
alone make the shape. -/
def Polyline.ofVertices (vertices : List (ShapeVertex R)) (name : Option String := none) :
    Polyline R :=
  Polyline.ofLatLngs (vertices.map (·.place)) name

end TransitShapes
