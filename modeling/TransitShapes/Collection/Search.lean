import TransitShapes.Ascending
import TransitShapes.Collection.Basic

/-! # Finding polylines by their ends -/

namespace TransitShapes

variable {R : Type} [Scalar R]

namespace Polyline

/-- Whether the polyline begins within a distance of `start` and ends within it of `finish`. -/
def runsBetween (line : Polyline R) (start finish : Vec3 R) (maxDistance : R) : Bool :=
  line.ends?.any fun (first, last) =>
    start.distance first ≤ maxDistance && finish.distance last ≤ maxDistance

/-- The same for either direction of travel. -/
def joins (line : Polyline R) (start finish : Vec3 R) (maxDistance : R) : Bool :=
  line.runsBetween start finish maxDistance || line.runsBetween finish start maxDistance

end Polyline

namespace Collection

/-- The numbers filed under a cell of the first list and a cell of the second, each once and in
ascending order. -/
def filed (c : Collection R) (starts finishes : List Cell) : List Nat :=
  Ascending.distinct <|
    starts.flatMap fun start => finishes.flatMap fun finish => c.bucket ⟨start, finish⟩

/-- The polylines that a search has to look at: those filed in the windows of both ends, or all of
them where an end has no window. -/
def candidates (c : Collection R) (start finish : Vec3 R) (maxDistance : R) :
    Logged (Event R) (List Nat) :=
  match Cell.window? start maxDistance, Cell.window? finish maxDistance with
  | some starts, some finishes => ⟨c.filed starts finishes, []⟩
  | _, _ => ⟨List.range c.size, [.fullScan maxDistance]⟩

def joinsAt (c : Collection R) (start finish : Vec3 R) (maxDistance : R) (id : Nat) : Bool :=
  (c.get? id).any (·.joins start finish maxDistance)

/-- The numbers of the polylines that have their ends within a distance in meters of two places, in
either direction. A distance below zero, or one that is not a number, finds nothing. -/
def endpointSearch (c : Collection R) (start finish : Vec3 R) (maxDistance : R) :
    Logged (Event R) (List Nat) :=
  if ¬ 0.0 ≤ maxDistance ∨ c.isEmpty then ⟨[], []⟩
  else do
    let found ← c.candidates start finish maxDistance
    return found.filter (c.joinsAt start finish maxDistance)

def linesBetween (c : Collection R) (start finish : Vec3 R) (maxDistance : R) :
    Logged (Event R) (List (Polyline R)) := do
  let found ← c.endpointSearch start finish maxDistance
  return found.filterMap c.get?

end Collection

end TransitShapes
