import TransitShapes.Ascending
import TransitShapes.Collection.Search
import TransitShapes.Network.PointIndex

/-! # Networks of polylines

A network is a collection whose polylines are edges. Its vertices are the places where polylines
end; two ends are one vertex if their coordinates are the same, zeros of both signs being one. Every
polyline can be travelled both ways.
-/

namespace TransitShapes

open Scalar

structure Edge (R : Type) where
  start : Nat
  finish : Nat
  length : R
deriving Repr, Inhabited

def Edge.across {R : Type} (edge : Edge R) (vertex : Nat) : Nat :=
  if edge.start = vertex then edge.finish else edge.start

/-- The edge of a polyline has the number of the polyline. `incident` lists for each vertex the
numbers of the polylines that end there. -/
structure Network (R : Type) [Scalar R] where
  collection : Collection R := {}
  vertices : Array (Vec3 R) := #[]
  vertexIds : Std.TreeMap (Vec3 R) Nat Vec3.compareKeys := ∅
  incident : Array (List Nat) := #[]
  edges : Array (Edge R) := #[]
  index : PointIndex R := {}

namespace Network

variable {R : Type} [Scalar R]

instance : Inhabited (Network R) := ⟨{}⟩

/-! ## Looking things up -/

def vertexCount (net : Network R) : Nat := net.vertices.size

def edgeCount (net : Network R) : Nat := net.edges.size

def vertex? (net : Network R) (id : Nat) : Option (Vec3 R) := net.vertices[id]?

def vertexId? (net : Network R) (p : Vec3 R) : Option Nat := net.vertexIds[p]?

def edgeIdsAt (net : Network R) (vertex : Nat) : List Nat := net.incident.getD vertex []

/-- The polylines that end exactly at a place. -/
def linesAt (net : Network R) (p : Vec3 R) : List (Polyline R) :=
  (net.vertexId? p).elim [] fun vertex => (net.edgeIdsAt vertex).filterMap net.collection.get?

/-! ## Adding -/

/-- The network with a place as a vertex, and the number of that vertex. -/
def intern (net : Network R) (p : Vec3 R) : Network R × Nat :=
  match net.vertexId? p with
  | some id => (net, id)
  | none =>
    let id := net.vertexCount
    ({ net with
        vertices := net.vertices.push p
        vertexIds := net.vertexIds.insert p id
        incident := net.incident.push []
        index := net.index.insert p id }, id)

/-- Lists a polyline at a vertex, after those that are there. -/
def attach (net : Network R) (vertex id : Nat) : Network R :=
  { net with incident := net.incident.setIfInBounds vertex (net.edgeIdsAt vertex ++ [id]) }

/-- Lists a polyline at both vertices of its edge, once if they are the same. -/
def attachEnds (net : Network R) (start finish id : Nat) : Network R :=
  if finish = start then net.attach start id else (net.attach start id).attach finish id

/-- The network with the polyline `id` of its collection as an edge between two ends. -/
def connect (net : Network R) (id : Nat) (ends : Vec3 R × Vec3 R) (length : R) : Network R :=
  let (withStart, start) := net.intern ends.1
  let (withBoth, finish) := withStart.intern ends.2
  let attached := withBoth.attachEnds start finish id
  { attached with edges := attached.edges.push ⟨start, finish, length⟩ }

/-- The network after an admission to its collection, with the number of the polyline. The
collection has the polyline before its length is known. -/
def receive (net : Network R) (a : Admission R) : Network R × Except ShapeError Nat :=
  match a with
  | .skipped id .. => (net, .ok id)
  | .stored line | .renamed line .. =>
    let id := net.collection.size
    let filed := { net with collection := net.collection.store line }
    match line.ends?, line.length with
    | none, _ => (filed, .ok id)
    | some _, .error e => (filed, .error e)
    | some ends, .ok length => (filed.connect id ends length, .ok id)

/-- The network after a polyline is offered to it, with the number of the polyline, or of the stored
one that it repeats. -/
def offer (net : Network R) (line : Polyline R) (policy : DuplicatePolicy := .smart) :
    Logged (Event R) (Network R × Except ShapeError Nat) :=
  match net.collection.admission line policy with
  | .error e => ⟨(net, .error e), []⟩
  | .ok a => ⟨net.receive a, a.events⟩

def add (net : Network R) (line : Polyline R) (policy : DuplicatePolicy := .smart) :
    Logged (Event R) (Except ShapeError (Network R × Nat)) := do
  let (next, answer) ← net.offer line policy
  return answer.map fun id => (next, id)

/-- Adds polylines in order, and stops at the first one that cannot be added. -/
def addAll (net : Network R) (policy : DuplicatePolicy) :
    List (Polyline R) → Logged (Event R) (Except ShapeError (Network R))
  | [] => ⟨.ok net, []⟩
  | line :: rest => do
    match ← net.add line policy with
    | .error e => return .error e
    | .ok (next, _) => next.addAll policy rest

def ofLines (lines : List (Polyline R)) (policy : DuplicatePolicy := .smart) :
    Logged (Event R) (Except ShapeError (Network R)) :=
  addAll {} policy lines

/-! ## Vertices near a place -/

/-- The vertex nearest to a place in a straight line. -/
def nearestVertex? (net : Network R) (p : Vec3 R) : Option (Vec3 R) :=
  (net.index.nearest? p).bind fun (_, id) => net.vertex? id

/-- The square of the straight line that spans a distance along the globe, a little enlarged so that
no rounding is felt. -/
def squaredReach (maxDistance : R) : R :=
  let angle := Scalar.min (maxDistance / globeRadius) pi
  let chord := 2.0 * sin (angle / 2.0)
  chord * chord + 1e-12

structure Nearby (R : Type) where
  distance : R
  vertex : Nat
deriving Repr, Inhabited

/-- By distance, and at one distance by number. -/
def Nearby.compare (a b : Nearby R) : Ordering :=
  (total a.distance b.distance).then (Ord.compare a.vertex b.vertex)

/-- The vertices within a distance in meters of a place, the nearest first. A distance below zero,
or one that is not a number, finds nothing. -/
def within (net : Network R) (p : Vec3 R) (maxDistance : R) : List (Nearby R) :=
  if ¬ 0.0 ≤ maxDistance then []
  else
    Ascending.sort Nearby.compare <|
      ((net.index.within p (squaredReach maxDistance)).filterMap fun (_, id) =>
        (net.vertex? id).map fun q => ⟨p.distance q, id⟩).filter (·.distance ≤ maxDistance)

def verticesWithin (net : Network R) (p : Vec3 R) (maxDistance : R) : List (Vec3 R) :=
  (net.within p maxDistance).filterMap fun found => net.vertex? found.vertex

end Network

end TransitShapes
