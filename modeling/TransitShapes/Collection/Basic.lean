import Std.Data.TreeMap
import TransitShapes.Collection.Cell
import TransitShapes.Event.Basic
import TransitShapes.Logged
import TransitShapes.Polyline.Basic

/-! # Collections of polylines

A collection keeps every polyline it was given, in order. The position of a polyline is its number.
Two indexes lead to the numbers: one by name, and one by the cells of the two ends, under which
every polyline is filed in both directions.
-/

namespace TransitShapes

/-- What to do with a polyline whose name is taken. -/
inductive DuplicatePolicy where
  /-- Leave it out if it runs where the stored one does, and give it a new name otherwise. -/
  | smart
  | reject
deriving Repr, DecidableEq, Inhabited

/-- The cells at the two ends of a polyline, in one direction. -/
@[ext]
structure EndCells where
  start : Cell
  finish : Cell
deriving Repr, DecidableEq

namespace EndCells

def swap (key : EndCells) : EndCells := ⟨key.finish, key.start⟩

def compare : EndCells → EndCells → Ordering :=
  compareLex (compareOn fun key => key.start.lat) <|
    compareLex (compareOn fun key => key.start.lng) <|
      compareLex (compareOn fun key => key.finish.lat) (compareOn fun key => key.finish.lng)

instance : Std.TransCmp compare := by
  unfold compare
  infer_instance

instance : Std.LawfulEqCmp compare where
  eq_of_compare {a b} h := by
    simp only [compare, compareLex_eq_eq, compareOn, Std.LawfulEqOrd.compare_eq_iff_eq] at h
    obtain ⟨h1, h2, h3, h4⟩ := h
    exact EndCells.ext (Cell.ext h1 h2) (Cell.ext h3 h4)

def ofEnds {R : Type} [Scalar R] (ends : Vec3 R × Vec3 R) : EndCells :=
  ⟨Cell.ofPoint ends.1, Cell.ofPoint ends.2⟩

end EndCells

structure Collection (R : Type) where
  lines : Array (Polyline R) := #[]
  names : Std.TreeMap String Nat := ∅
  buckets : Std.TreeMap EndCells (List Nat) EndCells.compare := ∅
deriving Inhabited

/-- What becomes of a polyline that is offered to a collection. A renamed one has its new name. -/
inductive Admission (R : Type) where
  | stored (line : Polyline R)
  | renamed (line : Polyline R) (oldName newName : String) (distance : R)
  | skipped (id : Nat) (name : String) (distance : R)

namespace Admission

variable {R : Type}

/-- The polyline that goes into the collection, if one does. -/
def line? : Admission R → Option (Polyline R)
  | stored line => some line
  | renamed line .. => some line
  | skipped .. => none

def events : Admission R → List (Event R)
  | stored _ => []
  | renamed _ oldName newName distance => [.duplicateRenamed oldName newName distance]
  | skipped _ name distance => [.duplicateSkipped name distance]

end Admission

namespace Collection

variable {R : Type} [Scalar R]

/-! ## Looking things up -/

def size (c : Collection R) : Nat := c.lines.size

def isEmpty (c : Collection R) : Bool := c.lines.isEmpty

def get? (c : Collection R) (id : Nat) : Option (Polyline R) := c.lines[id]?

def idOf? (c : Collection R) (name : String) : Option Nat := c.names[name]?

def byName? (c : Collection R) (name : String) : Option (Polyline R) :=
  (c.idOf? name).bind c.get?

def toList (c : Collection R) : List (Nat × Polyline R) :=
  c.lines.toList.zipIdx.map fun (line, id) => (id, line)

def bucket (c : Collection R) (key : EndCells) : List Nat := c.buckets.getD key []

/-! ## Adding -/

/-- Two polylines of one name are the same shape below this distance in meters. -/
def duplicateDistance : R := 10.0

def numbered (name : String) (n : Nat) : String := name ++ "-" ++ toString n

/-- The first number from `n` on whose name is free, among as many as `fuel`. -/
def firstFree (c : Collection R) (name : String) : Nat → Nat → Nat
  | 0, n => n
  | fuel + 1, n => if c.names.contains (numbered name n) then firstFree c name fuel (n + 1) else n

/-- The name with the smallest number after it, from 1 on, that is free. A free one comes up before
all the names in use have been tried. -/
def freeName (c : Collection R) (name : String) : String :=
  numbered name (c.firstFree name c.names.size 1)

/-- What becomes of a polyline that has the name of a stored one. -/
def decideNamesake (c : Collection R) (line : Polyline R) (name : String) (id : Nat) :
    DuplicatePolicy → Except ShapeError (Admission R)
  | .reject => .error (.duplicateName name)
  | .smart => do
    let distance ← line.followDistance ((c.get? id).getD {})
    if distance < duplicateDistance then return .skipped id name distance
    else return .renamed (line.withName (c.freeName name)) name (c.freeName name) distance

/-- What becomes of a polyline. It needs two points, and only a name can be in the way. -/
def admission (c : Collection R) (line : Polyline R) (policy : DuplicatePolicy) :
    Except ShapeError (Admission R) :=
  if line.size < 2 then .error (.tooFewPoints 2 line.size)
  else
    match line.name.bind fun name => (c.idOf? name).map fun id => (name, id) with
    | none => .ok (.stored line)
    | some (name, id) => c.decideNamesake line name id policy

/-- Files a number under a pair of cells, after those that are there. -/
def file (buckets : Std.TreeMap EndCells (List Nat) EndCells.compare) (key : EndCells) (id : Nat) :
    Std.TreeMap EndCells (List Nat) EndCells.compare :=
  buckets.insert key (buckets.getD key [] ++ [id])

/-- Files a number in both directions, once if they are the same. -/
def fileBothWays (buckets : Std.TreeMap EndCells (List Nat) EndCells.compare) (key : EndCells)
    (id : Nat) : Std.TreeMap EndCells (List Nat) EndCells.compare :=
  if key.swap = key then file buckets key id else file (file buckets key id) key.swap id

/-- The collection with a polyline at the end, under its name and its cells. -/
def store (c : Collection R) (line : Polyline R) : Collection R :=
  { lines := c.lines.push line
    names := line.name.elim c.names fun name => c.names.insert name c.size
    buckets := line.ends?.elim c.buckets fun ends =>
      fileBothWays c.buckets (EndCells.ofEnds ends) c.size }

/-- The collection after an admission, with the number of the polyline that was meant. -/
def receive (c : Collection R) (a : Admission R) : Collection R × Nat :=
  match a with
  | .skipped id .. => (c, id)
  | .stored line | .renamed line .. => (c.store line, c.size)

/-- Adds a polyline. The answer has the number of it, or of the stored one that it repeats. -/
def add (c : Collection R) (line : Polyline R) (policy : DuplicatePolicy := .smart) :
    Logged (Event R) (Except ShapeError (Collection R × Nat)) :=
  match c.admission line policy with
  | .error e => ⟨.error e, []⟩
  | .ok a => ⟨.ok (c.receive a), a.events⟩

end Collection

end TransitShapes
