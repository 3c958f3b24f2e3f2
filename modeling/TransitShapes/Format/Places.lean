import TransitShapes.Decimal.Layout
import TransitShapes.Json.Record
import TransitShapes.Polyline.Basic
import TransitShapes.Scalar.Double

/-! # Points and places in JSON

Every record is read by all the names that feeds use for its fields, and written with the first one.
-/

namespace TransitShapes.Format

open Json

/-! ## Places -/

/-- A place of which some fields have been read. -/
structure PartialPlace where
  lat : Option Float := none
  lng : Option Float := none

def place : RecordFormat PartialPlace (LatLng Float) where
  fields :=
    [{ names := ["lat", "stop_lat"]
       isSet := fun s => s.lat.isSome
       read := fun _ s => do return { s with lat := some (← float) } },
     { names := ["lon", "stop_lon", "lng"]
       isSet := fun s => s.lng.isSome
       read := fun _ s => do return { s with lng := some (← float) } }]
  initial := {}
  finish s := do return ⟨← s.lat, ← s.lng⟩

def writePlace (p : LatLng Float) : String :=
  writeObject [("lat", Decimal.json.write p.lat), ("lon", Decimal.json.write p.lng)]

/-! ## Vertices -/

/-- A vertex of which some fields have been read. The distance may be there and be none. -/
structure PartialVertex where
  lat : Option Float := none
  lng : Option Float := none
  travelled : Option (Option Float) := none

def vertex : RecordFormat PartialVertex (ShapeVertex Float) where
  fields :=
    [{ names := ["lat", "shape_pt_lat"]
       isSet := fun s => s.lat.isSome
       read := fun _ s => do return { s with lat := some (← float) } },
     { names := ["lon", "shape_pt_lon"]
       isSet := fun s => s.lng.isSome
       read := fun _ s => do return { s with lng := some (← float) } },
     { names := ["dist_traveled", "shape_dist_traveled"]
       isSet := fun s => s.travelled.isSome
       read := fun _ s => do return { s with travelled := some (← optional float) } }]
  initial := {}
  finish s := do return ⟨⟨← s.lat, ← s.lng⟩, s.travelled.getD none⟩

def writeVertex (v : ShapeVertex Float) : String :=
  writeObject
    [("lat", Decimal.json.write v.place.lat), ("lon", Decimal.json.write v.place.lng),
      ("dist_traveled", (v.travelled.map Decimal.json.write).getD "null")]

/-! ## Points -/

structure PartialPoint where
  x : Option Float := none
  y : Option Float := none
  z : Option Float := none

def point : RecordFormat PartialPoint (Vec3 Float) where
  fields :=
    [{ names := ["x"]
       isSet := fun s => s.x.isSome
       read := fun _ s => do return { s with x := some (← float) } },
     { names := ["y"]
       isSet := fun s => s.y.isSome
       read := fun _ s => do return { s with y := some (← float) } },
     { names := ["z"]
       isSet := fun s => s.z.isSome
       read := fun _ s => do return { s with z := some (← float) } }]
  initial := {}
  finish s := do return ⟨← s.x, ← s.y, ← s.z⟩

def writePoint (p : Vec3 Float) : String :=
  writeObject
    [("x", Decimal.json.write p.x), ("y", Decimal.json.write p.y), ("z", Decimal.json.write p.z)]

/-! ## Whole texts -/

def readPlace (text : String) : Except Cause (LatLng Float) :=
  (place.read nestingLimit).run text

def readVertex (text : String) : Except Cause (ShapeVertex Float) :=
  (vertex.read nestingLimit).run text

def readPoint (text : String) : Except Cause (Vec3 Float) :=
  (point.read nestingLimit).run text

def readPlaces (text : String) : Except Cause (List (LatLng Float)) :=
  (list nestingLimit place.read).run text

def readVertices (text : String) : Except Cause (List (ShapeVertex Float)) :=
  (list nestingLimit vertex.read).run text

end TransitShapes.Format
