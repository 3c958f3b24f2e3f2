import TransitShapes.Json.Value

/-! # Records in JSON

A record is an object, or an array of its fields in order. Of an object it takes the members that it
knows, by any of their names, and passes over the others. No field may come twice.
-/

namespace TransitShapes.Json

open Reader

/-- A field of a record. `σ` is a record that is being read, and `read` puts the value in. -/
structure Field (σ : Type) where
  names : List String
  isSet : σ → Bool
  read : Nat → σ → Reader σ

/-- How a record is read. `finish` makes it out of the fields that were found, if none is
missing. -/
structure RecordFormat (σ α : Type) where
  fields : List (Field σ)
  initial : σ
  finish : σ → Option α

namespace RecordFormat

variable {σ α : Type}

def field? (f : RecordFormat σ α) (name : String) : Option (Field σ) :=
  f.fields.find? fun field => field.names.contains name

def readMember (f : RecordFormat σ α) (levels : Nat) (state : σ) : Reader σ := do
  match f.field? (← Text.afterQuote) with
  | none =>
    colon
    skipValue
    return state
  | some field =>
    if field.isSet state then fail .wrongShape
    else
      colon
      field.read levels state

/-- Reads the fields in order from the items of an array, until one of both runs out. -/
def readItems (levels : Nat) : List (Field σ) → Bool → σ → Reader σ
  | [], _, state => return state
  | field :: rest, first, state => do
    if ← nextItem first then readItems levels rest false (← field.read levels state)
    else return state

def complete (f : RecordFormat σ α) (state : σ) : Reader α :=
  match f.finish state with
  | some a => return a
  | none => fail .wrongShape

def read (f : RecordFormat σ α) (levels : Nat) : Reader α := do
  match ← peek with
  | none => fail .endOfText
  | some '[' =>
    enter levels fun levels => do
      let a ← f.complete (← readItems levels f.fields true f.initial)
      closeArray
      return a
  | some '{' =>
    enter levels fun levels => do
      let a ← f.complete (← objectOf (f.readMember levels) f.initial)
      closeObject
      return a
  | some c => refuse c

end RecordFormat

/-! ## Writing

Objects are written without blanks, with their members in the order given.
-/

/-- A text that needs no escapes, in quotes. -/
def quoted (text : String) : String := "\"" ++ text ++ "\""

def writeObject (members : List (String × String)) : String :=
  let written := members.map fun (name, value) => quoted name ++ ":" ++ value
  "\x7b" ++ ",".intercalate written ++ "\x7d"

end TransitShapes.Json
