import TransitShapes.Json.Number
import TransitShapes.Json.Text

/-! # Values of any kind

Values are looked at in two ways. One that may be needed later is read with care. One that nobody
asks for is passed over: it has to have the form of JSON, but its numbers and its nesting may be of
any size.
-/

namespace TransitShapes.Json

open Reader

inductive Care where
  | read
  | pass
deriving Repr, DecidableEq

def nestingLimit : Nat := 127

/-! ## Arrays and objects -/

/-- Takes an opening bracket, if one more level is allowed, and reads on with one level less. -/
def enter {α : Type} (levels : Nat) (r : Nat → Reader α) : Reader α :=
  match levels with
  | 0 => fail .notJson
  | levels + 1 => do
    drop
    r levels

/-- Whether another item of an array follows. If none does, the closing bracket stays. -/
def nextItem (first : Bool) : Reader Bool := do
  match ← peek with
  | none => fail .endOfText
  | some ']' => return false
  | some c =>
    if first then return true
    else if c = ',' then
      drop
      match ← peek with
      | none => fail .endOfText
      | some ']' => fail .notJson
      | some _ => return true
    else fail .notJson

def closeArray : Reader Unit := do
  match ← peek with
  | none => fail .endOfText
  | some ']' => drop
  | some _ => fail .notJson

def items {α : Type} (item : Reader α) : Nat → Bool → Reader (List α)
  | 0, _ => fail .endOfText
  | fuel + 1, first => do
    if ← nextItem first then
      let a ← item
      return a :: (← items item fuel false)
    else return []

def arrayOf {α : Type} (item : Reader α) : Reader (List α) := do
  let found ← bounded fun fuel => items item fuel true
  closeArray
  return found

/-- Whether another member of an object follows. If so its first quote is taken, and if not the
closing brace stays. -/
def nextMember (first : Bool) : Reader Bool := do
  match ← peek with
  | none => fail .endOfText
  | some '}' => return false
  | some c =>
    let c ← if first then pure (some c) else if c = ',' then (do drop; peek) else fail .notJson
    match c with
    | none => fail .endOfText
    | some '"' =>
      drop
      return true
    | some _ => fail .notJson

def memberName : Reader String := do
  match ← peek with
  | none => fail .endOfText
  | some '"' =>
    drop
    Text.afterQuote
  | some _ => fail .notJson

def colon : Reader Unit := do
  match ← peek with
  | none => fail .endOfText
  | some ':' => drop
  | some _ => fail .notJson

def closeObject : Reader Unit := do
  match ← peek with
  | none => fail .endOfText
  | some '}' => drop
  | some _ => fail .notJson

/-- The members of an object up to the closing brace. Each is read by what `member` makes of the
state so far, after its first quote. -/
def members {σ : Type} (member : σ → Reader σ) : Nat → Bool → σ → Reader σ
  | 0, _, _ => fail .endOfText
  | fuel + 1, first, state => do
    if ← nextMember first then members member fuel false (← member state) else return state

def objectOf {σ : Type} (member : σ → Reader σ) (initial : σ) : Reader σ :=
  bounded fun fuel => members member fuel true initial

/-! ## Values -/

/-- Reads a value that is no array and no object, and gives it if it is a number. -/
def scalar (care : Care) (c : Char) : Reader (Option Number) :=
  if c = 'n' then do word ['n', 'u', 'l', 'l']; return none
  else if c = 't' then do word ['t', 'r', 'u', 'e']; return none
  else if c = 'f' then do word ['f', 'a', 'l', 's', 'e']; return none
  else if c = '"' then do
    drop
    match care with
    | .read => discard Text.afterQuote
    | .pass => Text.skipAfterQuote
    return none
  else if c = '-' ∨ c.isDigit then
    match care with
    | .read => some <$> Number.read
    | .pass => do
      let _ ← NumberText.read .notJson
      return none
  else fail .notJson

/-- Takes the name of a member after its first quote, and the colon. -/
def skipName (care : Care) : Reader Unit := do
  match care with
  | .read => discard Text.afterQuote
  | .pass => Text.skipAfterQuote
  colon

/-- Reads a value of any kind, and gives it if it is a number. `inner` reads the values in an array
or an object, where one more level is allowed. -/
def valueAround (care : Care) (inner : Option (Reader Unit)) : Reader (Option Number) := do
  match ← peek, inner with
  | none, _ => fail .endOfText
  | some '[', none | some '{', none => fail .notJson
  | some '[', some inner =>
    drop
    discard <| arrayOf inner
    return none
  | some '{', some inner =>
    drop
    objectOf (fun _ => do skipName care; inner) ()
    closeObject
    return none
  | some c, _ => scalar care c

/-- Reads a value of any kind with so many levels in it, and gives it if it is a number. -/
def anyValue (care : Care) : Nat → Reader (Option Number)
  | 0 => valueAround care none
  | levels + 1 => valueAround care (some (discard (anyValue care levels)))

def skipValue : Reader Unit := bounded fun fuel => discard (anyValue .pass fuel)

/-- Refuses a value that is not of the kind asked for. A fault in a value that is no array and no
object is found first. -/
def refuse {α : Type} (c : Char) : Reader α := do
  if c = '[' ∨ c = '{' then fail .wrongShape
  else
    discard (scalar .read c)
    fail .wrongShape

/-! ## Values of one kind -/

def number : Reader Number := do
  match ← peek with
  | none => fail .endOfText
  | some c => if c = '-' ∨ c.isDigit then Number.read else refuse c

def float : Reader Float := do return (← number).value

/-- Reads a whole number from 0 up to a largest one. -/
def natural (largest : Nat) : Reader Nat := do
  match (← number).natural with
  | some n => if n ≤ largest then return n else fail .wrongShape
  | none => fail .wrongShape

/-- Reads `null`, which is none, or a value. -/
def optional {α : Type} (r : Reader α) : Reader (Option α) := do
  match ← peek with
  | some 'n' =>
    word ['n', 'u', 'l', 'l']
    return none
  | _ => some <$> r

def text : Reader String := do
  match ← peek with
  | none => fail .endOfText
  | some '"' =>
    drop
    Text.afterQuote
  | some c => refuse c

def null : Reader Unit := do
  match ← peek with
  | none => fail .endOfText
  | some 'n' => word ['n', 'u', 'l', 'l']
  | some c => refuse c

def list {α : Type} (levels : Nat) (item : Nat → Reader α) : Reader (List α) := do
  match ← peek with
  | none => fail .endOfText
  | some '[' => enter levels fun levels => arrayOf (item levels)
  | some c => refuse c

end TransitShapes.Json
