import TransitShapes.Json.Record
import TransitShapes.Settings

/-! # Settings in JSON -/

namespace TransitShapes.Format

open Json Reader

/-! ## The duplicate policy -/

def policyName : DuplicatePolicy → String
  | .smart => "smart"
  | .reject => "reject"

def policyOfName (name : String) : Reader DuplicatePolicy :=
  if name = policyName .smart then return .smart
  else if name = policyName .reject then return .reject
  else fail .wrongShape

/-- Reads a policy: its name, or an object with the name as its only member and `null` as the
value. -/
def readPolicy (levels : Nat) : Reader DuplicatePolicy := do
  match ← peek with
  | none => fail .endOfText
  | some '"' => policyOfName (← text)
  | some '{' =>
    enter levels fun _ => do
      let policy ← policyOfName (← memberName)
      colon
      null
      closeObject
      return policy
  | some _ => fail .notJson

def writePolicy (policy : DuplicatePolicy) : String := quoted (policyName policy)

/-! ## The path search -/

inductive Strategy where
  | nearest
  | beam
deriving Repr, DecidableEq

def Strategy.name : Strategy → String
  | nearest => "nearest"
  | beam => "beam"

def readStrategy : Reader Strategy := do
  let name ← text
  if name = Strategy.nearest.name then return .nearest
  else if name = Strategy.beam.name then return .beam
  else fail .wrongShape

def strategyKey : String := "strategy"

def widthKey : String := "keep_best_n"

/-- The width from a number, which has to be a whole one. -/
def widthOf (n : Option Number) : Reader PathSearch :=
  match n.bind (·.natural) with
  | some n => return .beam (UInt64.ofNat n)
  | none => fail .wrongShape

/-- The search of an object: its strategy, and its other members with those that are numbers. The
strategy is looked at first, and only a beam looks at the others. -/
def searchOfMembers (strategy : Option Strategy) (others : List (String × Option Number)) :
    Reader PathSearch :=
  match strategy with
  | none => fail .wrongShape
  | some .nearest => return .nearest
  | some .beam =>
    match others.filter fun member => member.1 = widthKey with
    | [] => return .beam PathSearch.defaultKeep
    | [(_, n)] => widthOf n
    | _ => fail .wrongShape

/-- The search of an array: its strategy, and the items after it. -/
def searchOfItems : Strategy → List (Option Number) → Reader PathSearch
  | .nearest, [] => return .nearest
  | .beam, [] => return .beam PathSearch.defaultKeep
  | .beam, [n] => widthOf n
  | _, _ => fail .wrongShape

structure PartialSearch where
  strategy : Option Strategy := none
  others : List (String × Option Number) := []

def readSearchMember (levels : Nat) (s : PartialSearch) : Reader PartialSearch := do
  let name ← Text.afterQuote
  if name = strategyKey then
    if s.strategy.isSome then fail .wrongShape
    else
      colon
      return { s with strategy := some (← readStrategy) }
  else
    colon
    return { s with others := (name, ← anyValue .read levels) :: s.others }

def readSearchItems (levels : Nat) : Reader (Strategy × List (Option Number)) := do
  if ← nextItem true then
    let strategy ← readStrategy
    let rest ← bounded fun fuel => items (anyValue .read levels) fuel false
    return (strategy, rest)
  else fail .wrongShape

/-- Reads a path search: an object with a strategy among its members, or an array with a strategy in
front. All of it is read before the width is looked at. -/
def readSearch (levels : Nat) : Reader PathSearch := do
  match ← peek with
  | none => fail .endOfText
  | some '[' =>
    let (strategy, rest) ← enter levels fun levels => do
      let found ← readSearchItems levels
      closeArray
      return found
    searchOfItems strategy rest
  | some '{' =>
    let found ← enter levels fun levels => do
      let found ← objectOf (readSearchMember levels) {}
      if found.strategy.isNone then fail .wrongShape
      closeObject
      return found
    searchOfMembers found.strategy found.others
  | some c => refuse c

def writeSearch : PathSearch → String
  | .nearest => writeObject [(strategyKey, quoted Strategy.nearest.name)]
  | .beam keep =>
    writeObject [(strategyKey, quoted Strategy.beam.name), (widthKey, toString keep.toNat)]

/-! ## Settings -/

structure PartialSettings where
  maxDistance : Option Float := none
  search : Option PathSearch := none
  verbosity : Option UInt8 := none
  policy : Option DuplicatePolicy := none

/-- The settings with what was read. All else is as it is if nobody says. -/
def PartialSettings.complete (s : PartialSettings) : Settings Float :=
  let standard : Settings Float := {}
  { maxDistance := s.maxDistance.getD standard.maxDistance
    search := s.search.getD standard.search
    verbosity := s.verbosity.getD standard.verbosity
    policy := s.policy.getD standard.policy }

def settings : RecordFormat PartialSettings (Settings Float) where
  fields :=
    [{ names := ["max_distance_meters"]
       isSet := fun s => s.maxDistance.isSome
       read := fun _ s => do return { s with maxDistance := some (← float) } },
     { names := ["path_search"]
       isSet := fun s => s.search.isSome
       read := fun levels s => do return { s with search := some (← readSearch levels) } },
     { names := ["verbosity"]
       isSet := fun s => s.verbosity.isSome
       read := fun _ s => do return { s with verbosity := some (UInt8.ofNat (← natural 255)) } },
     { names := ["duplicate_policy"]
       isSet := fun s => s.policy.isSome
       read := fun levels s => do return { s with policy := some (← readPolicy levels) } }]
  initial := {}
  finish s := some s.complete

def writeSettings (s : Settings Float) : String :=
  writeObject
    [("max_distance_meters", Decimal.json.write s.maxDistance),
      ("path_search", writeSearch s.search),
      ("verbosity", toString s.verbosity.toNat),
      ("duplicate_policy", writePolicy s.policy)]

/-! ## Whole texts -/

def readPolicyText (text : String) : Except Cause DuplicatePolicy :=
  (readPolicy nestingLimit).run text

def readSearchText (text : String) : Except Cause PathSearch :=
  (readSearch nestingLimit).run text

inductive SettingsTextError where
  | json (cause : Cause)
  | invalid (error : SettingsError Float)
deriving Repr

def readSettings (text : String) : Except SettingsTextError (Settings Float) :=
  match (settings.read nestingLimit).run text with
  | .error cause => .error (.json cause)
  | .ok s =>
    match s.validate with
    | .error e => .error (.invalid e)
    | .ok s => .ok s

end TransitShapes.Format
