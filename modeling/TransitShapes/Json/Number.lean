import TransitShapes.Json.Reader
import TransitShapes.Scalar.Binary64

/-! # Numbers in JSON

The digits of a number are gathered into a whole number below `2 ^ 64`, and the rest of the way is
one multiplication or division of doubles by a power of ten. So the value need not be the double
nearest to the text, and this module says which one it is.
-/

namespace TransitShapes.Json

/-! ## The form of a number -/

structure NumberText where
  negative : Bool
  whole : List Char
  fraction : Option (List Char)
  exponent : Option (Bool × List Char)
deriving Repr, DecidableEq

namespace NumberText

open Reader

def digits (atEnd : Cause) : Reader (List Char) := do
  match ← takeWhile Char.isDigit with
  | [] => fail (if (← look).isNone then atEnd else .notJson)
  | ds => return ds

/-- The digits before the point. A zero in front stands alone. -/
def readWhole (atEnd : Cause) : Reader (List Char) := do
  let ds ← digits atEnd
  if ds.head? = some '0' ∧ ds.length ≠ 1 then fail .notJson else return ds

def readFraction (atEnd : Cause) : Reader (Option (List Char)) := do
  if ← accept '.' then some <$> digits atEnd else return none

def readExponent (atEnd : Cause) : Reader (Option (Bool × List Char)) := do
  let marked ← if ← accept 'e' then pure true else accept 'E'
  if marked then
    let minus ← accept '-'
    let _ ← if minus then pure false else accept '+'
    return some (minus, ← digits atEnd)
  else return none

/-- Reads the form of a number. `atEnd` is the cause where the text ends and a digit is missing. -/
def read (atEnd : Cause) : Reader NumberText := do
  let negative ← accept '-'
  let whole ← readWhole atEnd
  let fraction ← readFraction atEnd
  let exponent ← readExponent atEnd
  return { negative, whole, fraction, exponent }

end NumberText

/-! ## The value of a number -/

/-- What a number text stands for: a double, and the whole number that it is if it is written as one
that is not negative and below `2 ^ 64`. -/
structure Number where
  value : Float
  natural : Option Nat

namespace Number

/-- A whole number from the digits in front, and the digits that were left over because with one
more the number would reach `2 ^ 64`. -/
def gather (n : Nat) : List Char → Nat × List Char
  | [] => (n, [])
  | d :: rest =>
    let more := 10 * n + digitOf d
    if more < twoTo 64 then gather more rest else (n, d :: rest)

def digitValue (ds : List Char) : Nat := ds.foldl (fun n d => 10 * n + digitOf d) 0

def powerOfTen (e : Nat) : Float := Float.ofScientific 1 false e

/-- `x · 10 ^ e` in one step where a double can hold the power, and in steps of 308 places before
that for a very small one. There is none that is too large for a double. -/
def scale : Nat → Float → Int → Option Float
  | fuel, x, e =>
    if e.natAbs ≤ 308 then
      if 0 ≤ e then
        let scaled := x * powerOfTen e.natAbs
        if Binary64.ofFloat scaled = .infinite false then none else some scaled
      else some (x / powerOfTen e.natAbs)
    else if x == 0.0 then some x
    else if 0 ≤ e then none
    else
      match fuel with
      | 0 => some 0.0
      | fuel + 1 => scale fuel (x / powerOfTen 308) (e + 308)

/-- The exponent that is written, unless it has too many digits to be counted. -/
def writtenExponent : Option (Bool × List Char) → Option Int
  | none => some 0
  | some (minus, ds) =>
    let n := digitValue ds
    if twoTo 31 ≤ n then none else some (if minus then -n else n)

/-- The value without its sign of the gathered digits `n`, which stand for `n · 10 ^ shift` before
the written exponent is taken into account. -/
def magnitude (n : Nat) (shift : Int) (exponent : Option (Bool × List Char)) : Option Float :=
  match writtenExponent exponent, exponent with
  | some e, _ => scale 4 (Binary64.nearest false n 0) (shift + e)
  | none, some (false, _) => if n = 0 then some 0.0 else none
  | none, _ => some 0.0

def ofText? (t : NumberText) : Option Number := do
  let (whole, left) := gather 0 t.whole
  let fraction := t.fraction.getD []
  let (n, unused) := gather whole fraction
  let shift : Int := left.length - (fraction.length - unused.length : Nat)
  let x ← magnitude n shift t.exponent
  let isWhole := !t.negative && left.isEmpty && t.fraction.isNone && t.exponent.isNone
  return { value := if t.negative then -x else x, natural := if isWhole then some whole else none }

/-- Reads a number. One that no double can hold is refused. -/
def read : Reader Number := do
  match ofText? (← NumberText.read .endOfText) with
  | some n => return n
  | none => Reader.fail .notJson

end Number

end TransitShapes.Json
