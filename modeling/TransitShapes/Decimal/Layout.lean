import TransitShapes.Decimal.Shortest

/-! # How a number is written

A `Layout` holds the decisions that a format takes once the digits are known. There are two: one
for numbers inside messages, one for numbers in JSON.
-/

namespace TransitShapes.Decimal

structure Layout where
  tie : Tie
  /-- Whether a number whose leading digit stands at this power of ten is written out in full. -/
  positional : Int → Bool
  wholeEnd : String
  /-- What stands for the values that are not finite: not a number, and the two infinities. -/
  nan : String
  infinity : String
  minusInfinity : String

/-- Numbers in messages are written out in full and show no point unless they need one. -/
def plain : Layout :=
  { tie := .up
    positional := fun _ => true
    wholeEnd := ""
    nan := "NaN"
    infinity := "inf"
    minusInfinity := "-inf" }

/-- Numbers in JSON always show a fraction or an exponent, and are written out in full from five
zeros after the point up to sixteen digits before it. JSON has no word for the others but `null`. -/
def json : Layout :=
  { tie := .toEven
    positional := fun leading => -5 ≤ leading && leading ≤ 15
    wholeEnd := ".0"
    nan := "null"
    infinity := "null"
    minusInfinity := "null" }

def zeros (n : Nat) : String := String.ofList (List.replicate n '0')

/-- The digits with a point after the first `whole` of them. -/
def withPoint (digits : String) (whole : Nat) : String :=
  String.ofList (digits.toList.take whole) ++ "." ++ String.ofList (digits.toList.drop whole)

/-- The digits in full, with the leading one at the given power of ten. -/
def Layout.writeOut (layout : Layout) (digits : String) (leading : Int) : String :=
  if leading < 0 then "0." ++ zeros (-leading - 1).toNat ++ digits
  else if digits.length ≤ leading.toNat + 1 then
    digits ++ zeros (leading.toNat + 1 - digits.length) ++ layout.wholeEnd
  else withPoint digits (leading.toNat + 1)

/-- The digits with a point after the leading one, and its power of ten with a sign. -/
def writeScientific (digits : String) (leading : Int) : String :=
  let mantissa := if digits.length = 1 then digits else withPoint digits 1
  let sign := if leading < 0 then "-" else "+"
  mantissa ++ "e" ++ sign ++ toString leading.natAbs

def Layout.writeMagnitude (layout : Layout) (d : Decimal) : String :=
  let digits := toString d.digits
  let leading := d.exponent + digits.length - 1
  if layout.positional leading then layout.writeOut digits leading
  else writeScientific digits leading

/-- The text of a double with the fewest digits that read back. -/
def Layout.write (layout : Layout) (x : Float) : String :=
  match Binary64.ofFloat x with
  | .nan => layout.nan
  | .infinite false => layout.infinity
  | .infinite true => layout.minusInfinity
  | .finite negative significand exponent =>
    let magnitude := layout.writeMagnitude (shortest layout.tie significand exponent)
    if negative then "-" ++ magnitude else magnitude

/-! ## A set number of places

The exact value of a double is rounded, and a tie goes to the even digit.
-/

/-- `significand · 2 ^ exponent` in units of `10 ^ -places`. -/
def fixedUnits (places significand : Nat) (exponent : Int) : Nat :=
  let (numerator, denominator) := binaryFraction significand exponent
  roundQuotient .toEven (numerator * tenTo places) denominator

/-- A number of such units with exactly `places` digits after the point, at least one of them. -/
def writeUnits (places units : Nat) : String :=
  let digits := toString units
  let padded := zeros (places + 1 - digits.length) ++ digits
  withPoint padded (padded.length - places)

/-- The text of a double with a set number of places. A minus sign is kept even before zeros. -/
def writeFixed (places : Nat) (x : Float) : String :=
  match Binary64.ofFloat x with
  | .nan => plain.nan
  | .infinite false => plain.infinity
  | .infinite true => plain.minusInfinity
  | .finite negative significand exponent =>
    let magnitude := writeUnits places (fixedUnits places significand exponent)
    if negative then "-" ++ magnitude else magnitude

end TransitShapes.Decimal
