import TransitShapes.Scalar.Binary64

/-! # The fewest digits that read back

A double is the nearest one to every number in a small interval around it. `shortest` finds a
decimal number in that interval with as few digits as possible, and of those the one nearest to
the double.
-/

namespace TransitShapes

/-- The number `digits · 10 ^ exponent`. -/
structure Decimal where
  digits : Nat
  exponent : Int
deriving Repr, DecidableEq

/-- Which of two neighbours a number halfway between them goes to. -/
inductive Tie where
  | toEven
  | up
deriving Repr, DecidableEq

/-- The whole number nearest to `numerator / denominator`. -/
def roundQuotient (tie : Tie) (numerator denominator : Nat) : Nat :=
  let quotient := numerator / denominator
  match compare (2 * (numerator % denominator)) denominator with
  | .lt => quotient
  | .gt => quotient + 1
  | .eq => if tie = .up then quotient + 1 else quotient + quotient % 2

namespace Decimal

/-- `n · 2 ^ e` as a numerator and a denominator. -/
def binaryFraction (n : Nat) (e : Int) : Nat × Nat := (n * twoTo e.toNat, twoTo (-e).toNat)

/-- Whether `10 ^ e ≤ numerator / denominator`. -/
def powerAtMost (e : Int) (numerator denominator : Nat) : Bool :=
  tenTo e.toNat * denominator ≤ numerator * tenTo (-e).toNat

/-- The exponent of the leading decimal digit of `significand · 2 ^ exponent`, which is not zero.
A binary estimate is at most a little too low, and `climb` corrects it. -/
def leadingExponent (significand : Nat) (exponent : Int) : Int :=
  let (numerator, denominator) := binaryFraction significand exponent
  climb numerator denominator 3
    ((exponent + Binary64.bitLength significand - 1) * 30103 / 100000 - 1)
where
  climb (numerator denominator : Nat) : Nat → Int → Int
    | 0, e => e
    | fuel + 1, e =>
      if powerAtMost (e + 1) numerator denominator then climb numerator denominator fuel (e + 1)
      else e

/-- The numbers that read back as one double: those between `low / scale` and `high / scale`, with
both ends if `closed`. The double itself is `middle / scale`. -/
structure Reading where
  low : Nat
  middle : Nat
  high : Nat
  scale : Nat
  closed : Bool

/-- The neighbour below the least number of a power of two is only half as far away. The ends go to
the double with an even significand. -/
def Reading.ofFinite (significand : Nat) (exponent : Int) : Reading :=
  let below := if significand = twoTo 52 ∧ -1074 < exponent then 1 else 2
  let part (n : Nat) := (binaryFraction n (exponent - 2)).1
  { low := part (4 * significand - below)
    middle := part (4 * significand)
    high := part (4 * significand + 2)
    scale := (binaryFraction 0 (exponent - 2)).2
    closed := significand % 2 = 0 }

/-- Whether `digits · 10 ^ e` reads back. -/
def Reading.admits (r : Reading) (digits : Nat) (e : Int) : Bool :=
  let n := digits * tenTo e.toNat * r.scale
  let unit := tenTo (-e).toNat
  if r.closed then r.low * unit ≤ n && n ≤ r.high * unit
  else r.low * unit < n && n < r.high * unit

/-- The multiple of `10 ^ e` that reads back and is nearest to the double. If a multiple reads back
then one of the two next to the double does. -/
def Reading.onGrid (tie : Tie) (r : Reading) (e : Int) : Option Nat :=
  let numerator := r.middle * tenTo (-e).toNat
  let denominator := r.scale * tenTo e.toNat
  let nearest := roundQuotient tie numerator denominator
  let lower := numerator / denominator
  [nearest, lower, lower + 1].find? (r.admits · e)

/-- The first grid that is fine enough, starting from multiples of `10 ^ e`. -/
def Reading.search (tie : Tie) (r : Reading) : Nat → Int → Decimal
  | 0, e => ⟨roundQuotient tie (r.middle * tenTo (-e).toNat) (r.scale * tenTo e.toNat), e⟩
  | fuel + 1, e =>
    match r.onGrid tie e with
    | some digits => ⟨digits, e⟩
    | none => Reading.search tie r fuel (e - 1)

/-- The same number without zeros at the end of its digits. -/
def trim : Nat → Decimal → Decimal
  | 0, d => d
  | fuel + 1, d =>
    if d.digits ≠ 0 ∧ d.digits % 10 = 0 then trim fuel ⟨d.digits / 10, d.exponent + 1⟩ else d

/-- The fewest digits that read back as `significand · 2 ^ exponent`. Seventeen are always
enough. -/
def shortest (tie : Tie) (significand : Nat) (exponent : Int) : Decimal :=
  if significand = 0 then ⟨0, 0⟩
  else
    trim 20 ((Reading.ofFinite significand exponent).search tie 17
      (leadingExponent significand exponent))

end Decimal

end TransitShapes
