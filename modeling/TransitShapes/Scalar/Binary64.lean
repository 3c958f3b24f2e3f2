/-! # Binary doubles as exact numbers

`Binary64` reads a double as a sign, a whole number and a power of two. `nearest` goes back: it is
the one place where an exact number is rounded to a double, to the nearest one and on a tie to the
one with the even last bit.
-/

namespace TransitShapes

/-! ## Powers of two and of ten -/

def twoTo (n : Nat) : Nat := Nat.pow 2 n

def tenTo (n : Nat) : Nat := Nat.pow 10 n

theorem twoTo_pos (n : Nat) : 0 < twoTo n := Nat.pow_pos (by decide)

/-! ## Doubles -/

/-- What a double stands for. A finite one is `significand · 2 ^ exponent`, with its sign. -/
inductive Binary64 where
  | nan
  | infinite (negative : Bool)
  | finite (negative : Bool) (significand : Nat) (exponent : Int)
deriving Repr, DecidableEq

namespace Binary64

def bitLength (n : Nat) : Nat := if n = 0 then 0 else n.log2 + 1

def ofFloat (x : Float) : Binary64 :=
  let bits := x.toBits.toNat
  let negative := bits >>> 63 == 1
  let field := (bits >>> 52) % 2048
  let fraction := bits % twoTo 52
  if field = 2047 then
    if fraction = 0 then infinite negative else nan
  else if field = 0 then finite negative fraction (-1074)
  else finite negative (twoTo 52 + fraction) ((field : Int) - 1075)

/-- `n / 2 ^ shift` as a whole number, the nearest one, a tie to the even one. -/
def shiftNearest (n shift : Nat) : Nat :=
  let quotient := n >>> shift
  let remainder := n % twoTo shift
  match compare (2 * remainder) (twoTo shift) with
  | .lt => quotient
  | .gt => quotient + 1
  | .eq => quotient + quotient % 2

/-- The bits of the double nearest to `significand · 2 ^ exponent`, without its sign.

Adding the rounded significand to the exponent field lets a carry move into the next power of two
by itself, and gives the small numbers below the normal ones without a case of their own. -/
def magnitudeBits (significand : Nat) (exponent : Int) : Nat :=
  let target := max (exponent + bitLength significand - 53) (-1074)
  let rounded :=
    if target ≤ exponent then significand <<< (exponent - target).toNat
    else shiftNearest significand (target - exponent).toNat
  if rounded = 0 then 0
  else if 972 ≤ target then 2047 <<< 52
  else min ((target + 1074).toNat <<< 52 + rounded) (2047 <<< 52)

/-- The double nearest to a signed `significand · 2 ^ exponent`. -/
def nearest (negative : Bool) (significand : Nat) (exponent : Int) : Float :=
  let bits := magnitudeBits significand exponent
  Float.ofBits (UInt64.ofNat (if negative then twoTo 63 + bits else bits))

/-- The largest whole number that is not above `significand · 2 ^ exponent`, with its sign. -/
def floorFinite (negative : Bool) (significand : Nat) (exponent : Int) : Int :=
  let signed : Int := if negative then -(significand : Int) else significand
  if 0 ≤ exponent then signed * twoTo exponent.toNat else signed / twoTo (-exponent).toNat

/-- The floor of a double, kept between `-2 ^ 63` and `2 ^ 63 - 1`. What is not a number gives 0. -/
def floor (x : Float) : Int :=
  match ofFloat x with
  | nan => 0
  | infinite true => -twoTo 63
  | infinite false => twoTo 63 - 1
  | finite negative significand exponent =>
    max (-twoTo 63) (min (twoTo 63 - 1) (floorFinite negative significand exponent))

/-- The place of a double in one line of all doubles, read off its bits: by value, the negative zero
just below the positive one. `Float` has one value that is not a number, whose sign bit is not set,
so that it comes after all others. -/
def rank (x : Float) : Int :=
  let bits := x.toBits.toNat
  if bits < twoTo 63 then bits else twoTo 63 - 1 - bits

end Binary64

end TransitShapes
