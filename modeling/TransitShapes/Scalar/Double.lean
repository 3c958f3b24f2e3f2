import TransitShapes.Scalar.Basic
import TransitShapes.Scalar.Binary64

/-! # Doubles as scalars

Sine, cosine and the arctangents are computed on whole numbers that stand for binary fractions with far more digits
than a double holds, and is rounded once at the end. Only whole-number arithmetic is used, so a
value can be evaluated inside a proof.
-/

namespace TransitShapes.Elementary

open Binary64

/-! ## Constants and series -/

/-- `π · 2 ^ 1284`, rounded down. -/
def piDigits : Nat :=
  0x3243f6a8885a308d313198a2e03707344a4093822299f31d0082efa98ec4e6c89452821e638d01377be5466cf34e90c6cc0ac29b7c97c50dd3f84d5b5b54709179216d5d98979fb1bd1310ba698dfb5ac2ffd72dbd01adfb7b8e1afed6a267e96ba7c9045f12c7f9924a19947b3916cf70801f2e2858efc16636920d871574e69a458fea3f4933d7e0d95748f728eb658718bcd5882154aee7b54a41dc25a59b59

/-- `1 - u·w(k) · (1 - u·w(k+1) · (…))`, with `n` weights `w(k) = 1 / divisor k`, in fractions of
`2 ^ -bits`. -/
def alternating (bits u : Nat) (divisor : Nat → Nat) : Nat → Nat → Nat
  | 0, _ => twoTo bits
  | n + 1, k => twoTo bits - (u * alternating bits u divisor n (k + 1)) >>> bits / divisor k

def ofFixed (v : Int) (bits : Nat) : Float := nearest (v < 0) v.natAbs (-(bits : Int))

/-! ## Sine and cosine -/

/-- An angle as a number of quarter turns and a remainder of at most an eighth of a turn, which is
`remainder / 2 ^ 192`. -/
structure Turn where
  quarter : Int
  remainder : Int

/-- Takes quarter turns off `±significand · 2 ^ exponent` in fractions of `2 ^ -1280`. Every double
is a whole number of those. -/
def Turn.ofFinite (negative : Bool) (significand : Nat) (exponent : Int) : Turn :=
  let angle : Int := significand * twoTo (exponent + 1280).toNat
  let signed := if negative then -angle else angle
  let quarterTurn : Int := piDigits / twoTo 5
  let quarter := (2 * signed + quarterTurn) / (2 * quarterTurn)
  ⟨quarter, (signed - quarter * quarterTurn) / twoTo 1088⟩

/-- The sine of `r / 2 ^ 192`, in the same fractions. -/
def sineSeries (r : Int) : Int :=
  let u := (r * r).natAbs >>> 192
  r * alternating 192 u (fun k => 2 * k * (2 * k + 1)) 24 1 / twoTo 192

/-- The cosine of `r / 2 ^ 192`, in the same fractions. -/
def cosineSeries (r : Int) : Int :=
  let u := (r * r).natAbs >>> 192
  alternating 192 u (fun k => (2 * k - 1) * (2 * k)) 24 1

/-- The sine of a turn, in fractions of `2 ^ -192`. -/
def Turn.sine (t : Turn) : Int :=
  match t.quarter % 4 with
  | 0 => sineSeries t.remainder
  | 1 => cosineSeries t.remainder
  | 2 => -sineSeries t.remainder
  | _ => -cosineSeries t.remainder

/-- Below `2 ^ -27` the cube of an angle is lost in rounding. -/
def isTiny (significand : Nat) (exponent : Int) : Bool :=
  significand = 0 || exponent + bitLength significand ≤ -27

def nan : Float := 0.0 / 0.0

def sin (x : Float) : Float :=
  match ofFloat x with
  | .finite negative significand exponent =>
    if isTiny significand exponent then x
    else ofFixed (Turn.ofFinite negative significand exponent).sine 192
  | _ => nan

def cos (x : Float) : Float :=
  match ofFloat x with
  | .finite negative significand exponent =>
    if isTiny significand exponent then 1.0
    else
      let t := Turn.ofFinite negative significand exponent
      ofFixed (Turn.sine ⟨t.quarter + 1, t.remainder⟩) 192
  | _ => nan

/-! ## Arctangents -/

/-- A number that is not negative, as `digits / 2 ^ scale`. A small one has a large scale, and so
as many leading digits as any other. -/
structure Scaled where
  digits : Nat
  scale : Nat

/-- `π / 4` in fractions of `2 ^ -160`. -/
def eighthTurn : Nat := piDigits >>> 1126

/-- The arctangent of `p / q`, which is at most `tan (π / 8)`. The smaller it is, the fewer terms
of the series reach beyond `2 ^ -160`, and 64 are always enough. -/
def arctanSeries (p q : Nat) : Scaled :=
  let scale := 160 + (bitLength q - bitLength p)
  let t := (p <<< scale) / q
  let u := (t * t) >>> (2 * scale - 160)
  let terms := min 64 (160 / (160 - bitLength u) + 1)
  ⟨(t * oddSeries u terms 0) >>> 160, scale⟩
where
  /-- `1 / (2k+1) - u / (2k+3) + …` in fractions of `2 ^ -160`. -/
  oddSeries (u : Nat) : Nat → Nat → Nat
    | 0, _ => 0
    | n + 1, k => twoTo 160 / (2 * k + 1) - (u * oddSeries u n (k + 1)) >>> 160

/-- The same number in fractions of `2 ^ -160`, rounded down. -/
def Scaled.toFixed (s : Scaled) : Nat := s.digits >>> (s.scale - 160)

/-- The arctangent of `p / q`, which is at most 1: beyond `tan (π / 8)` it is taken from an eighth
of a turn. -/
def arctanOctant (p q : Nat) : Scaled :=
  if 29 * p ≤ 12 * q then arctanSeries p q
  else ⟨eighthTurn - (arctanSeries (q - p) (q + p)).toFixed, 160⟩

/-- The angle of the point `(x, y)` in the first quadrant. -/
def arctanQuadrant (y x : Nat) : Scaled :=
  if y ≤ x then arctanOctant y x
  else ⟨2 * eighthTurn - (arctanOctant x y).toFixed, 160⟩

/-- The angle of the point `(±x, y)` in the upper half plane. -/
def arctanHalfPlane (y : Nat) (leftward : Bool) (x : Nat) : Scaled :=
  if leftward then ⟨4 * eighthTurn - (arctanQuadrant y x).toFixed, 160⟩ else arctanQuadrant y x

/-- The double nearest to a number, with a sign. -/
def Scaled.toFloat (negative : Bool) (s : Scaled) : Float :=
  nearest negative s.digits (-(s.scale : Int))

/-- The angle of the point `(x, y)` as seen from the origin, above `-π` and up to `π`. An infinite
coordinate counts as far larger than any finite one, and a zero keeps its sign. -/
def atan2 (y x : Float) : Float :=
  match ofFloat y, ofFloat x with
  | .nan, _ | _, .nan => nan
  | .infinite down, .infinite left => (arctanHalfPlane 1 left 1).toFloat down
  | .infinite down, .finite .. => (arctanHalfPlane 1 false 0).toFloat down
  | .finite down _ _, .infinite left => (arctanHalfPlane 0 left 1).toFloat down
  | .finite down m e, .finite left n f =>
    if m = 0 ∧ n = 0 then (arctanHalfPlane 0 left 1).toFloat down
    else
      let low := min e f
      let up := m <<< (e - low).toNat
      let across := n <<< (f - low).toNat
      (arctanHalfPlane up left across).toFloat down

/-- The whole part of the square root of `n`, by Newton's steps from above. -/
def squareRoot (n : Nat) : Nat :=
  descend (n.log2 + 2) (twoTo (n.log2 / 2 + 1))
where
  descend : Nat → Nat → Nat
    | 0, guess => guess
    | fuel + 1, guess =>
      let next := (guess + n / guess) / 2
      if next < guess then descend fuel next else guess

/-- The angle whose sine is `x`: the angle of the point `(√(1 - x²), x)`. -/
def asin (x : Float) : Float :=
  match ofFloat x with
  | .finite negative significand exponent =>
    if isTiny significand exponent then x
    else if 1.0 < x ∨ x < -1.0 then nan
    else
      let up := significand * twoTo (exponent + 160).toNat
      (arctanQuadrant up (squareRoot (twoTo 320 - up * up))).toFloat negative
  | _ => nan

end TransitShapes.Elementary

namespace TransitShapes

/-! ## The scalars -/

def Binary64.total (x y : Float) : Ordering := compare (rank x) (rank y)

instance : Std.TransCmp Binary64.total :=
  inferInstanceAs (Std.TransCmp (compareOn Binary64.rank))

instance : Scalar Float where
  decidableLT := inferInstance
  decidableLE := inferInstance
  isFinite x := match Binary64.ofFloat x with | .finite .. => true | _ => false
  sqrt := Float.sqrt
  sin := Elementary.sin
  cos := Elementary.cos
  asin := Elementary.asin
  atan2 := Elementary.atan2
  pi := 3.141592653589793
  cellFloor := Binary64.floor
  total := Binary64.total
  total_trans := inferInstance

end TransitShapes
