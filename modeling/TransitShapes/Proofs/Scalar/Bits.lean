import Mathlib
import TransitShapes.Proofs.Scalar.Rounding
import TransitShapes.Scalar.Double

/-! # Doubles and their bits

A double is read from its bits and written back to them. The bits without the sign count the doubles
from zero up, so comparing doubles is comparing whole numbers.
-/

namespace TransitShapes.Binary64

open Float.Model Float.Model.UnpackedFloat

/-! ## Fields -/

theorem toNat_unpackExponent (b : BitVec 64) :
    (@unpackExponent Format.binary64 b).toNat = b.toNat / 2 ^ 52 % 2 ^ 11 := by
  rw [unpackExponent_def, BitVec.extractLsb'_toNat, Nat.shiftRight_eq_div_pow]

theorem toNat_unpackMantissa (b : BitVec 64) :
    (@unpackMantissa Format.binary64 b).toNat = b.toNat % 2 ^ 52 := by
  rw [unpackMantissa_def, BitVec.extractLsb'_toNat, Nat.shiftRight_zero]

theorem toNat_unpackSign (b : BitVec 64) :
    (@unpackSign Format.binary64 b).toNat = b.toNat / 2 ^ 63 := by
  rw [unpackSign_def, BitVec.extractLsb'_toNat, Nat.shiftRight_eq_div_pow]
  exact Nat.mod_eq_of_lt (Nat.div_lt_of_lt_mul b.isLt)

theorem ofBitVec_unpackSign (b : BitVec 64) :
    Sign.ofBitVec (@unpackSign Format.binary64 b) =
      if b.toNat < 2 ^ 63 then .positive else .negative := by
  have hzero : @unpackSign Format.binary64 b = 0#1 ↔ b.toNat < 2 ^ 63 := by
    rw [← BitVec.toNat_inj, toNat_unpackSign, BitVec.toNat_zero]
    omega
  unfold Sign.ofBitVec
  simp only [hzero]

theorem toNat_packComponents (s : Sign) (e : BitVec 11) (m : BitVec 52) :
    (packComponents Format.binary64 s e m).toNat =
      s.toBitVec.toNat * 2 ^ 63 + e.toNat * 2 ^ 52 + m.toNat := by
  unfold packComponents
  rw [BitVec.toNat_append, BitVec.toNat_append, ← Nat.shiftLeft_add_eq_or_of_lt m.isLt,
    ← Nat.shiftLeft_add_eq_or_of_lt e.isLt, Nat.shiftLeft_eq, Nat.shiftLeft_eq]
  omega

/-! ## Reading a double -/

/-- The bits of the one double that is not a number. -/
def nanBits : Nat := 0x7ff8000000000000

theorem infiniteBits_lt_nanBits : infiniteBits < nanBits := by decide

/-- What an unpacked double says about the sign and the other bits that it was read from. A finite
one is `m · 2 ^ t` times the smallest double. -/
inductive Reads : Sign → Nat → UnpackedFloat → Prop where
  | zero {s : Sign} : Reads s 0 (.zero s)
  | finite {s : Sign} {k m t : Nat} {e : Int} (hm : 0 < m) :
      m < 2 ^ 53 → (2 ^ 52 ≤ m ∨ t = 0) → e = (t : Int) - 1074 → k = t * 2 ^ 52 + m →
      k < infiniteBits → Reads s k (.finite s m e hm)
  | infinite {s : Sign} : Reads s infiniteBits (.infinity s)
  | nan : Reads .positive nanBits .notANumber

/-- The sign of a double. -/
def signOf (x : Float) : Sign := if x.toBits.toNat < 2 ^ 63 then .positive else .negative

/-- The bits of a double without its sign. -/
def magnitude (x : Float) : Nat := x.toBits.toNat % 2 ^ 63

theorem reads_unpack (x : Float) : Reads (signOf x) (magnitude x) x.toModel.unpack := by
  have hbits : x.toBits.toNat = x.toModel.toBits.toBitVec.toNat := rfl
  have hvalid := x.toModel.valid.eq_packedNaN
  unfold Float.Model.unpack
  generalize x.toModel.toBits.toBitVec = b at hbits hvalid
  have hlt := b.isLt
  have hsign : Sign.ofBitVec (@unpackSign Format.binary64 b) = signOf x := by
    rw [ofBitVec_unpackSign]
    unfold signOf
    rw [hbits]
  have hmagnitude : magnitude x = b.toNat / 2 ^ 52 % 2 ^ 11 * 2 ^ 52 + b.toNat % 2 ^ 52 := by
    unfold magnitude
    rw [hbits]
    omega
  rw [← toNat_unpackExponent, ← toNat_unpackMantissa] at hmagnitude
  simp only [UnpackedFloat.unpack, hsign]
  rw [hmagnitude]
  have he : (@unpackExponent Format.binary64 b).toNat < 2 ^ 11 := BitVec.isLt _
  have hm : (@unpackMantissa Format.binary64 b).toNat < 2 ^ 52 := BitVec.isLt _
  have hbias : Format.binary64.exponentBias = 1023 := rfl
  split
  case isTrue htop =>
    have htop' : (@unpackExponent Format.binary64 b).toNat = 2047 := congrArg BitVec.toNat htop
    split
    case isTrue hzero =>
      rw [htop', congrArg BitVec.toNat hzero]
      exact .infinite
    case isFalse hne =>
      -- of all the bits that stand for no number, only one pattern is a double
      have hpacked : x.toBits.toNat = nanBits := by
        rw [hbits, hvalid htop hne]
        rfl
      have hsigned : signOf x = .positive := by
        unfold signOf
        rw [hpacked]
        rfl
      rw [hsigned, ← hmagnitude]
      unfold magnitude
      rw [hpacked]
      exact .nan
  case isFalse htop =>
    have hlow : (@unpackExponent Format.binary64 b).toNat ≠ 2047 :=
      fun h => htop (BitVec.eq_of_toNat_eq h)
    split
    case isTrue hzero =>
      have hzero' : (@unpackExponent Format.binary64 b).toNat = 0 := congrArg BitVec.toNat hzero
      split
      case isTrue hnone =>
        rw [hzero', congrArg BitVec.toNat hnone]
        exact .zero
      case isFalse =>
        refine .finite (t := 0) _ (by omega) (Or.inr rfl) (by omega) (by omega) ?_
        unfold infiniteBits
        omega
    case isFalse hne =>
      have hpos : 0 < (@unpackExponent Format.binary64 b).toNat := by
        rw [Nat.pos_iff_ne_zero]
        exact fun h => hne (BitVec.eq_of_toNat_eq h)
      have himplicit : (1#1 ++ @unpackMantissa Format.binary64 b).toNat =
          2 ^ 52 + (@unpackMantissa Format.binary64 b).toNat := by
        rw [BitVec.toNat_append, ← Nat.shiftLeft_add_eq_or_of_lt hm]
        rfl
      refine .finite (t := (@unpackExponent Format.binary64 b).toNat - 1) _ (by omega) (by omega)
        (by omega) (by omega) ?_
      unfold infiniteBits
      omega

/-! ## Writing a double -/

theorem toNat_pack_finite {s : Sign} {m t : Nat} (hm : 0 < m) (hlt : m < 2 ^ 53)
    (hor : 2 ^ 52 ≤ m ∨ t = 0) :
    (UnpackedFloat.pack Format.binary64 (.finite s m ((t : Int) - 1074) hm)).toNat =
      s.toBitVec.toNat * 2 ^ 63 + min (t * 2 ^ 52 + m) infiniteBits := by
  have hbiased : ((t : Int) - 1074 + Format.binary64.exponentBias + (52 : Nat)).toNat = t + 1 := by
    have : Format.binary64.exponentBias = 1023 := rfl
    omega
  have hbits : Format.binary64.mantissaBits = 53 := rfl
  simp only [UnpackedFloat.pack, hbiased, hbits]
  unfold infiniteBits
  split
  case isTrue hbig =>
    have hpacked := toNat_packComponents s (-1#11) 0
    unfold packedInfinity
    rw [hpacked]
    change _ + 2047 * 2 ^ 52 + 0 = _
    omega
  case isFalse hsmall =>
    split
    case isTrue hnormal =>
      have hge : 2 ^ 52 ≤ m := (Nat.le_log2 (by omega)).mp (by omega)
      rw [toNat_packComponents, BitVec.toNat_ofNat, BitVec.toNat_ofNat]
      omega
    case isFalse hsubnormal =>
      have hlow : m < 2 ^ 52 := by
        by_contra hge
        have h1 := (Nat.le_log2 (by omega)).mpr (Nat.le_of_not_lt hge)
        have h2 := (Nat.log2_lt (by omega)).mpr hlt
        omega
      rw [toNat_packComponents, BitVec.toNat_ofNat, BitVec.toNat_ofNat]
      omega

/-- Not a number, or with a plus sign. -/
def Positive : UnpackedFloat → Prop
  | .notANumber => True
  | .infinity s | .zero s | .finite s _ _ _ => s = .positive

theorem toNat_pack_lt {u : UnpackedFloat} (h : Positive u) :
    (UnpackedFloat.pack Format.binary64 u).toNat < 2 ^ 63 := by
  have hcomponents : ∀ (e : BitVec 11) (m : BitVec 52),
      (packComponents Format.binary64 .positive e m).toNat < 2 ^ 63 := by
    intro e m
    rw [toNat_packComponents]
    change 0 * 2 ^ 63 + _ + _ < _
    omega
  cases u with
  | notANumber => exact hcomponents _ _
  | infinity s => cases h; exact hcomponents _ _
  | zero s => cases h; exact hcomponents _ _
  | finite s m e hm =>
    cases h
    simp only [UnpackedFloat.pack]
    split
    · exact hcomponents _ _
    · split
      · exact hcomponents _ _
      · exact hcomponents _ _

/-! ## Comparing doubles -/

theorem compare_finite {m n t r : Nat} (hm : m < 2 ^ 53) (hn : n < 2 ^ 53)
    (hmt : 2 ^ 52 ≤ m ∨ t = 0) (hnr : 2 ^ 52 ≤ n ∨ r = 0) :
    (compare ((t : Int) - 1074) ((r : Int) - 1074)).then (compare m n) =
      compare ((t * 2 ^ 52 + m : Nat) : Int) ((r * 2 ^ 52 + n : Nat) : Int) := by
  rcases Nat.lt_trichotomy t r with h | rfl | h
  · rw [Int.compare_eq_lt.mpr (by omega : (t : Int) - 1074 < r - 1074),
      Int.compare_eq_lt.mpr (by omega)]
    rfl
  · rw [Int.compare_eq_eq.mpr rfl, Ordering.eq_then]
    rcases Nat.lt_trichotomy m n with h | rfl | h
    · rw [Nat.compare_eq_lt.mpr h, Int.compare_eq_lt.mpr (by omega)]
    · rw [Nat.compare_eq_eq.mpr rfl, Int.compare_eq_eq.mpr rfl]
    · rw [Nat.compare_eq_gt.mpr h, Int.compare_eq_gt.mpr (by omega)]
  · rw [Int.compare_eq_gt.mpr (by omega : (r : Int) - 1074 < t - 1074),
      Int.compare_eq_gt.mpr (by omega)]
    rfl

theorem compare_of_reads {s₁ s₂ : Sign} {k₁ k₂ : Nat} {u v : UnpackedFloat} (hu : Reads s₁ k₁ u)
    (hv : Reads s₂ k₂ v) (hk₁ : k₁ ≤ infiniteBits) (hk₂ : k₂ ≤ infiniteBits) :
    u.compare v = some (compare (s₁.apply k₁) (s₂.apply k₂)) := by
  have hlt : ∀ {a b : Int}, a < b → some Ordering.lt = some (compare a b) :=
    fun h => congrArg some (Int.compare_eq_lt.mpr h).symm
  have heq : ∀ {a b : Int}, a = b → some Ordering.eq = some (compare a b) :=
    fun h => congrArg some (Int.compare_eq_eq.mpr h).symm
  have hgt : ∀ {a b : Int}, b < a → some Ordering.gt = some (compare a b) :=
    fun h => congrArg some (Int.compare_eq_gt.mpr h).symm
  have hinfinite : 0 < infiniteBits := by decide
  cases hu with
  | nan => exact absurd hk₁ (by decide)
  | zero =>
    cases hv with
    | nan => exact absurd hk₂ (by decide)
    | zero => cases s₁ <;> cases s₂ <;> exact heq rfl
    | finite | infinite =>
      cases s₁ <;> cases s₂ <;>
        first
        | exact hlt (by simp only [Sign.apply]; omega)
        | exact hgt (by simp only [Sign.apply]; omega)
  | infinite =>
    cases hv with
    | nan => exact absurd hk₂ (by decide)
    | zero | finite | infinite =>
      cases s₁ <;> cases s₂ <;>
        first
        | exact hlt (by simp only [Sign.apply]; omega)
        | exact hgt (by simp only [Sign.apply]; omega)
        | exact heq rfl
  | finite _ hm hmt he hk =>
    cases hv with
    | nan => exact absurd hk₂ (by decide)
    | zero | infinite =>
      cases s₁ <;> cases s₂ <;>
        first
        | exact hlt (by simp only [Sign.apply]; omega)
        | exact hgt (by simp only [Sign.apply]; omega)
    | finite _ hn hnr hf hl =>
      subst he hf hk hl
      have hsame := compare_finite hm hn hmt hnr
      cases s₁ <;> cases s₂
      · refine (congrArg (some ∘ Ordering.swap) hsame).trans (congrArg some ?_)
        rw [Int.compare_swap, Int.compare_eq_ite_lt, Int.compare_eq_ite_lt]
        simp only [Sign.apply, Int.neg_lt_neg_iff]
      · exact hlt (by simp only [Sign.apply]; omega)
      · exact hgt (by simp only [Sign.apply]; omega)
      · exact congrArg some hsame

/-! ## The order of doubles -/

/-- Where a double stands among the numbers; zeros of both signs stand together. -/
def position (x : Float) : Int := (signOf x).apply (magnitude x)

theorem Reads.le_infiniteBits {s : Sign} {k : Nat} {u : UnpackedFloat} (h : Reads s k u)
    (hu : u ≠ .notANumber) : k ≤ infiniteBits := by
  cases h with
  | zero => exact Nat.zero_le _
  | finite _ _ _ _ _ hlt => exact Nat.le_of_lt hlt
  | infinite => exact Nat.le_refl _
  | nan => exact absurd rfl hu

theorem magnitude_le_of_compare {x y : Float} {o : Ordering}
    (h : x.toModel.unpack.compare y.toModel.unpack = some o) :
    magnitude x ≤ infiniteBits ∧ magnitude y ≤ infiniteBits := by
  refine ⟨(reads_unpack x).le_infiniteBits fun hx => ?_,
    (reads_unpack y).le_infiniteBits fun hy => ?_⟩
  · rw [hx] at h
    cases h
  · have hnone : ∀ u : UnpackedFloat, u.compare .notANumber = none := fun u => by cases u <;> rfl
    rw [hy, hnone] at h
    cases h

theorem le_iff (x y : Float) : x ≤ y ↔ (magnitude x ≤ infiniteBits ∧ magnitude y ≤ infiniteBits) ∧
    position x ≤ position y := by
  have hle : x ≤ y ↔ (x.toModel.unpack.compare y.toModel.unpack).any Ordering.isLE := by
    change decide (_ = true) = true ↔ _
    rw [decide_eq_true_iff]
    rfl
  rw [hle, Option.any_eq_true]
  constructor
  · rintro ⟨o, ho, hole⟩
    obtain ⟨hx, hy⟩ := magnitude_le_of_compare ho
    rw [compare_of_reads (reads_unpack x) (reads_unpack y) hx hy] at ho
    cases ho
    exact ⟨⟨hx, hy⟩, Int.isLE_compare.mp hole⟩
  · rintro ⟨⟨hx, hy⟩, hxy⟩
    exact ⟨_, compare_of_reads (reads_unpack x) (reads_unpack y) hx hy, Int.isLE_compare.mpr hxy⟩

theorem lt_iff (x y : Float) : x < y ↔ (magnitude x ≤ infiniteBits ∧ magnitude y ≤ infiniteBits) ∧
    position x < position y := by
  have hlt : x < y ↔ x.toModel.unpack.compare y.toModel.unpack = some .lt := by
    change decide (_ = true) = true ↔ _
    rw [decide_eq_true_iff]
    exact beq_iff_eq
  rw [hlt]
  constructor
  · intro ho
    obtain ⟨hx, hy⟩ := magnitude_le_of_compare ho
    rw [compare_of_reads (reads_unpack x) (reads_unpack y) hx hy] at ho
    exact ⟨⟨hx, hy⟩, Int.compare_eq_lt.mp (Option.some.inj ho)⟩
  · rintro ⟨⟨hx, hy⟩, hxy⟩
    rw [compare_of_reads (reads_unpack x) (reads_unpack y) hx hy]
    exact congrArg some (Int.compare_eq_lt.mpr hxy)

theorem ofFloat_eq_nan_iff (x : Float) : ofFloat x = .nan ↔ infiniteBits < magnitude x := by
  have hlt := x.toBits.toNat_lt
  unfold ofFloat magnitude infiniteBits
  simp only [Nat.shiftRight_eq_div_pow, twoTo_eq]
  split
  · split
    · simp only [reduceCtorEq, false_iff]
      omega
    · simp only [true_iff]
      omega
  · split <;> simp only [reduceCtorEq, false_iff] <;> omega

theorem rank_eq (x : Float) : rank x =
    if x.toBits.toNat < 2 ^ 63 then (magnitude x : Int) else -1 - (magnitude x : Int) := by
  have hlt := x.toBits.toNat_lt
  unfold rank magnitude
  simp only [twoTo_eq]
  split <;> omega

theorem Reads.of_nan {s : Sign} {k : Nat} {u : UnpackedFloat} (h : Reads s k u)
    (hk : infiniteBits < k) : s = .positive ∧ k = nanBits := by
  cases h with
  | nan => exact ⟨rfl, rfl⟩
  | zero => omega
  | finite => omega
  | infinite => omega

theorem lt_of_signOf {x : Float} (h : signOf x = .positive) : x.toBits.toNat < 2 ^ 63 := by
  by_contra hge
  unfold signOf at h
  rw [if_neg hge] at h
  cases h

theorem eq_of_toBits {x y : Float} (h : x.toBits.toNat = y.toBits.toNat) : x = y :=
  Float.toBits_inj.mp (UInt64.toNat_inj.mp h)

/-- No two doubles stand at one place. -/
theorem rank_injective {x y : Float} (h : rank x = rank y) : x = y := by
  apply eq_of_toBits
  have hx := x.toBits.toNat_lt
  have hy := y.toBits.toNat_lt
  rw [rank_eq, rank_eq] at h
  unfold magnitude at h
  split at h <;> split at h <;> omega

end TransitShapes.Binary64
