import TransitShapes.Proofs.Scalar.Product

/-! # Operations that keep the order of doubles

Adding a finite value, taking one away and multiplying by one above zero are rounded monotone
functions of units, and leave an infinite double where it is. A quotient keeps the sign of what is
divided, and a floor is a quotient of units.
-/

namespace TransitShapes.Binary64

open Float.Model Float.Model.UnpackedFloat

/-! ## Order -/

section
variable {x y : Float}

/-- A map that leaves infinite doubles where they are, and is a rounded monotone function of the
finite ones, keeps the order. -/
theorem le_of_rounded {f : Float → Float} {g : Int → Int} {s : Nat}
    (hg : ∀ {a b}, a ≤ b → g a ≤ g b)
    (hfinite : ∀ {x}, Scalar.isFinite x → position (f x) = roundSigned s (g (amount (position x))))
    (hinfinite : ∀ {x}, ¬ Scalar.IsNaN x → ¬ Scalar.isFinite x → position (f x) = position x)
    (h : x ≤ y) : f x ≤ f y := by
  obtain ⟨hnx, hny⟩ := Scalar.LawfulOrder.isNumber_of_le h
  have hbound : ∀ {z}, Scalar.isFinite z → (position (f z)).natAbs ≤ infiniteBits := by
    intro z hz
    rw [hfinite hz]
    exact natAbs_roundSigned_le _ _
  -- No rounded value stands beyond an infinite one.
  rw [le_iff_position] at h ⊢
  by_cases hx : Scalar.isFinite x
  · have hfx := hbound hx
    by_cases hy : Scalar.isFinite y
    · refine ⟨⟨hfx, hbound hy⟩, ?_⟩
      rw [hfinite hx, hfinite hy]
      exact roundSigned_mono (hg (amount_mono h.1.1 h.1.2 h.2))
    · have hbits := natAbs_position_of_infinite hny hy
      rw [isFinite_iff] at hx
      rw [hinfinite hny hy]
      omega
  · have hbits := natAbs_position_of_infinite hnx hx
    rw [hinfinite hnx hx]
    by_cases hy : Scalar.isFinite y
    · have hfy := hbound hy
      rw [isFinite_iff] at hy
      omega
    · rw [hinfinite hny hy]
      exact h

theorem amount_pos (h : 0.0 < x) : 0 < amount (position x) := by
  have hle := position_nonneg_iff.mp (Scalar.le_of_lt h)
  rw [lt_iff, position_zero] at h
  by_contra hnot
  have hmono : roundSigned 0 (amount (position x)) ≤ roundSigned 0 0 :=
    roundSigned_mono (Int.not_lt.mp hnot)
  rw [roundSigned_amount hle.1] at hmono
  exact absurd h.2 (Int.not_lt.mpr hmono)

theorem position_neg (hx : ¬ Scalar.IsNaN x) : position (-x) = -position x := by
  have hk : magnitude x ≤ infiniteBits := by rwa [isNaN_iff, Nat.not_lt] at hx
  have hneg := place_of_reads ((reads_unpack x).neg hk) hk
  rw [apply_neg] at hneg
  exact hneg

theorem le_add_of_nonneg (hx : ¬ Scalar.IsNaN x) (hy : Scalar.isFinite y) (h : 0.0 ≤ y) :
    x ≤ x + y := by
  have hpos := amount_nonneg (position_nonneg_iff.mp h).2
  have hbits := (isNumber_iff x).mp hx
  rw [le_iff_position]
  by_cases hfinite : Scalar.isFinite x
  · rw [position_add hfinite hy]
    refine ⟨⟨hbits, natAbs_roundSigned_le _ _⟩, ?_⟩
    calc position x = roundSigned 0 (amount (position x)) := (roundSigned_amount hbits).symm
      _ ≤ roundSigned 0 (amount (position x) + amount (position y)) :=
        roundSigned_mono (Int.le_add_of_nonneg_right hpos)
  · rw [position_add_of_infinite hx hfinite hy]
    exact ⟨⟨hbits, hbits⟩, Int.le_refl _⟩

theorem sub_le_of_nonneg (hx : ¬ Scalar.IsNaN x) (hy : Scalar.isFinite y) (h : 0.0 ≤ y) :
    x - y ≤ x := by
  have hpos := amount_nonneg (position_nonneg_iff.mp h).2
  have hbits := (isNumber_iff x).mp hx
  rw [le_iff_position]
  by_cases hfinite : Scalar.isFinite x
  · rw [position_sub hfinite hy]
    refine ⟨⟨natAbs_roundSigned_le _ _, hbits⟩, ?_⟩
    calc roundSigned 0 (amount (position x) - amount (position y))
        ≤ roundSigned 0 (amount (position x)) := roundSigned_mono (Int.sub_le_self _ hpos)
      _ = position x := roundSigned_amount hbits
  · rw [position_sub_of_infinite hx hfinite hy]
    exact ⟨⟨hbits, hbits⟩, Int.le_refl _⟩

end

/-! ## Quotients -/

theorem positive_div {u v : UnpackedFloat} (hu : Positive u) (hv : Positive v) :
    Positive (UnpackedFloat.div Format.binary64 u v) := by
  cases u <;> cases v <;> cases hu <;> cases hv <;>
    first
    | trivial
    | rfl
    | exact positive_roundWithAccuracy _ _ _

theorem unsigned_or_eq_of_nonneg {x : Float} (h : 0.0 ≤ x) : Scalar.Unsigned x ∨ x = -0.0 := by
  rw [unsigned_iff]
  refine (Nat.lt_or_ge _ _).imp_right fun hge => eq_of_toBits ?_
  have hzero : (-0.0 : Float).toBits.toNat = 2 ^ 63 := by decide +kernel
  have hlt := x.toBits.toNat_lt
  rw [position_nonneg_iff, position_eq, if_neg (Nat.not_lt.mpr hge)] at h
  unfold magnitude at h
  omega

theorem div_nonneg {a b : Float} (ha : 0.0 ≤ a) (hb : Scalar.Unsigned b)
    (hab : ¬ Scalar.IsNaN (a / b)) : 0.0 ≤ a / b := by
  have hpositive := positive_unpack hb
  rcases unsigned_or_eq_of_nonneg ha with hunsigned | rfl
  · have hquotient : Scalar.Unsigned (a / b) :=
      unsigned_pack (positive_div (positive_unpack hunsigned) hpositive)
    exact hquotient.nonneg hab
  · -- A negative zero over what has no minus sign is a zero again, or not a number.
    have hplace : position (-0.0 / b) =
      place (UnpackedFloat.div Format.binary64 (.zero .negative) b.toModel.unpack) := rfl
    rw [isNumber_iff, hplace] at hab
    rw [position_nonneg_iff, hplace]
    refine ⟨hab, ?_⟩
    cases b.toModel.unpack with
    | notANumber => decide +kernel
    | infinity s => exact Int.le_of_eq (place_zero _).symm
    | zero s => cases s <;> decide +kernel
    | finite s m e hm => exact Int.le_of_eq (place_zero _).symm

/-! ## Floors -/

theorem apply_signOf (x : Float) (n : Nat) :
    (signOf x).apply n = if x.toBits.toNat / 2 ^ 63 == 1 then -(n : Int) else n := by
  have hlt := x.toBits.toNat_lt
  unfold signOf
  rcases Nat.lt_or_ge x.toBits.toNat (2 ^ 63) with hplus | hminus
  · rw [if_pos hplus, if_neg (by rw [beq_iff_eq]; omega)]
    rfl
  · rw [if_neg (Nat.not_lt.mpr hminus), if_pos (by rw [beq_iff_eq]; omega)]
    rfl

theorem apply_signOf_mul {x : Float} {m t : Nat} (hm : m < 2 ^ 53) (hor : 2 ^ 52 ≤ m ∨ t = 0)
    (hsum : t * 2 ^ 52 + m = magnitude x) : (signOf x).apply m * 2 ^ t = amount (position x) := by
  have happly := apply_natCast_mul (signOf x) m (2 ^ t)
  push_cast at happly
  rw [← happly]
  unfold position
  rw [amount_apply, ← hsum, units_eq hm hor]
  push_cast
  rfl

theorem ofFloat_of_isFinite {x : Float} (h : Scalar.isFinite x) :
    ∃ (negative : Bool) (m t : Nat), ofFloat x = .finite negative m ((t : Int) - 1074) ∧
      (if negative then -(m : Int) else m) * 2 ^ t = amount (position x) := by
  have hlt := x.toBits.toNat_lt
  have hamount : ∀ m t, m < 2 ^ 53 → (2 ^ 52 ≤ m ∨ t = 0) → t * 2 ^ 52 + m = magnitude x →
      (if x.toBits.toNat / 2 ^ 63 == 1 then -(m : Int) else m) * 2 ^ t = amount (position x) := by
    intro m t hm hor hsum
    rw [← apply_signOf, apply_signOf_mul hm hor hsum]
  rw [isFinite_iff, natAbs_position] at h
  have hfield : x.toBits.toNat / 2 ^ 52 % 2048 ≠ 2047 := by
    unfold magnitude infiniteBits at h
    omega
  unfold magnitude at hamount
  unfold ofFloat
  simp only [Nat.shiftRight_eq_div_pow, twoTo_eq]
  rw [if_neg hfield]
  split
  case isTrue hzero =>
    exact ⟨_, x.toBits.toNat % 2 ^ 52, 0, rfl, hamount _ _ (by omega) (Or.inr rfl) (by omega)⟩
  case isFalse hne =>
    refine ⟨_, 2 ^ 52 + x.toBits.toNat % 2 ^ 52, x.toBits.toNat / 2 ^ 52 % 2048 - 1, ?_,
      hamount _ _ (by omega) (Or.inl (by omega)) (by omega)⟩
    congr 1
    omega

theorem floorFinite_eq (negative : Bool) (m t k : Nat) : floorFinite negative m ((t : Int) - k) =
    (if negative then -(m : Int) else m) * 2 ^ t / 2 ^ k := by
  unfold floorFinite
  simp only [twoTo_eq]
  generalize (if negative then -(m : Int) else m) = signed
  have hpow : ∀ {i j : Nat}, i ≤ j → (2 : Int) ^ j = 2 ^ (j - i) * 2 ^ i := fun h => by
    rw [← pow_add, Nat.sub_add_cancel h]
  rcases Nat.lt_or_ge t k with h | h
  · have hshift : (-((t : Int) - k)).toNat = k - t := by omega
    rw [if_neg (by omega), hshift, hpow (Nat.le_of_lt h),
      Int.mul_ediv_mul_of_pos_left _ _ (by positivity)]
    push_cast
    rfl
  · have hshift : ((t : Int) - k).toNat = t - k := by omega
    rw [if_pos (by omega), hshift, hpow h, ← Int.mul_assoc,
      Int.mul_ediv_cancel _ (by positivity)]
    push_cast
    rfl

theorem eq_of_infinite {x : Float} (hx : ¬ Scalar.IsNaN x) (hinf : ¬ Scalar.isFinite x) :
    x = 1.0 / 0.0 ∨ x = -(1.0 / 0.0) := by
  have hbits := natAbs_position_of_infinite hx hinf
  have hplus : (1.0 / 0.0 : Float).toBits.toNat = infiniteBits := by decide +kernel
  have hminus : (-(1.0 / 0.0) : Float).toBits.toNat = 2 ^ 63 + infiniteBits := by decide +kernel
  have hlt := x.toBits.toNat_lt
  rw [natAbs_position] at hbits
  unfold magnitude at hbits
  rcases Nat.lt_or_ge x.toBits.toNat (2 ^ 63) with h | h
  · exact Or.inl (eq_of_toBits (by omega))
  · exact Or.inr (eq_of_toBits (by omega))

theorem floor_eq {x : Float} (hx : ¬ Scalar.IsNaN x) :
    floor x = max (-2 ^ 63) (min (2 ^ 63 - 1) (amount (position x) / 2 ^ 1074)) := by
  by_cases hfinite : Scalar.isFinite x
  · obtain ⟨negative, m, t, hx, hamount⟩ := ofFloat_of_isFinite hfinite
    rw [← hamount, ← floorFinite_eq]
    unfold floor
    rw [hx]
    rfl
  · rcases eq_of_infinite hx hfinite with rfl | rfl <;> decide +kernel

end TransitShapes.Binary64

namespace TransitShapes

open Scalar Binary64

instance : LawfulMonotone Float where
  not_isNaN_of_isFinite {a} h := by
    rw [isFinite_iff] at h
    rw [isNumber_iff]
    omega
  isFinite_of_le hzero h hb := isFinite_of_between (by decide +kernel) hb hzero h
  neg_le {a b} h := by
    have ⟨hna, hnb⟩ := LawfulOrder.isNumber_of_le h
    have hna : ¬ IsNaN a := fun ha => hna (isNaN_of_unpack ha rfl)
    rw [le_iff_position, position_neg hna] at h
    rw [le_iff_position, position_neg hnb]
    omega
  neg_nonneg {a} h := by
    have ⟨hna, _⟩ := LawfulOrder.isNumber_of_le h
    rw [le_iff_position, position_zero] at h
    rw [position_nonneg_iff, position_neg hna]
    omega
  neg_nonpos {a} h := by
    have ⟨_, hna⟩ := LawfulOrder.isNumber_of_le h
    rw [position_nonneg_iff] at h
    rw [le_iff_position, position_neg hna, position_zero]
    omega
  add_le_add_right {a b c} hc := le_of_rounded (f := fun x => x + c)
    (fun h => Int.add_le_add_right h (amount (position c))) (fun hx => position_add hx hc)
    fun hx hinf => position_add_of_infinite hx hinf hc
  le_add ha hb hzero := le_add_of_nonneg ha hb hzero
  sub_le ha hb hzero := sub_le_of_nonneg ha hb hzero
  isNaN_sub b ha := isNaN_sub_left b ha
  mul_le_mul_right {a b c} hc hpos := le_of_rounded (f := fun x => x * c)
    (fun h => Int.mul_le_mul_of_nonneg_right h (Int.le_of_lt (amount_pos hpos)))
    (fun hx => position_mul hx hc)
    fun hx hinf => position_mul_of_infinite hx hinf hc (amount_pos hpos)

instance : LawfulQuotient Float where
  isNaN_div := Binary64.isNaN_div
  div_nonneg := Binary64.div_nonneg

instance : LawfulFloor Float where
  cellFloor_le {a b} h := by
    have ⟨hna, hnb⟩ := LawfulOrder.isNumber_of_le h
    rw [le_iff_position] at h
    change floor a ≤ floor b
    rw [floor_eq hna, floor_eq hnb]
    exact max_le_max_left _ <| min_le_min_left _ <|
      Int.ediv_le_ediv (by positivity) (amount_mono h.1.1 h.1.2 h.2)
  cellFloor_of_isNaN {a} ha := by
    change floor a = 0
    unfold floor
    rw [ofFloat_of_isNaN ha]

end TransitShapes
