import TransitShapes.Proofs.Scalar.Double

/-! # Zeros of two signs

Doubles have two zeros. Which of them an operation is given shows in the result as the sign of a
zero at most: what is added to a zero stays as it is, and a product with a zero is a zero or not a
number.
-/

namespace TransitShapes.Binary64

open Scalar Float.Model Float.Model.UnpackedFloat

/-! ## Both zeros -/

theorem isZero_iff {x : Float} : IsZero x ↔ x = 0.0 ∨ x = -0.0 := by
  constructor
  · rintro ⟨hle, hge⟩
    have hzero : position 0.0 = 0 := by decide +kernel
    have hpositive : (0.0 : Float).toBits.toNat = 0 := by decide +kernel
    have hnegative : (-0.0 : Float).toBits.toNat = 2 ^ 63 := by decide +kernel
    rw [le_iff, hzero] at hle hge
    have hposition := le_antisymm hle.2 hge.2
    have hlt := x.toBits.toNat_lt
    rw [position_eq] at hposition
    unfold magnitude at hposition
    split at hposition
    case isTrue => exact Or.inl (eq_of_toBits (by omega))
    case isFalse => exact Or.inr (eq_of_toBits (by omega))
  · rintro (rfl | rfl) <;> decide +kernel

theorem alike_iff {x y : Float} : Alike x y ↔ x = y ∨ IsZero x ∧ IsZero y := by
  have hzero : IsZero (0.0 : Float) := isZero_iff.mpr (Or.inl rfl)
  unfold Alike unsignedZero
  rw [total_eq_iff]
  split
  case isTrue hx =>
    split
    case isTrue hy => exact iff_of_true rfl (Or.inr ⟨hx, hy⟩)
    case isFalse hy =>
      refine iff_of_false (fun h => hy (h ▸ hzero)) ?_
      rintro (rfl | ⟨-, h⟩)
      · exact hy hx
      · exact hy h
  case isFalse hx =>
    split
    case isTrue hy =>
      refine iff_of_false (fun h => hx (h ▸ hzero)) ?_
      rintro (rfl | ⟨h, -⟩)
      · exact hx hy
      · exact hx h
    case isFalse => simp [hx]

/-! ## Operations on unpacked doubles -/

/-- Two unpacked doubles are the same or both zeros. -/
def SameButZero (u v : UnpackedFloat) : Prop := u = v ∨ ∃ s t, u = .zero s ∧ v = .zero t

theorem SameButZero.of_alike {x y : Float} (h : Alike x y) :
    SameButZero x.toModel.unpack y.toModel.unpack := by
  rcases alike_iff.mp h with rfl | ⟨hx, hy⟩
  · exact Or.inl rfl
  · rcases isZero_iff.mp hx with rfl | rfl <;> rcases isZero_iff.mp hy with rfl | rfl <;>
      exact Or.inr ⟨_, _, rfl, rfl⟩

theorem SameButZero.alike {u v : UnpackedFloat} (h : SameButZero u v) :
    Alike (Float.ofModel (Float.Model.pack u)) (Float.ofModel (Float.Model.pack v)) := by
  rcases h with rfl | ⟨s, t, rfl, rfl⟩
  · exact .refl _
  · refine alike_iff.mpr (Or.inr ⟨?_, ?_⟩)
    · cases s <;> decide +kernel
    · cases t <;> decide +kernel

section
variable {u v w z : UnpackedFloat}

theorem SameButZero.mul (huv : SameButZero u v) (hwz : SameButZero w z) :
    SameButZero (UnpackedFloat.mul Format.binary64 u w)
      (UnpackedFloat.mul Format.binary64 v z) := by
  rcases huv with rfl | ⟨s, t, rfl, rfl⟩ <;> rcases hwz with rfl | ⟨s', t', rfl, rfl⟩
  · exact Or.inl rfl
  · cases u with
    | notANumber | infinity => exact Or.inl rfl
    | zero | finite => exact Or.inr ⟨_, _, rfl, rfl⟩
  · cases w with
    | notANumber | infinity => exact Or.inl rfl
    | zero | finite => exact Or.inr ⟨_, _, rfl, rfl⟩
  · exact Or.inr ⟨_, _, rfl, rfl⟩

theorem sub_zero_zero (s t : Sign) :
    ∃ r, UnpackedFloat.sub Format.binary64 (.zero s) (.zero t) = .zero r := by
  cases s <;> cases t <;> exact ⟨_, rfl⟩

theorem SameButZero.of_zeros (s t s' t' : Sign) :
    SameButZero (UnpackedFloat.sub Format.binary64 (.zero s) (.zero t))
      (UnpackedFloat.sub Format.binary64 (.zero s') (.zero t')) := by
  obtain ⟨r, hr⟩ := sub_zero_zero s t
  obtain ⟨r', hr'⟩ := sub_zero_zero s' t'
  exact Or.inr ⟨r, r', hr, hr'⟩

theorem SameButZero.sub (huv : SameButZero u v) (hwz : SameButZero w z) :
    SameButZero (UnpackedFloat.sub Format.binary64 u w)
      (UnpackedFloat.sub Format.binary64 v z) := by
  rcases huv with rfl | ⟨s, t, rfl, rfl⟩ <;> rcases hwz with rfl | ⟨s', t', rfl, rfl⟩
  · exact Or.inl rfl
  · cases u with
    | notANumber | infinity | finite => exact Or.inl rfl
    | zero => exact .of_zeros ..
  · cases w with
    | notANumber | infinity | finite => exact Or.inl rfl
    | zero => exact .of_zeros ..
  · exact .of_zeros ..

end

end TransitShapes.Binary64

namespace TransitShapes

open Scalar Binary64

instance : LawfulZeros Float where
  alike_mul hab hcd := ((SameButZero.of_alike hab).mul (.of_alike hcd)).alike
  alike_sub hab hcd := ((SameButZero.of_alike hab).sub (.of_alike hcd)).alike
  mul_self_eq {a b} hab := by
    rcases alike_iff.mp hab with rfl | ⟨ha, hb⟩
    · rfl
    · rcases isZero_iff.mp ha with rfl | rfl <;> rcases isZero_iff.mp hb with rfl | rfl <;>
        decide +kernel
  exists_mul_eq {a b c} hab hac := by
    rcases alike_iff.mp hab with rfl | ⟨ha, hb⟩
    · exact ⟨c, hac, rfl⟩
    · have hc : IsZero c := (alike_iff.mp hac).elim (fun h => h ▸ ha) And.right
      -- Where `a` and `b` have different signs, the zero that is not `c` makes up for it.
      rcases isZero_iff.mp ha with rfl | rfl <;> rcases isZero_iff.mp hb with rfl | rfl <;>
        rcases isZero_iff.mp hc with rfl | rfl <;>
        first
        | exact ⟨0.0, alike_iff.mpr (Or.inr (by decide +kernel)), by decide +kernel⟩
        | exact ⟨-0.0, alike_iff.mpr (Or.inr (by decide +kernel)), by decide +kernel⟩

end TransitShapes
