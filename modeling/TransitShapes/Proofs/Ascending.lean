import Mathlib.Data.List.Forall2
import TransitShapes.Ascending

/-! # What the sorted lists hold -/

namespace TransitShapes.Ascending

/-! ## Numbers, each once -/

theorem mem_insertNew {n k : Nat} {numbers : List Nat} :
    k ∈ insertNew n numbers ↔ k = n ∨ k ∈ numbers := by
  induction numbers with
  | nil => simp [insertNew]
  | cons m rest ih =>
    unfold insertNew
    split
    · exact List.mem_cons
    · split
      · rename_i h
        rw [h, List.mem_cons, ← or_assoc, or_self]
      · rw [List.mem_cons, ih, List.mem_cons, or_left_comm]

theorem insertNew_sorted {n : Nat} {numbers : List Nat} (h : numbers.Pairwise (· < ·)) :
    (insertNew n numbers).Pairwise (· < ·) := by
  induction numbers with
  | nil => simp [insertNew]
  | cons m rest ih =>
    obtain ⟨hm, hrest⟩ := List.pairwise_cons.mp h
    unfold insertNew
    split
    case isTrue hlt =>
      refine List.pairwise_cons.mpr ⟨fun k hk => ?_, h⟩
      rcases List.mem_cons.mp hk with rfl | hk
      · exact hlt
      · exact Nat.lt_trans hlt (hm k hk)
    case isFalse hnlt =>
      split
      · exact h
      · refine List.pairwise_cons.mpr ⟨fun k hk => ?_, ih hrest⟩
        rcases mem_insertNew.mp hk with rfl | hk
        · omega
        · exact hm k hk

theorem mem_distinct {k : Nat} {numbers : List Nat} : k ∈ distinct numbers ↔ k ∈ numbers := by
  unfold distinct
  induction numbers with
  | nil => rfl
  | cons n rest ih => rw [List.foldr_cons, mem_insertNew, ih, List.mem_cons]

theorem distinct_sorted (numbers : List Nat) : (distinct numbers).Pairwise (· < ·) := by
  unfold distinct
  induction numbers with
  | nil => exact List.Pairwise.nil
  | cons n rest ih => exact insertNew_sorted ih

/-! ## Values in any order -/

variable {α : Type} {cmp : α → α → Ordering}

theorem insert_perm (a : α) (values : List α) : (insert cmp a values).Perm (a :: values) := by
  induction values with
  | nil => exact .refl _
  | cons b rest ih =>
    unfold insert
    split
    · exact (ih.cons b).trans (.swap a b rest)
    · exact .refl _

theorem insert_sorted [Std.TransCmp cmp] {a : α} {values : List α}
    (h : values.Pairwise fun x y => (cmp x y).isLE) :
    (insert cmp a values).Pairwise fun x y => (cmp x y).isLE := by
  induction values with
  | nil => simp [insert]
  | cons b rest ih =>
    obtain ⟨hb, hrest⟩ := List.pairwise_cons.mp h
    unfold insert
    split
    case isTrue hgt =>
      refine List.pairwise_cons.mpr ⟨fun x hx => ?_, ih hrest⟩
      rcases List.mem_cons.mp ((insert_perm a rest).mem_iff.mp hx) with rfl | hx
      · rw [Std.OrientedCmp.gt_iff_lt.mp hgt]
        rfl
      · exact hb x hx
    case isFalse hngt =>
      have hab : (cmp a b).isLE := Ordering.isLE_iff_ne_gt.mpr hngt
      refine List.pairwise_cons.mpr ⟨fun x hx => ?_, h⟩
      rcases List.mem_cons.mp hx with rfl | hx
      · exact hab
      · exact Std.TransCmp.isLE_trans hab (hb x hx)

theorem taken_sorted [Std.TransCmp cmp] {taken left right : List α} {a b : α}
    (hab : (cmp a b).isLE) (hleft : (taken.reverse ++ a :: left).Pairwise fun x y => (cmp x y).isLE)
    (hright : (taken.reverse ++ b :: right).Pairwise fun x y => (cmp x y).isLE) :
    ((a :: taken).reverse ++ b :: right).Pairwise fun x y => (cmp x y).isLE := by
  obtain ⟨htaken, hown, hbelow⟩ := List.pairwise_append.mp hright
  obtain ⟨-, -, ha⟩ := List.pairwise_append.mp hleft
  have hb := (List.pairwise_cons.mp hown).1
  rw [List.reverse_cons, List.append_assoc, List.singleton_append]
  refine List.pairwise_append.mpr ⟨htaken, List.pairwise_cons.mpr ⟨fun y hy => ?_, hown⟩, ?_⟩
  · rcases List.mem_cons.mp hy with rfl | hy
    · exact hab
    · exact Std.TransCmp.isLE_trans hab (hb y hy)
  · intro x hx y hy
    rcases List.mem_cons.mp hy with rfl | hy
    · exact ha x hx y List.mem_cons_self
    · exact hbelow x hx y hy

theorem mergeOnto_sorted [Std.TransCmp cmp] {fuel : Nat} {taken left right : List α}
    (hfuel : left.length + right.length ≤ fuel)
    (hleft : (taken.reverse ++ left).Pairwise fun x y => (cmp x y).isLE)
    (hright : (taken.reverse ++ right).Pairwise fun x y => (cmp x y).isLE) :
    (mergeOnto cmp fuel taken left right).Pairwise fun x y => (cmp x y).isLE := by
  -- What is taken stays below both lists.
  fun_induction mergeOnto cmp fuel taken left right with
  | case1 fuel taken a left b right hgt ih =>
    have hba : (cmp b a).isLE := Ordering.isLE_of_eq_lt (Std.OrientedCmp.gt_iff_lt.mp hgt)
    simp only [List.length_cons] at hfuel ih
    refine ih (by omega) (taken_sorted hba hright hleft) ?_
    rw [List.reverse_cons, List.append_assoc]
    exact hright
  | case2 fuel taken a left b right hngt ih =>
    have hab : (cmp a b).isLE := Ordering.isLE_iff_ne_gt.mpr hngt
    simp only [List.length_cons] at hfuel ih
    refine ih (by omega) ?_ (taken_sorted hab hleft hright)
    rw [List.reverse_cons, List.append_assoc]
    exact hleft
  | case3 fuel taken left right hend =>
    -- One of the two lists is used up before the fuel is.
    rw [List.reverseAux_eq]
    cases left with
    | nil => exact hright
    | cons a left =>
      cases right with
      | nil =>
        rw [List.append_nil]
        exact hleft
      | cons b right =>
        cases fuel with
        | zero => simp at hfuel
        | succ fuel => exact (hend fuel a left b right rfl rfl rfl).elim

theorem sortHalves_sorted [Std.TransCmp cmp] {depth : Nat} {values : List α}
    (hdepth : values.length ≤ depth) :
    (sortHalves cmp depth values).Pairwise fun x y => (cmp x y).isLE := by
  fun_induction sortHalves cmp depth values with
  | case1 values =>
    rw [List.eq_nil_of_length_eq_zero (Nat.le_zero.mp hdepth)]
    exact .nil
  | case2 depth values size hsize =>
    cases values with
    | nil => exact .nil
    | cons a rest =>
      have hrest : rest = [] := by
        apply List.eq_nil_of_length_eq_zero
        simp only [size, List.length_cons] at hsize
        omega
      rw [hrest]
      exact List.pairwise_singleton ..
  | case3 depth values size hsize ihfirst ihsecond =>
    apply mergeOnto_sorted
    · rw [(sortHalves_perm ..).length_eq, (sortHalves_perm ..).length_eq, List.length_take,
        List.length_drop]
      omega
    · exact ihfirst (by rw [List.length_take]; omega)
    · exact ihsecond (by rw [List.length_drop]; omega)

theorem sort_sorted (cmp : α → α → Ordering) [Std.TransCmp cmp] (values : List α) :
    (sort cmp values).Pairwise fun x y => (cmp x y).isLE :=
  sortHalves_sorted (Nat.le_refl _)

/-! ## Lists that are sorted side by side -/

section
variable {β : Type} {cmp' : β → β → Ordering} {r : α → β → Prop}

theorem forall₂_mergeOnto (hcmp : ∀ ⦃a b x y⦄, r a x → r b y → cmp a b = cmp' x y) {fuel : Nat}
    {taken left right : List α} {taken' left' right' : List β}
    (htaken : List.Forall₂ r taken taken') (hleft : List.Forall₂ r left left')
    (hright : List.Forall₂ r right right') :
    List.Forall₂ r (mergeOnto cmp fuel taken left right)
      (mergeOnto cmp' fuel taken' left' right') := by
  fun_induction mergeOnto cmp fuel taken left right generalizing taken' left' right' with
  | case1 fuel taken a left b right hgt ih =>
    cases hleft with
    | cons ha hleft =>
      cases hright with
      | cons hb hright =>
        rw [hcmp ha hb] at hgt
        rw [mergeOnto, if_pos hgt]
        exact ih (.cons hb htaken) (.cons ha hleft) hright
  | case2 fuel taken a left b right hngt ih =>
    cases hleft with
    | cons ha hleft =>
      cases hright with
      | cons hb hright =>
        rw [hcmp ha hb] at hngt
        rw [mergeOnto, if_neg hngt]
        exact ih (.cons ha htaken) hleft (.cons hb hright)
  | case3 fuel taken left right hend =>
    have hsame : mergeOnto cmp' fuel taken' left' right' = taken'.reverseAux (left' ++ right') := by
      cases hleft with
      | nil => simp [mergeOnto]
      | cons ha hleft =>
        cases hright with
        | nil => simp [mergeOnto]
        | cons hb hright =>
          cases fuel with
          | zero => simp [mergeOnto]
          | succ fuel => exact (hend _ _ _ _ _ rfl rfl rfl).elim
    rw [hsame, List.reverseAux_eq, List.reverseAux_eq]
    exact List.rel_append (List.rel_reverse htaken) (List.rel_append hleft hright)

theorem forall₂_sortHalves (hcmp : ∀ ⦃a b x y⦄, r a x → r b y → cmp a b = cmp' x y) {depth : Nat}
    {values : List α} {values' : List β} (h : List.Forall₂ r values values') :
    List.Forall₂ r (sortHalves cmp depth values) (sortHalves cmp' depth values') := by
  induction depth generalizing values values' with
  | zero => exact h
  | succ depth ih =>
    unfold sortHalves
    simp only [h.length_eq]
    split
    · exact h
    · exact forall₂_mergeOnto hcmp .nil (ih (List.forall₂_take _ h)) (ih (List.forall₂_drop _ h))

theorem forall₂_sort (hcmp : ∀ ⦃a b x y⦄, r a x → r b y → cmp a b = cmp' x y) {values : List α}
    {values' : List β} (h : List.Forall₂ r values values') :
    List.Forall₂ r (sort cmp values) (sort cmp' values') := by
  unfold sort
  rw [← h.length_eq]
  exact forall₂_sortHalves hcmp h

end

end TransitShapes.Ascending
