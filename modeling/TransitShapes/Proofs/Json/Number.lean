import TransitShapes.Decimal.Layout
import TransitShapes.Proofs.Json.Spelling
import TransitShapes.Proofs.Scalar.Whole

/-! # Reading numbers

A number has no mark at its end: it goes on for as long as its characters do. So a reader that takes
a whole text for a number takes the same characters where a comma or a brace follows.
-/

namespace TransitShapes.Json

open Reader

variable {α β : Type} {after : List Char → Prop}

/-! ## Readers that do not look beyond the value -/

/-- What was read of a text alone is read of it before the end of a member as well. -/
def Ends (r : Reader α) : Prop :=
  ∀ length cs a left, r length cs = .ok (a, left) →
    ∀ length' rest, EndsValue rest → r length' (cs ++ rest) = .ok (a, left ++ rest)

theorem Ends.reads {r : Reader α} (hr : Ends r) {length : Nat} {cs : List Char} {a : α}
    (h : r length cs = .ok (a, [])) : Reads EndsValue r cs (.ok a) :=
  fun length' rest _ hrest => hr length cs a [] h length' rest hrest

theorem ends_pure (a : α) : Ends (pure a : Reader α) := by
  rintro _ _ _ _ ⟨⟩ _ _ _
  rfl

theorem ends_of_fails {r : Reader α} (h : ∀ length cs, ∃ cause, r length cs = .error cause) :
    Ends r := by
  intro length cs a left hok
  obtain ⟨cause, hcause⟩ := h length cs
  rw [hcause] at hok
  cases hok

theorem ends_fail (cause : Cause) : Ends (fail cause : Reader α) :=
  ends_of_fails fun _ _ => ⟨cause, rfl⟩

theorem Ends.bind {r : Reader α} {f : α → Reader β} (hr : Ends r) (hf : ∀ a, Ends (f a)) :
    Ends (r >>= f) := by
  intro length cs b left h length' rest hrest
  rw [bind_apply] at h ⊢
  cases hread : r length cs with
  | error => rw [hread] at h; cases h
  | ok found =>
    rw [hread] at h
    rw [hr length cs _ _ hread length' rest hrest]
    exact hf found.1 length found.2 b left h length' rest hrest

theorem Ends.map {r : Reader α} (f : α → β) (hr : Ends r) : Ends (f <$> r) :=
  hr.bind fun a => ends_pure (f a)

theorem Ends.ite {c : Prop} [Decidable c] {r r' : Reader α} (hr : Ends r) (hr' : Ends r') :
    Ends (if c then r else r') := by
  split
  · exact hr
  · exact hr'

theorem EndsValue.exists_cons {rest : List Char} (h : EndsValue rest) :
    ∃ d rest', rest = d :: rest' ∧ (d = ',' ∨ d = '\x7d') := by
  rcases h with h | h
  · obtain ⟨rest', rfl⟩ := List.head?_eq_some_iff.mp h
    exact ⟨_, rest', rfl, Or.inl rfl⟩
  · obtain ⟨rest', rfl⟩ := List.head?_eq_some_iff.mp h
    exact ⟨_, rest', rfl, Or.inr rfl⟩

theorem ends_accept (c : Char) (hc : c ≠ ',' ∧ c ≠ '\x7d') : Ends (accept c) := by
  intro length cs a left h length' rest hrest
  cases cs with
  | nil =>
    cases h
    obtain ⟨d, rest', rfl, hd⟩ := hrest.exists_cons
    have hne : d ≠ c := by
      rcases hd with rfl | rfl
      · exact hc.1.symm
      · exact hc.2.symm
    exact if_neg hne
  | cons d cs =>
    simp only [accept] at h
    change (if d = c then _ else _) = _
    split at h <;> cases h
    · exact if_pos ‹_›
    · exact if_neg ‹_›

theorem ends_takeWhile {p : Char → Bool} (hcomma : p ',' = false) (hbrace : p '\x7d' = false) :
    Ends (takeWhile p) := by
  rintro length cs _ _ ⟨⟩ length' rest hrest
  obtain ⟨d, rest', rfl, hd⟩ := hrest.exists_cons
  have hstop : p d = false := by
    rcases hd with rfl | rfl
    · exact hcomma
    · exact hbrace
  change Except.ok _ = Except.ok _
  induction cs with
  | nil => simp [hstop]
  | cons c cs ih =>
    simp only [Except.ok.injEq, Prod.mk.injEq] at ih
    by_cases hc : p c <;> simp [hc, ih.1, ih.2]

theorem ends_digits (atEnd : Cause) : Ends (NumberText.digits atEnd) := by
  refine .bind (ends_takeWhile (by decide) (by decide)) fun ds => ?_
  cases ds with
  | nil => exact ends_of_fails fun length cs => ⟨_, rfl⟩
  | cons d ds => exact ends_pure _

theorem ends_numberText (atEnd : Cause) : Ends (NumberText.read atEnd) := by
  have hwhole : Ends (NumberText.readWhole atEnd) :=
    (ends_digits atEnd).bind fun _ => .ite (ends_fail _) (ends_pure _)
  have hfraction : Ends (NumberText.readFraction atEnd) :=
    (ends_accept '.' (by decide)).bind fun _ => .ite ((ends_digits atEnd).map some) (ends_pure _)
  have hexponent : Ends (NumberText.readExponent atEnd) := by
    refine (ends_accept 'e' (by decide)).bind fun _ => ?_
    suffices hmarked : ∀ marked : Bool, Ends _ from
      .ite ((ends_pure _).bind hmarked) ((ends_accept 'E' (by decide)).bind hmarked)
    refine fun _ => .ite ((ends_accept '-' (by decide)).bind fun minus => ?_) (ends_pure _)
    suffices hsigned : ∀ signed : Bool, Ends _ from
      .ite ((ends_pure _).bind hsigned) ((ends_accept '+' (by decide)).bind hsigned)
    exact fun _ => (ends_digits atEnd).bind fun _ => ends_pure _
  exact (ends_accept '-' (by decide)).bind fun _ => hwhole.bind fun _ => hfraction.bind fun _ =>
    hexponent.bind fun _ => ends_pure _

theorem Number.ends_read : Ends Number.read := by
  refine (ends_numberText _).bind fun t => ?_
  split
  · exact ends_pure _
  · exact ends_fail _

/-! ## Numbers in any place -/

def StartsNumber (c : Char) : Prop := c = '-' ∨ c.isDigit = true

instance (c : Char) : Decidable (StartsNumber c) := inferInstanceAs (Decidable (_ ∨ _))

theorem StartsNumber.ne {c d : Char} (hc : StartsNumber c) (hd : ¬ StartsNumber d) : c ≠ d :=
  fun h => hd (h ▸ hc)

theorem StartsNumber.startsScalar {c : Char} (hc : StartsNumber c) : StartsScalar c := by
  refine ⟨?_, hc.ne (by decide), hc.ne (by decide)⟩
  have hspace := hc.ne (d := ' ') (by decide)
  have hline := hc.ne (d := '\n') (by decide)
  have htab := hc.ne (d := '\t') (by decide)
  have hreturn := hc.ne (d := '\r') (by decide)
  simp [isBlank, hspace, hline, htab, hreturn]

theorem StartsNumber.scalar_eq {c : Char} (hc : StartsNumber c) :
    scalar .read c = some <$> Number.read := by
  unfold scalar
  rw [if_neg (hc.ne (by decide)), if_neg (hc.ne (by decide)), if_neg (hc.ne (by decide)),
    if_neg (hc.ne (by decide))]
  exact if_pos hc

/-- Characters that are read as a number, with blanks before it at most. -/
def IsNumber (n : Number) (cs : List Char) : Prop :=
  ∃ c cs', cs.dropWhile isBlank = c :: cs' ∧ StartsNumber c ∧
    Reads EndsValue Number.read (c :: cs') (.ok n)

theorem exists_refuse_eq (c : Char) (length : Nat) (cs : List Char) :
    ∃ cause, (refuse c : Reader α) length cs = .error cause := by
  unfold refuse
  split
  · exact ⟨_, rfl⟩
  · rw [bind_apply]
    cases (discard (scalar .read c)) length cs with
    | error cause => exact ⟨cause, rfl⟩
    | ok found => exact ⟨_, rfl⟩

theorem number_apply {length : Nat} {cs cs' : List Char} {c : Char}
    (hcs : cs.dropWhile isBlank = c :: cs') : number length cs =
      (if StartsNumber c then Number.read else refuse c) length (c :: cs') := by
  unfold number
  rw [bind_apply]
  unfold peek
  rw [hcs]
  rfl

theorem isNumber_of_eq_ok {length : Nat} {cs : List Char} {n : Number}
    (h : number length cs = .ok (n, [])) : IsNumber n cs := by
  cases hcs : cs.dropWhile isBlank with
  | nil =>
    unfold number at h
    rw [bind_apply] at h
    unfold peek at h
    rw [hcs] at h
    cases h
  | cons c cs' =>
    rw [number_apply hcs] at h
    split at h
    case isTrue hc => exact ⟨c, cs', hcs, hc, Number.ends_read.reads h⟩
    case isFalse hc =>
      obtain ⟨cause, hcause⟩ := exists_refuse_eq (α := Number) c length (c :: cs')
      rw [hcause] at h
      cases h

namespace IsNumber

variable {n : Number} {cs : List Char}

theorem reads_number (h : IsNumber n cs) : Reads EndsValue number cs (.ok n) := by
  obtain ⟨c, cs', hcs, hc, hread⟩ := h
  refine .peek hcs ?_
  change Reads _ (if StartsNumber c then Number.read else refuse c) _ _
  rwa [if_pos hc]

theorem reads_float (h : IsNumber n cs) : Reads EndsValue float cs (.ok n.value) :=
  h.reads_number.returns Number.value

theorem reads_optional (h : IsNumber n cs) :
    Reads EndsValue (optional float) cs (.ok (some n.value)) := by
  obtain ⟨c, cs', hcs, hc, hread⟩ := h
  have hfloat := reads_float ⟨c, cs', hc.startsScalar.dropWhile_eq cs', hc, hread⟩
  refine .peek hcs ?_
  split
  case h_1 heq => exact absurd (Option.some.inj heq) (hc.ne (by decide))
  case h_2 => exact hfloat.map some

theorem reads_anyValue (h : IsNumber n cs) (levels : Nat) :
    Reads EndsValue (anyValue .read levels) cs (.ok (some n)) := by
  obtain ⟨c, cs', hcs, hc, hread⟩ := h
  have hscalar : Reads EndsValue (scalar .read c) (c :: cs') (.ok (some n)) := by
    rw [hc.scalar_eq]
    exact hread.map some
  exact Json.reads_anyValue levels hcs hc.startsScalar hscalar

end IsNumber

/-! ## Whole texts of numbers -/

/-- A text that a reader takes for `a`, up to its last character. -/
def IsTextOf (r : Reader α) (a : α) (text : String) : Prop :=
  r text.toList.length text.toList = .ok (a, [])

theorem bind_eq_ok {r : Reader α} {f : α → Reader β} {length : Nat} {cs left : List Char} {b : β}
    (h : (r >>= f) length cs = .ok (b, left)) :
    ∃ a cs', r length cs = .ok (a, cs') ∧ f a length cs' = .ok (b, left) := by
  rw [bind_apply] at h
  cases hr : r length cs with
  | error => rw [hr] at h; cases h
  | ok found => rw [hr] at h; exact ⟨_, _, rfl, h⟩

theorem IsTextOf.isNumber_of_float {x : Float} {text : String} (h : IsTextOf float x text) :
    ∃ n, IsNumber n text.toList ∧ n.value = x := by
  obtain ⟨n, cs', hnumber, hvalue⟩ := bind_eq_ok h
  cases hvalue
  exact ⟨n, isNumber_of_eq_ok hnumber, rfl⟩

theorem IsTextOf.isNumber_of_natural {largest k : Nat} {text : String}
    (h : IsTextOf (natural largest) k text) :
    ∃ n, IsNumber n text.toList ∧ n.natural = some k ∧ k ≤ largest := by
  obtain ⟨n, cs', hnumber, hvalue⟩ := bind_eq_ok h
  cases hk : n.natural with
  | none => rw [hk] at hvalue; cases hvalue
  | some m =>
    simp only [hk] at hvalue
    split at hvalue
    · cases hvalue
      exact ⟨n, isNumber_of_eq_ok hnumber, hk, ‹_›⟩
    · cases hvalue

theorem IsTextOf.reads_natural {largest k : Nat} {text : String}
    (h : IsTextOf (natural largest) k text) :
    Reads EndsValue (natural largest) text.toList (.ok k) := by
  obtain ⟨n, hn, hk, hle⟩ := h.isNumber_of_natural
  refine .finish hn.reads_number ?_
  simp only [hk, if_pos hle]
  exact .pure k

/-! ## Whole numbers as they are written -/

theorem le_ofDigitChars (ds : List Char) (n : Nat) : n ≤ Nat.ofDigitChars 10 ds n := by
  induction ds generalizing n with
  | nil => exact Nat.le_refl n
  | cons d ds ih =>
    rw [Nat.ofDigitChars_cons]
    exact Nat.le_trans (by omega) (ih _)

theorem Number.gather_eq {ds : List Char} {n : Nat} (h : Nat.ofDigitChars 10 ds n < twoTo 64) :
    gather n ds = (Nat.ofDigitChars 10 ds n, []) := by
  induction ds generalizing n with
  | nil => rfl
  | cons d ds ih =>
    rw [Nat.ofDigitChars_cons] at h
    have hmore : 10 * n + digitOf d < twoTo 64 := Nat.lt_of_le_of_lt (le_ofDigitChars ds _) h
    unfold gather
    rw [if_pos hmore]
    exact ih h

theorem head?_toDigits_ne {n : Nat} (hn : 0 < n) : (Nat.toDigits 10 n).head? ≠ some '0' := by
  revert hn
  refine Nat.base_induction (P := fun n => 0 < n → (Nat.toDigits 10 n).head? ≠ some '0')
    10 (by decide) ?_ ?_
  · intro m hm hpos
    have hdigit : ∀ m < 10, 0 < m → m.digitChar ≠ '0' := by decide
    rw [Nat.toDigits_of_lt_base hm]
    exact fun h => hdigit m hm hpos (Option.some.inj h)
  · intro m k hk hm ih _
    rw [← Nat.toDigits_append_toDigits (by decide) hm hk,
      List.head?_append_of_ne_nil _ Nat.toDigits_ne_nil]
    exact ih hm

theorem length_toDigits (n : Nat) (h : (Nat.toDigits 10 n).head? = some '0') :
    (Nat.toDigits 10 n).length = 1 := by
  rcases Nat.eq_zero_or_pos n with rfl | hn
  · rfl
  · exact absurd h (head?_toDigits_ne hn)

theorem NumberText.read_digits {atEnd : Cause} {length : Nat} {ds : List Char} (hne : ds ≠ [])
    (hdigits : ∀ d ∈ ds, d.isDigit = true) (hzero : ds.head? = some '0' → ds.length = 1) :
    NumberText.read atEnd length ds = .ok (⟨false, ds, none, none⟩, []) := by
  have hall : takeWhile Char.isDigit length ds = .ok (ds, []) := by
    unfold takeWhile
    rw [List.takeWhile_eq_self_iff.mpr hdigits, List.dropWhile_eq_nil_iff.mpr hdigits]
  have hsign : accept '-' length ds = .ok (false, ds) := by
    cases ds with
    | nil => rfl
    | cons d ds =>
      have hd : d ≠ '-' := by
        rintro rfl
        exact absurd (hdigits '-' List.mem_cons_self) (by decide)
      exact if_neg hd
  have hread : digits atEnd length ds = .ok (ds, []) := by
    unfold digits
    rw [bind_apply, hall]
    cases ds with
    | nil => exact absurd rfl hne
    | cons => rfl
  have hwhole : readWhole atEnd length ds = .ok (ds, []) := by
    unfold readWhole
    rw [bind_apply, hread]
    have hfits : ¬ (ds.head? = some '0' ∧ ds.length ≠ 1) := fun h => h.2 (hzero h.1)
    change (if ds.head? = some '0' ∧ ds.length ≠ 1 then fail .notJson else return ds) length [] = _
    rw [if_neg hfits]
    rfl
  unfold NumberText.read
  rw [bind_apply, hsign]
  change (readWhole atEnd >>= _) length ds = _
  rw [bind_apply, hwhole]
  rfl

theorem Number.exists_ofText?_digits {n : Nat} (h : n < 2 ^ 64) :
    ∃ x, ofText? ⟨false, Nat.toDigits 10 n, none, none⟩ =
      some { value := x, natural := some n } := by
  have hdigits : Nat.ofDigitChars 10 (Nat.toDigits 10 n) 0 = n := Nat.ofDigitChars_ten_toDigits
  have hgather : gather 0 (Nat.toDigits 10 n) = (n, []) := by
    rw [gather_eq (by rw [hdigits]; exact h), hdigits]
  have hscale : magnitude n 0 none = some (Binary64.nearest false n 0 * powerOfTen 0) :=
    if_neg (Binary64.ofFloat_nearest_mul_ne_infinite h)
  refine ⟨Binary64.nearest false n 0 * powerOfTen 0, ?_⟩
  unfold ofText?
  simp only [hgather]
  change (magnitude n 0 none).bind _ = _
  rw [hscale]
  rfl

theorem isDigit_of_mem_toDigits {n : Nat} {d : Char} (hd : d ∈ Nat.toDigits 10 n) :
    d.isDigit = true :=
  Nat.isDigit_of_mem_toDigits (by decide) (by decide) hd

theorem Number.exists_read_digits {n : Nat} (length : Nat) (h : n < 2 ^ 64) :
    ∃ x, Number.read length (Nat.toDigits 10 n) = .ok ({ value := x, natural := some n }, []) := by
  obtain ⟨x, hx⟩ := Number.exists_ofText?_digits h
  refine ⟨x, ?_⟩
  unfold Number.read
  rw [bind_apply, NumberText.read_digits Nat.toDigits_ne_nil (fun _ => isDigit_of_mem_toDigits)
    (length_toDigits n)]
  rw [Except.bind, hx]
  rfl

theorem isTextOf_toString {largest n : Nat} (hle : n ≤ largest) (hlt : n < 2 ^ 64) :
    IsTextOf (natural largest) n (toString n) := by
  obtain ⟨d, ds, hds⟩ := List.exists_cons_of_ne_nil (Nat.toDigits_ne_nil (n := n) (b := 10))
  have hstart : StartsNumber d :=
    Or.inr (isDigit_of_mem_toDigits (n := n) (hds ▸ List.mem_cons_self))
  unfold IsTextOf
  rw [Nat.toString_eq_repr, Nat.toList_repr]
  obtain ⟨x, hread⟩ := Number.exists_read_digits (Nat.toDigits 10 n).length hlt
  generalize (Nat.toDigits 10 n).length = length at hread ⊢
  rw [hds] at hread ⊢
  unfold natural
  rw [bind_apply, number_apply (hstart.startsScalar.dropWhile_eq ds), if_pos hstart, hread]
  change (if n ≤ largest then return n else fail .wrongShape) length [] = _
  rw [if_pos hle]
  rfl

/-! ## In place of a number -/

theorem reads_float_null : Reads after float "null".toList (.error .wrongShape) := by
  have hscalar : Reads after (scalar .read 'n') ['n', 'u', 'l', 'l'] (.ok none) :=
    .returns (fun _ => none) (.word _)
  have hrefuse : Reads after (refuse 'n' : Reader Number) ['n', 'u', 'l', 'l']
      (.error .wrongShape) :=
    .finish (hscalar.map fun _ => ()) (.fail _)
  have hnumber : Reads after number ['n', 'u', 'l', 'l'] (.error .wrongShape) :=
    .peek_cons (by decide) hrefuse
  exact hnumber.returns Number.value

theorem reads_optional_null {r : Reader α} : Reads after (optional r) "null".toList (.ok none) :=
  .peek_cons (by decide) (.returns (fun _ => none) (.word _))

end TransitShapes.Json
