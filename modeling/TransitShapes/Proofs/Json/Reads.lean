import TransitShapes.Json.Reader

/-! # What a reader makes of a text

A specification of a reader says what it makes of certain characters, whatever text they stand in
and whatever comes after them.
-/

namespace TransitShapes.Json

variable {α β : Type}

/-- Anywhere in a text. -/
def Anywhere (_ : List Char) : Prop := True

/-- Where the value of a member ends: before the next member, or before the end of the object. -/
def EndsValue (rest : List Char) : Prop := rest.head? = some ',' ∨ rest.head? = some '\x7d'

/-- Where the members of an object end. -/
def EndsMembers (rest : List Char) : Prop := rest.head? = some '\x7d'

/-- The reader takes just these characters where the text goes on as `after` says, and gives this
result. Where the result is a cause, it may have taken fewer. -/
def Reads (after : List Char → Prop) (r : Reader α) (cs : List Char) (result : Except Cause α) :
    Prop :=
  ∀ length rest, cs.length + rest.length ≤ length → after rest →
    r length (cs ++ rest) = result.map (·, rest)

namespace Reader

theorem bind_apply (r : Reader α) (f : α → Reader β) (length : Nat) (cs : List Char) :
    (r >>= f) length cs = (r length cs).bind fun found => f found.1 length found.2 := rfl

theorem map_apply (f : α → β) (r : Reader α) (length : Nat) (cs : List Char) :
    (f <$> r) length cs = (r length cs).map fun found => (f found.1, found.2) := by
  change (r length cs).bind _ = _
  cases r length cs <;> rfl

end Reader

namespace Reads

open Reader

variable {after : List Char → Prop} {cs : List Char} {result : Except Cause α}

theorem anywhere {r : Reader α} (h : Reads Anywhere r cs result) : Reads after r cs result :=
  fun length rest hlength _ => h length rest hlength trivial

theorem pure (a : α) : Reads after (pure a) [] (.ok a) := fun _ _ _ _ => rfl

theorem fail (cause : Cause) : Reads after (fail cause : Reader α) cs (.error cause) :=
  fun _ _ _ _ => rfl

theorem bind {before : List Char → Prop} {r : Reader α} {f : α → Reader β} {cs' : List Char}
    (next : α → Except Cause β) (h : Reads before r cs result)
    (hbefore : ∀ rest, after rest → before (cs' ++ rest))
    (hnext : ∀ a, result = .ok a → Reads after (f a) cs' (next a)) :
    Reads after (r >>= f) (cs ++ cs') (result >>= next) := by
  intro length rest hlength hrest
  rw [List.length_append] at hlength
  rw [bind_apply, List.append_assoc, h length (cs' ++ rest) (by simp; omega) (hbefore rest hrest)]
  cases result with
  | error cause => rfl
  | ok a => exact hnext a rfl length rest (by omega) hrest

theorem seq {r : Reader α} {f : α → Reader β} {cs' : List Char} {a : α} {last : Except Cause β}
    (h : Reads Anywhere r cs (.ok a)) (hlast : Reads after (f a) cs' last) :
    Reads after (r >>= f) (cs ++ cs') last :=
  bind (fun _ => last) h (fun _ _ => trivial) fun _ ha => by cases ha; exact hlast

theorem finish {r : Reader α} {f : α → Reader β} {a : α} {last : Except Cause β}
    (h : Reads after r cs (.ok a)) (hlast : Reads after (f a) [] last) :
    Reads after (r >>= f) cs last := by
  have hread := bind (fun _ => last) h (fun _ hrest => hrest) fun _ ha => by cases ha; exact hlast
  rwa [List.append_nil] at hread

theorem map {r : Reader α} (f : α → β) (h : Reads after r cs result) :
    Reads after (f <$> r) cs (result.map f) := by
  intro length rest hlength hrest
  rw [map_apply, h length rest hlength hrest]
  cases result <;> rfl

theorem returns {r : Reader α} (f : α → β) (h : Reads after r cs result) :
    Reads after (r >>= fun a => Pure.pure (f a)) cs (result.map f) := h.map f

theorem run {r : Reader α} {text : String} (h : Reads Anywhere r text.toList result) :
    r.run text = result := by
  have hread := h text.toList.length [] (Nat.le_refl _) trivial
  rw [List.append_nil] at hread
  unfold Reader.run
  change (r text.toList.length text.toList).bind _ = result
  rw [hread]
  cases result <;> rfl

/-! ## Single characters -/

variable {c : Char}

theorem drop (c : Char) : Reads after Reader.drop [c] (.ok ()) := fun _ _ _ _ => rfl

theorem next (atEnd : Cause) (c : Char) : Reads after (next atEnd) [c] (.ok c) :=
  fun _ _ _ _ => rfl

theorem peek {f : Option Char → Reader α} {cs' : List Char} (hc : cs.dropWhile isBlank = c :: cs')
    (h : Reads after (f (some c)) (c :: cs') result) :
    Reads after (Reader.peek >>= f) cs result := by
  intro length rest hlength hrest
  have hshort : (c :: cs').length ≤ cs.length := hc ▸ (List.dropWhile_sublist isBlank).length_le
  have hkept : (cs ++ rest).dropWhile isBlank = c :: cs' ++ rest := by
    rw [List.dropWhile_append, hc]
    rfl
  have hpeek : Reader.peek length (cs ++ rest) = .ok (some c, c :: cs' ++ rest) := by
    unfold Reader.peek
    rw [hkept]
    rfl
  rw [bind_apply, hpeek]
  exact h length rest (by omega) hrest

theorem peek_cons {f : Option Char → Reader α} (hc : isBlank c = false)
    (h : Reads after (f (some c)) (c :: cs) result) :
    Reads after (Reader.peek >>= f) (c :: cs) result :=
  peek (List.dropWhile_cons_of_neg (by simp [hc])) h

theorem peek_after {f : Option Char → Reader α} (hc : isBlank c = false)
    (hafter : ∀ rest, after rest → rest.head? = some c) (h : Reads after (f (some c)) [] result) :
    Reads after (Reader.peek >>= f) [] result := by
  intro length rest hlength hrest
  obtain ⟨rest', rfl⟩ := List.head?_eq_some_iff.mp (hafter rest hrest)
  have hpeek : Reader.peek length (c :: rest') = .ok (some c, c :: rest') := by
    unfold Reader.peek
    rw [List.dropWhile_cons_of_neg (by simp [hc])]
    rfl
  rw [List.nil_append, bind_apply, hpeek]
  exact h length _ hlength hrest

theorem word (w : List Char) : Reads after (Reader.word w) w (.ok ()) := by
  induction w with
  | nil => exact pure ()
  | cons c w ih =>
    refine seq (next _ c) ?_
    rw [if_pos rfl]
    exact ih

theorem bounded {r : Nat → Reader α}
    (h : ∀ fuel, cs.length < fuel → Reads after (r fuel) cs result) :
    Reads after (Reader.bounded r) cs result :=
  fun length rest hlength hrest => h (length + 1) (by omega) length rest hlength hrest

end Reads

end TransitShapes.Json
