import Mathlib.Data.List.Forall2
import TransitShapes.Json.Record
import TransitShapes.Proofs.Json.Number

/-! # Objects in any order

Each member of an object changes what has been read so far. The changes of members that are known
can be made in any order, and the others change nothing.
-/

namespace TransitShapes.Json

open Reader

variable {σ τ : Type}

/-! ## Arrangements of an object -/

/-- A member that an object may have: the names it goes by, and the texts of its value. -/
structure Member where
  names : List String
  IsValue : String → Prop

/-- A name and a value as they stand in the text of an object. -/
def Member.IsWritten (m : Member) (w : String × String) : Prop :=
  (∃ name ∈ m.names, Spells name w.1) ∧ m.IsValue w.2

/-- A member that nobody asks for, where these names are known. -/
def IsUnasked (known : List String) (w : String × String) : Prop :=
  (∃ name, name ∉ known ∧ Spells name w.1) ∧ Unasked w.2

/-- The text of an object with each of these members once, in any order and with any number of
others among them. -/
def IsObject (known : List String) (members : List Member) (text : String) : Prop :=
  ∃ named others written, List.Forall₂ Member.IsWritten members named ∧
    (∀ w ∈ others, IsUnasked known w) ∧ List.Perm written (named ++ others) ∧
    text = writeObject written

theorem Member.IsWritten.plain {m : Member} {name value : String} (hvalue : m.IsValue value)
    (hname : name ∈ m.names) (hplain : IsPlain name) : m.IsWritten (name, value) :=
  ⟨⟨name, hname, hplain.spells⟩, hvalue⟩

theorem IsUnasked.plain {known : List String} {name value : String} (hvalue : Unasked value)
    (hname : name ∉ known) (hplain : IsPlain name) : IsUnasked known (name, value) :=
  ⟨⟨name, hname, hplain.spells⟩, hvalue⟩

theorem isObject_writeObject {known : List String} {members : List Member}
    {written : List (String × String)} (h : List.Forall₂ Member.IsWritten members written) :
    IsObject known members (writeObject written) :=
  ⟨written, [], written, h, nofun, by rw [List.append_nil], rfl⟩

/-! ## The characters of an object -/

/-- A member after its first quote. -/
def memberChars (w : String × String) : List Char := w.1.toList ++ '"' :: ':' :: w.2.toList

def membersChars : Bool → List (List Char) → List Char
  | _, [] => []
  | first, m :: ms => (if first then ['"'] else [',', '"']) ++ (m ++ membersChars false ms)

theorem toList_member (w : String × String) :
    (quoted w.1 ++ ":" ++ w.2).toList = '"' :: memberChars w := by
  simp [quoted, memberChars]

theorem intercalate_members (written : List (String × String)) :
    [','].intercalate (written.map fun w => '"' :: memberChars w) =
      membersChars true (written.map memberChars) := by
  induction written with
  | nil => rfl
  | cons w written ih =>
    cases written with
    | nil => simp [membersChars, List.intercalate]
    | cons w' written =>
      have hnext : membersChars false ((w' :: written).map memberChars) =
          ',' :: membersChars true ((w' :: written).map memberChars) := rfl
      rw [List.map_cons (a := w), List.map_cons (a := w), membersChars, hnext, ← ih]
      simp [List.intercalate]

theorem toList_writeObject (written : List (String × String)) : (writeObject written).toList =
    '\x7b' :: (membersChars true (written.map memberChars) ++ ['\x7d']) := by
  have hmembers : (written.map fun w => quoted w.1 ++ ":" ++ w.2).map String.toList =
      written.map fun w => '"' :: memberChars w := by
    rw [List.map_map]
    exact List.map_congr_left fun w _ => toList_member w
  rw [← intercalate_members, ← hmembers]
  simp [writeObject, String.toList_intercalate]

/-! ## Reading members -/

theorem reads_nextMember (first : Bool) :
    Reads Anywhere (nextMember first) (if first then ['"'] else [',', '"']) (.ok true) := by
  cases first with
  | true =>
    exact .peek_cons (by decide) (.seq (.pure (some '"')) (.seq (.drop '"') (.pure true)))
  | false =>
    refine .peek_cons (by decide) ?_
    change Reads _ ((drop >>= fun _ => peek) >>= _) ([','] ++ ['"']) _
    rw [bind_assoc]
    exact .seq (.drop ',') (.peek_cons (by decide) (.seq (.drop '"') (.pure true)))

theorem reads_nextMember_end (first : Bool) :
    Reads EndsMembers (nextMember first) [] (.ok false) :=
  .peek_after (by decide) (fun _ hrest => hrest) (.pure false)

/-! ## What a member does -/

/-- What a member does to the part of the state that counts, which is what `view` shows of it. -/
abbrev Change (τ : Type) := τ → Except Cause τ

/-- The member is read in any state, and makes this change to what `view` shows. -/
def Makes (view : σ → τ) (member : σ → Reader σ) (change : Change τ) (chars : List Char) : Prop :=
  ∀ s, ∃ result, Reads EndsValue (member s) chars result ∧ result.map view = change (view s)

def Change.all (changes : List (Change τ)) : Change τ := fun t => changes.foldlM (fun t c => c t) t

theorem Change.all_append (changes changes' : List (Change τ)) (t : τ) :
    Change.all (changes ++ changes') t = Change.all changes t >>= Change.all changes' :=
  List.foldlM_append

theorem endsValue_membersChars {ms : List (List Char)} {rest : List Char} (h : EndsMembers rest) :
    EndsValue (membersChars false ms ++ rest) := by
  cases ms with
  | nil => exact Or.inr h
  | cons m ms => exact Or.inl rfl

theorem makes_members {view : σ → τ} {member : σ → Reader σ} {changes : List (Change τ)}
    {ms : List (List Char)} (h : List.Forall₂ (Makes view member) changes ms) :
    ∀ s, ∃ result, (∀ fuel first, ms.length < fuel →
        Reads EndsMembers (members member fuel first s) (membersChars first ms) result) ∧
      result.map view = Change.all changes (view s) := by
  induction h with
  | nil =>
    refine fun s => ⟨.ok s, fun fuel first hfuel => ?_, rfl⟩
    obtain ⟨fuel, rfl⟩ := Nat.exists_eq_add_of_lt hfuel
    exact .finish (reads_nextMember_end first) (.pure s)
  | @cons change m changes ms hmakes _ ih =>
    intro s
    obtain ⟨result, hread, hview⟩ := hmakes s
    have hall : result.map view >>= Change.all changes =
        Change.all (change :: changes) (view s) := by
      rw [hview]
      rfl
    have hstep : ∀ last : σ → Except Cause σ,
        (∀ s', result = .ok s' → ∀ fuel, ms.length < fuel →
          Reads EndsMembers (members member fuel false s') (membersChars false ms) (last s')) →
        ∀ fuel first, (m :: ms).length < fuel →
          Reads EndsMembers (members member fuel first s) (membersChars first (m :: ms))
            (result >>= last) := by
      intro last hlast fuel first hfuel
      obtain ⟨fuel, rfl⟩ : ∃ n, fuel = n + 1 := ⟨fuel - 1, by omega⟩
      exact .seq (reads_nextMember first)
        (.bind last hread (fun _ hrest => endsValue_membersChars hrest) fun s' hs' =>
          hlast s' hs' fuel (Nat.lt_of_succ_lt_succ hfuel))
    cases result with
    | error cause => exact ⟨_, hstep (fun _ => .error cause) (fun _ h => nomatch h), hall⟩
    | ok s' =>
      obtain ⟨last, hlast, hviewed⟩ := ih s'
      refine ⟨last, hstep (fun _ => last) ?_, hviewed.trans hall⟩
      rintro _ ⟨⟩ fuel
      exact hlast fuel false

theorem length_le_membersChars (first : Bool) (ms : List (List Char)) :
    ms.length ≤ (membersChars first ms).length := by
  induction ms generalizing first with
  | nil => exact Nat.le_refl 0
  | cons m ms ih =>
    have := ih false
    cases first <;> simp [membersChars] <;> omega

theorem makes_objectOf {view : σ → τ} {member : σ → Reader σ} {changes : List (Change τ)}
    {ms : List (List Char)} (h : List.Forall₂ (Makes view member) changes ms) (s : σ) :
    ∃ result, Reads EndsMembers (objectOf member s) (membersChars true ms) result ∧
      result.map view = Change.all changes (view s) := by
  obtain ⟨result, hread, hview⟩ := makes_members h s
  refine ⟨result, .bounded fun fuel hfuel => hread fuel true ?_, hview⟩
  exact Nat.lt_of_le_of_lt (length_le_membersChars true ms) hfuel

/-! ## The order of the members -/

/-- It does not matter which of the two comes first. -/
def Change.Commute (c d : Change τ) : Prop := ∀ t, (c t >>= d) = (d t >>= c)

instance : Std.Symm (@Change.Commute τ) := ⟨fun _ _ h t => (h t).symm⟩

theorem Change.all_perm {changes changes' : List (Change τ)} (h : changes.Perm changes')
    (hcommute : changes.Pairwise Commute) : Change.all changes = Change.all changes' := by
  have hpairs := hcommute.forall_of_forall (fun _ _ _ => rfl)
  funext t
  unfold Change.all
  rw [List.foldlM_eq_foldl, List.foldlM_eq_foldl]
  refine h.foldl_eq' (fun c hc d hd mt => ?_) _
  cases mt with
  | error => rfl
  | ok t => exact hpairs hc hd t

theorem Change.commute_ok (c : Change τ) : Commute c .ok := by
  intro t
  change (c t).bind .ok = c t
  cases c t <;> rfl

theorem Change.all_append_ok (changes : List (Change τ)) (n : Nat) :
    Change.all (changes ++ List.replicate n Except.ok) = Change.all changes := by
  have hsame : ∀ t : τ, (List.replicate n Except.ok).foldlM (fun t (c : Change τ) => c t) t =
      .ok t := by
    intro t
    induction n with
    | zero => rfl
    | succ n ih => exact ih
  funext t
  unfold Change.all
  rw [List.foldlM_append]
  simp only [hsame]
  exact bind_pure _

theorem Change.pairwise_append_ok {changes : List (Change τ)} (h : changes.Pairwise Commute)
    (n : Nat) : (changes ++ List.replicate n Except.ok).Pairwise Commute := by
  refine List.pairwise_append.mpr ⟨h, List.pairwise_replicate.mpr (Or.inr (commute_ok _)), ?_⟩
  intro c _ d hd
  rw [List.eq_of_mem_replicate hd]
  exact commute_ok c

section
variable {known : List String} {members : List Member} {view : σ → τ} {member : σ → Reader σ}
  {changes : List (Change τ)}

/-- Every way to write the member makes the change. -/
def MakesAsWritten (view : σ → τ) (member : σ → Reader σ) (m : Member) (change : Change τ) : Prop :=
  ∀ w, m.IsWritten w → Makes view member change (memberChars w)

theorem makes_of_isWritten {named : List (String × String)}
    (hnamed : List.Forall₂ Member.IsWritten members named)
    (h : List.Forall₂ (MakesAsWritten view member) members changes) :
    List.Forall₂ (fun w change => Makes view member change (memberChars w)) named changes := by
  induction hnamed generalizing changes with
  | nil =>
    cases h
    exact .nil
  | cons hw _ ih =>
    obtain ⟨_, _, hmakes, hrest, rfl⟩ := List.forall₂_cons_left_iff.mp h
    exact .cons (hmakes _ hw) (ih hrest)

/-- An object does what its members do, in whatever order and whatever else stands among them. -/
theorem IsObject.exists_makes {text : String} (h : IsObject known members text)
    (hmembers : List.Forall₂ (MakesAsWritten view member) members changes)
    (hothers : ∀ w, IsUnasked known w → Makes view member .ok (memberChars w))
    (hcommute : changes.Pairwise Change.Commute) (s : σ) :
    ∃ cs result, text.toList = '\x7b' :: (cs ++ ['\x7d']) ∧
      Reads EndsMembers (objectOf member s) cs result ∧
      result.map view = Change.all changes (view s) := by
  obtain ⟨named, others, written, hnamed, hunasked, hperm, rfl⟩ := h
  have hrest : List.Forall₂ (fun w change => Makes view member change (memberChars w)) others
      (List.replicate others.length Except.ok) := by
    rw [← List.map_const', List.forall₂_map_right_iff, List.forall₂_same]
    exact fun w hw => hothers w (hunasked w hw)
  obtain ⟨changes', hmakes, hperm'⟩ :=
    List.perm_comp_forall₂ hperm (List.rel_append (makes_of_isWritten hnamed hmembers) hrest)
  have hall : Change.all changes' = Change.all changes := by
    rw [← Change.all_append_ok changes others.length]
    exact (Change.all_perm hperm'.symm (Change.pairwise_append_ok hcommute _)).symm
  have hchars : List.Forall₂ (Makes view member) changes' (written.map memberChars) :=
    List.forall₂_map_right_iff.mpr hmakes.flip
  obtain ⟨result, hread, hview⟩ := makes_objectOf hchars s
  exact ⟨_, result, toList_writeObject written, hread, hview.trans (congrFun hall _)⟩

end

end TransitShapes.Json
