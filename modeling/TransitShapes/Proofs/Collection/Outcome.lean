import TransitShapes.Proofs.Collection.Invariant

/-! # What becomes of a polyline that is added

An add has one of five outcomes. Three of them leave the collection alone, and two put one polyline
behind the others. Which one it is depends on the points and the name alone, and the answer tells.
-/

namespace TransitShapes.Collection

variable {R : Type}

/-- A stored polyline has the name. -/
def Holds (c : Collection R) (name : String) : Prop :=
  ∃ id line, c.get? id = some line ∧ line.name = some name

/-- The smallest number, from 1 on, with which a name is free. -/
structure FirstFree (c : Collection R) (name : String) (k : Nat) : Prop where
  one_le : 1 ≤ k
  free : ¬ c.Holds (name ++ "-" ++ toString k)
  taken : ∀ j, 1 ≤ j → j < k → c.Holds (name ++ "-" ++ toString j)

theorem FirstFree.unique {c : Collection R} {name : String} {j k : Nat}
    (hj : c.FirstFree name j) (hk : c.FirstFree name k) : j = k := by
  apply Nat.le_antisymm
  · apply Nat.le_of_not_lt
    intro hlt
    exact hk.free (hj.taken k hk.one_le hlt)
  · apply Nat.le_of_not_lt
    intro hlt
    exact hj.free (hk.taken j hj.one_le hlt)

variable [Scalar R]

/-- The polyline has the name of the stored one with a number, and strays so far from that one. -/
structure Namesake (c : Collection R) (line : Polyline R) (name : String) (id : Nat)
    (distance : R) : Prop where
  two_points : 2 ≤ line.size
  named : line.name = some name
  stored : ∃ stored, c.get? id = some stored ∧ stored.name = some name ∧
    line.followDistance stored = .ok distance

/-- The outcomes of an add: the polyline that is stored, if one is, and the answer. -/
inductive Outcome (c : Collection R) (line : Polyline R) :
    DuplicatePolicy → Option (Polyline R) → Except ShapeError Nat → Prop where
  | tooShort {policy : DuplicatePolicy} : line.size < 2 →
      Outcome c line policy none (.error (.tooFewPoints 2 line.size))
  | refused {name : String} : 2 ≤ line.size → line.name = some name → c.Holds name →
      Outcome c line .reject none (.error (.duplicateName name))
  | skipped {name : String} {id : Nat} {distance : R} : c.Namesake line name id distance →
      distance < 10.0 → Outcome c line .smart none (.ok id)
  | renamed {name : String} {id k : Nat} {distance : R} : c.Namesake line name id distance →
      ¬ distance < 10.0 → c.FirstFree name k →
      Outcome c line .smart (some (line.withName (name ++ "-" ++ toString k))) (.ok c.size)
  | stored {policy : DuplicatePolicy} : 2 ≤ line.size →
      (∀ name, line.name = some name → ¬ c.Holds name) →
      Outcome c line policy (some line) (.ok c.size)

/-! ## Names in the index and names of polylines -/

variable {c : Collection R} {line : Polyline R}

theorem WellFormed.mem_names_iff (hc : WellFormed c) (name : String) :
    name ∈ c.names ↔ c.Holds name := by
  rw [← not_iff_not, ← idOf?_eq_none_iff, Option.eq_none_iff_forall_ne_some]
  simp only [ne_eq, hc.named, Holds, not_exists]

theorem WellFormed.idOf?_eq_none (hc : WellFormed c) {name : String} :
    c.idOf? name = none ↔ ¬ c.Holds name := by
  rw [idOf?_eq_none_iff, hc.mem_names_iff]

theorem WellFormed.exists_firstFree (hc : WellFormed c) (name : String) :
    ∃ k, c.freeName name = name ++ "-" ++ toString k ∧ c.FirstFree name k := by
  obtain ⟨k, hk, hname, hfree, htaken⟩ := c.freeName_spec name
  refine ⟨k, hname, hk, ?_, ?_⟩
  · rw [← hc.mem_names_iff]
    exact hfree
  · intro j hj hlt
    rw [← hc.mem_names_iff]
    exact htaken j hj hlt

/-! ## The outcome of an admission -/

theorem exists_followDistance (line : Polyline R) {stored : Polyline R} (h : 2 ≤ stored.size) :
    ∃ distance, line.followDistance stored = .ok distance := by
  refine ⟨stored.farthestMatch line.points 0 0.0, ?_⟩
  unfold Polyline.followDistance
  rw [if_neg]
  intro hempty
  rw [Polyline.size, List.isEmpty_iff.mp hempty] at h
  simp at h

/-- The answer to an add, before anything is stored. -/
def answer (c : Collection R) (line : Polyline R) (policy : DuplicatePolicy) :
    Except ShapeError Nat :=
  (c.admission line policy).map fun a => (c.receive a).2

/-- The polyline that an add stores, if it does. -/
def admitted? (c : Collection R) (line : Polyline R) (policy : DuplicatePolicy) :
    Option (Polyline R) :=
  (c.admission line policy).toOption.bind Admission.line?

theorem value_add (c : Collection R) (line : Polyline R) (policy : DuplicatePolicy) :
    (c.add line policy).value =
      (c.answer line policy).map fun id => ((c.admitted? line policy).elim c c.store, id) := by
  unfold add answer admitted?
  cases c.admission line policy with
  | error e => rfl
  | ok a => cases a <;> rfl

theorem after_eq (c : Collection R) (line : Polyline R) (policy : DuplicatePolicy) :
    c.after line policy = (c.admitted? line policy).elim c c.store := by
  unfold after add admitted?
  cases c.admission line policy with
  | error e => rfl
  | ok a => cases a <;> rfl

theorem WellFormed.outcome_of_namesake (hc : WellFormed c) {name : String} {id : Nat}
    {distance : R} (h : c.Namesake line name id distance) :
    c.Outcome line .smart (c.admitted? line .smart) (c.answer line .smart) := by
  obtain ⟨stored, hget, hname, hdistance⟩ := h.stored
  have hid : c.idOf? name = some id := hc.named.mpr ⟨stored, hget, hname⟩
  have hadmission : c.admission line .smart =
      if distance < 10.0 then .ok (.skipped id name distance)
      else .ok (.renamed (line.withName (c.freeName name)) name (c.freeName name) distance) := by
    unfold admission
    rw [if_neg (Nat.not_lt.mpr h.two_points)]
    simp only [h.named, Option.bind_some, hid, Option.map_some, decideNamesake, hget,
      Option.getD_some, hdistance]
    rfl
  unfold admitted? answer
  rw [hadmission]
  split
  case isTrue hnear => exact .skipped h hnear
  case isFalse hfar =>
    obtain ⟨k, hname, hfirst⟩ := hc.exists_firstFree name
    rw [hname]
    exact .renamed h hfar hfirst

theorem WellFormed.outcome (hc : WellFormed c) (line : Polyline R) (policy : DuplicatePolicy) :
    c.Outcome line policy (c.admitted? line policy) (c.answer line policy) := by
  by_cases htwo : line.size < 2
  · have hadmission : c.admission line policy = .error (.tooFewPoints 2 line.size) := by
      unfold admission
      rw [if_pos htwo]
    unfold admitted? answer
    rw [hadmission]
    exact .tooShort htwo
  · by_cases hfree : ∀ name, line.name = some name → ¬ c.Holds name
    · have hadmission : c.admission line policy = .ok (.stored line) := by
        unfold admission
        rw [if_neg htwo]
        cases hname : line.name with
        | none => rfl
        | some name => simp [hc.idOf?_eq_none.mpr (hfree name hname)]
      unfold admitted? answer
      rw [hadmission]
      exact .stored (Nat.le_of_not_lt htwo) hfree
    · push Not at hfree
      obtain ⟨name, hname, id, stored, hget, hstored⟩ := hfree
      cases policy with
      | smart =>
        obtain ⟨distance, hdistance⟩ := exists_followDistance line (hc.two_points hget)
        exact hc.outcome_of_namesake
          ⟨Nat.le_of_not_lt htwo, hname, stored, hget, hstored, hdistance⟩
      | reject =>
        have hid : c.idOf? name = some id := hc.named.mpr ⟨stored, hget, hstored⟩
        have hadmission : c.admission line .reject = .error (.duplicateName name) := by
          unfold admission
          rw [if_neg htwo]
          simp [hname, hid, decideNamesake]
        unfold admitted? answer
        rw [hadmission]
        exact .refused (Nat.le_of_not_lt htwo) hname ⟨id, stored, hget, hstored⟩

/-! ## No two outcomes -/

theorem Namesake.holds {name : String} {id : Nat} {distance : R}
    (h : c.Namesake line name id distance) : c.Holds name := by
  obtain ⟨stored, hget, hname, _⟩ := h.stored
  exact ⟨id, stored, hget, hname⟩

theorem Namesake.unique (hc : WellFormed c) {name other : String} {i j : Nat} {distance bound : R}
    (h : c.Namesake line name i distance) (h' : c.Namesake line other j bound) :
    name = other ∧ i = j ∧ distance = bound := by
  obtain ⟨stored, hget, hname, hdistance⟩ := h.stored
  obtain ⟨stored', hget', hname', hdistance'⟩ := h'.stored
  have hsame : name = other := Option.some.inj (h.named.symm.trans h'.named)
  subst hsame
  have hi := hc.named.mpr ⟨stored, hget, hname⟩
  have hj := hc.named.mpr ⟨stored', hget', hname'⟩
  have hij : i = j := Option.some.inj (hi.symm.trans hj)
  subst hij
  rw [hget] at hget'
  cases hget'
  rw [hdistance] at hdistance'
  cases hdistance'
  exact ⟨rfl, rfl, rfl⟩

theorem Outcome.two_points {policy : DuplicatePolicy} {new : Option (Polyline R)}
    {answer : Except ShapeError Nat} (h : c.Outcome line policy new answer) :
    line.size < 2 ∧ new = none ∧ answer = .error (.tooFewPoints 2 line.size) ∨ 2 ≤ line.size := by
  cases h with
  | tooShort hshort => exact Or.inl ⟨hshort, rfl, rfl⟩
  | refused htwo | stored htwo => exact Or.inr htwo
  | skipped hname | renamed hname => exact Or.inr hname.two_points

theorem Outcome.unique (hc : WellFormed c) {policy : DuplicatePolicy}
    {new other : Option (Polyline R)} {answer reply : Except ShapeError Nat}
    (h : c.Outcome line policy new answer) (h' : c.Outcome line policy other reply) :
    new = other ∧ answer = reply := by
  rcases h.two_points with ⟨hshort, rfl, rfl⟩ | htwo
  · rcases h'.two_points with ⟨-, rfl, rfl⟩ | htwo'
    · exact ⟨rfl, rfl⟩
    · exact absurd hshort (Nat.not_lt.mpr htwo')
  cases h with
  | tooShort hshort => exact absurd hshort (Nat.not_lt.mpr htwo)
  | refused _ hname hholds =>
    cases h' with
    | tooShort hshort => exact absurd hshort (Nat.not_lt.mpr htwo)
    | refused _ hname' =>
      cases hname.symm.trans hname'
      exact ⟨rfl, rfl⟩
    | stored _ hfree => exact absurd hholds (hfree _ hname)
  | skipped hname hnear =>
    cases h' with
    | tooShort hshort => exact absurd hshort (Nat.not_lt.mpr htwo)
    | skipped hname' =>
      obtain ⟨-, rfl, -⟩ := hname.unique hc hname'
      exact ⟨rfl, rfl⟩
    | renamed hname' hfar =>
      obtain ⟨-, -, rfl⟩ := hname.unique hc hname'
      exact absurd hnear hfar
    | stored _ hfree => exact absurd hname.holds (hfree _ hname.named)
  | renamed hname hfar hfirst =>
    cases h' with
    | tooShort hshort => exact absurd hshort (Nat.not_lt.mpr htwo)
    | skipped hname' hnear =>
      obtain ⟨-, -, rfl⟩ := hname.unique hc hname'
      exact absurd hnear hfar
    | renamed hname' _ hfirst' =>
      obtain ⟨rfl, -, -⟩ := hname.unique hc hname'
      cases hfirst.unique hfirst'
      exact ⟨rfl, rfl⟩
    | stored _ hfree => exact absurd hname.holds (hfree _ hname.named)
  | stored _ hfree =>
    cases h' with
    | tooShort hshort => exact absurd hshort (Nat.not_lt.mpr htwo)
    | refused _ hname hholds => exact absurd hholds (hfree _ hname)
    | skipped hname | renamed hname => exact absurd hname.holds (hfree _ hname.named)
    | stored => exact ⟨rfl, rfl⟩

end TransitShapes.Collection
