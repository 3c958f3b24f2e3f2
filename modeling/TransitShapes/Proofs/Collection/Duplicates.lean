import TransitShapes.Proofs.Collection.Outcome
import TransitShapes.Proofs.Polyline.Matches
import TransitShapes.Proofs.Scalar.Product

/-! # What is left out as a duplicate

A polyline is compared with the stored one of its name only, and only point by point in the order of
travel. What it leaves out of the stored polyline is not asked.
-/

namespace TransitShapes

open Scalar

variable {R : Type} [Scalar R]

/-- A polyline runs along another in order, each of its points less than ten meters from a vertex
there. -/
def Polyline.RunsAlong (line stored : Polyline R) : Prop :=
  ∃ positions : List Nat, positions.Pairwise (· ≤ ·) ∧
    List.Forall₂ (fun p (i : Nat) => ∃ q, stored.points[i]? = some q ∧ p.distance q < 10.0)
      line.points positions

/-- A polyline is matched with another in order, and one of its points is ten meters or more from
its match. -/
def Polyline.Leaves (line stored : Polyline R) : Prop :=
  ∃ taken, stored.Matched 0 line.points taken ∧
    ∃ pair ∈ line.points.zip taken, 10.0 ≤ pair.1.distance pair.2.point

theorem Polyline.runsAlong_of_lt [LawfulDistance R] {line stored : Polyline R}
    {taken : List (Sighting R)} (htaken : stored.Matched 0 line.points taken)
    (hnear : List.Forall₂ (fun p s => p.distance s.point < 10.0) line.points taken) :
    line.RunsAlong stored := by
  refine ⟨taken.map Sighting.index, htaken.ascending, ?_⟩
  rw [List.forall₂_map_right_iff]
  exact htaken.points.mp (fun _ s hpoint hdistance => ⟨s.point, hpoint, hdistance⟩) hnear

theorem Polyline.leaves_of_not_lt [LawfulDistance R] {line stored : Polyline R}
    {taken : List (Sighting R)} (htaken : stored.Matched 0 line.points taken)
    (hmeasured : Measured line.points taken)
    (hfar : ¬ List.Forall₂ (fun p s => p.distance s.point < 10.0) line.points taken) :
    line.Leaves stored := by
  refine ⟨taken, htaken, ?_⟩
  obtain ⟨hlength, hnumbers⟩ := List.forall₂_iff_zip.mp hmeasured
  simp only [List.forall₂_iff_zip, hlength, true_and, not_forall] at hfar
  obtain ⟨p, s, hpair, hfar⟩ := hfar
  have hten := (LawfulOrder.isNumber_of_le (le_of_lt (LawfulDistance.zero_lt_ten (R := R)))).2
  exact ⟨(p, s), hpair, le_of_not_lt (hnumbers hpair) hten hfar⟩

namespace Collection

variable {c : Collection R} {line : Polyline R} {name : String}

theorem Namesake.runsAlong_or_leaves [LawfulDistance R] (hc : WellFormed c) {id : Nat}
    {distance : R} (h : c.Namesake line name id distance)
    (hnumbers : ∀ stored, c.get? id = some stored →
      ∀ p ∈ line.points, ∀ q ∈ stored.points, ¬ IsNaN (p.distance q)) :
    ∃ stored, c.get? id = some stored ∧ stored.name = some name ∧
      (distance < 10.0 → line.RunsAlong stored) ∧ (¬ distance < 10.0 → line.Leaves stored) := by
  obtain ⟨stored, hget, hstored, hscore⟩ := h.stored
  have htwo : 2 ≤ stored.points.length := hc.two_points hget
  obtain ⟨taken, htaken⟩ := stored.exists_matched line.points (Nat.zero_lt_of_lt htwo)
  have hmeasured := htaken.measured (hnumbers stored hget)
  rw [htaken.followDistance_lt_iff hmeasured hscore LawfulDistance.zero_lt_ten]
  exact ⟨stored, hget, hstored, line.runsAlong_of_lt htaken, line.leaves_of_not_lt htaken hmeasured⟩

theorem WellFormed.exists_namesake (hc : WellFormed c) (htwo : 2 ≤ line.size)
    (hname : line.name = some name) (hholds : c.Holds name) :
    ∃ id distance, c.Namesake line name id distance := by
  obtain ⟨id, stored, hget, hstored⟩ := hholds
  obtain ⟨distance, hdistance⟩ := exists_followDistance line (hc.two_points hget)
  exact ⟨id, distance, htwo, hname, stored, hget, hstored, hdistance⟩

theorem WellFormed.add_of_outcome (hc : WellFormed c) {policy : DuplicatePolicy}
    {new : Option (Polyline R)} {answer : Except ShapeError Nat}
    (h : c.Outcome line policy new answer) :
    (c.add line policy).value = answer.map fun id => (new.elim c c.store, id) := by
  obtain ⟨rfl, rfl⟩ := h.unique hc (hc.outcome line policy)
  exact c.value_add line policy

theorem answer_of_add {policy : DuplicatePolicy} {next : Collection R} {id : Nat}
    (h : (c.add line policy).value = .ok (next, id)) : c.answer line policy = .ok id := by
  rw [value_add] at h
  cases hanswer : c.answer line policy with
  | error e =>
    rw [hanswer] at h
    cases h
  | ok own =>
    rw [hanswer] at h
    cases h
    rfl

/-! ## One polyline after another -/

/-- **What is left out runs along the stored polyline of its name**, in the order of travel. What
leaves that one somewhere is stored under the next free name, and what has a free name is stored
under it. -/
theorem Reachable.add_smart_cases [LawfulDistance R] (hc : c.Reachable) (htwo : 2 ≤ line.size)
    (hnumbers : ∀ id stored, c.get? id = some stored →
      ∀ p ∈ line.points, ∀ q ∈ stored.points, ¬ IsNaN (p.distance q)) :
    (∃ name id stored, line.name = some name ∧ c.get? id = some stored ∧
        stored.name = some name ∧ (c.add line .smart).value = .ok (c, id) ∧
        line.RunsAlong stored) ∨
      (∃ name id stored k, line.name = some name ∧ c.get? id = some stored ∧
        stored.name = some name ∧ c.FirstFree name k ∧ (c.add line .smart).value =
          .ok (c.store (line.withName (name ++ "-" ++ toString k)), c.size) ∧
        line.Leaves stored) ∨
      (∀ name, line.name = some name → ¬ c.Holds name) ∧
        (c.add line .smart).value = .ok (c.store line, c.size) := by
  have hwf := hc.wellFormed
  by_cases hfree : ∀ name, line.name = some name → ¬ c.Holds name
  · exact Or.inr (Or.inr ⟨hfree, hwf.add_of_outcome (.stored htwo hfree)⟩)
  · push Not at hfree
    obtain ⟨name, hname, hholds⟩ := hfree
    obtain ⟨id, distance, hnamesake⟩ := hwf.exists_namesake htwo hname hholds
    obtain ⟨stored, hget, hstored, halong, hleaves⟩ :=
      hnamesake.runsAlong_or_leaves hwf (hnumbers id)
    by_cases hnear : distance < 10.0
    · exact Or.inl ⟨name, id, stored, hname, hget, hstored,
        hwf.add_of_outcome (.skipped hnamesake hnear), halong hnear⟩
    · obtain ⟨k, -, hfirst⟩ := hwf.exists_firstFree name
      exact Or.inr (Or.inl ⟨name, id, stored, k, hname, hget, hstored, hfirst,
        hwf.add_of_outcome (.renamed hnamesake hnear hfirst), hleaves hnear⟩)

/-- A line of three places, a quarter of the globe from each to the next. -/
def trunkLine : Polyline Float :=
  ⟨[⟨1.0, 0.0, 0.0⟩, ⟨0.0, 1.0, 0.0⟩, ⟨0.0, 0.0, 1.0⟩], some "Test"⟩

def trunk : Collection Float := ({} : Collection Float).after trunkLine .smart

/-- The first two of the three places, under the same name. -/
def stub : Polyline Float := ⟨[⟨1.0, 0.0, 0.0⟩, ⟨0.0, 1.0, 0.0⟩], some "Test"⟩

theorem reachable_trunk : trunk.Reachable := .add _ _ .empty

theorem trunk_eq : trunk = ({} : Collection Float).store trunkLine :=
  after_of_free (by decide) (by simp [idOf?]) .smart

theorem trunk_get?_eq_some_iff {id : Nat} {stored : Polyline Float} :
    trunk.get? id = some stored ↔ id = 0 ∧ stored = trunkLine := by
  have hempty : ({} : Collection Float).get? id = none := by simp [get?]
  have hsize : ({} : Collection Float).size = 0 := rfl
  rw [trunk_eq, get?_store, hempty, hsize]
  split
  case isTrue hid => simp [hid, eq_comm]
  case isFalse hid => simp [hid]

theorem stub_numbers : ∀ id stored, trunk.get? id = some stored →
    ∀ p ∈ stub.points, ∀ q ∈ stored.points, ¬ IsNaN (p.distance q) := by
  intro id stored hget
  obtain ⟨-, rfl⟩ := trunk_get?_eq_some_iff.mp hget
  decide +kernel

theorem trunk_add_stub : (trunk.add stub .smart).value = .ok (trunk, 0) := by
  have hanswer : trunk.answer stub .smart = .ok 0 := by decide +kernel
  have hnone : (trunk.admitted? stub .smart).isNone := by decide +kernel
  rw [value_add, hanswer, Option.isNone_iff_eq_none.mp hnone]
  rfl

theorem trunk_add_smart_cases : stub.RunsAlong trunkLine := by
  have hanswer := answer_of_add trunk_add_stub
  rcases reachable_trunk.add_smart_cases (by decide) stub_numbers with
    ⟨_, id, stored, _, hget, _, _, halong⟩ | ⟨_, _, _, _, _, _, _, _, hadd, _⟩ | ⟨_, hadd⟩
  · obtain ⟨-, rfl⟩ := trunk_get?_eq_some_iff.mp hget
    exact halong
  · cases hanswer.symm.trans (answer_of_add hadd)
  · cases hanswer.symm.trans (answer_of_add hadd)

/-- Every point of a polyline is within ten meters of a vertex of another. -/
def CloseTo (line other : Polyline Float) : Prop :=
  ∀ p ∈ line.points, ∃ q ∈ other.points, p.distance q ≤ 10.0

instance (line other : Polyline Float) : Decidable (CloseTo line other) :=
  inferInstanceAs (Decidable (∀ p ∈ line.points, ∃ q ∈ other.points, p.distance q ≤ 10.0))

/-- The stored line ends a quarter of the globe from the one that is left out for it. -/
theorem stub_left_out : ¬ ∀ (c : Collection Float) (line : Polyline Float),
    c.Reachable → 2 ≤ line.size → (∀ id stored, c.get? id = some stored →
      ∀ p ∈ line.points, ∀ q ∈ stored.points, ¬ IsNaN (p.distance q)) →
    ∀ id stored, (c.add line .smart).value = .ok (c, id) → c.get? id = some stored →
      CloseTo line stored ∧ CloseTo stored line := by
  intro hclaim
  have hclose := hclaim trunk stub reachable_trunk (by decide) stub_numbers 0 trunkLine
    trunk_add_stub (trunk_get?_eq_some_iff.mpr ⟨rfl, rfl⟩)
  have hfar : ¬ CloseTo trunkLine stub := by decide +kernel
  exact hfar hclose.2

/-! ## The same polyline twice -/

theorem Holds.store {other : Polyline R} (h : c.Holds name) : (c.store other).Holds name := by
  obtain ⟨id, stored, hget, hstored⟩ := h
  have hne : id ≠ c.size := Nat.ne_of_lt (lt_size_of_get? hget)
  exact ⟨id, stored, (c.get?_store_of_ne other hne).trans hget, hstored⟩

theorem holds_store_self (hname : line.name = some name) : (c.store line).Holds name :=
  ⟨c.size, line, by rw [get?_store, if_pos rfl], hname⟩

omit [Scalar R] in
theorem not_holds_empty (name : String) : ¬ ({} : Collection R).Holds name := by
  rintro ⟨id, line, hget, -⟩
  simp [get?] at hget

theorem Namesake.store {id : Nat} {distance : R} (h : c.Namesake line name id distance)
    (other : Polyline R) : (c.store other).Namesake line name id distance := by
  obtain ⟨stored, hget, hstored, hdistance⟩ := h.stored
  have hne : id ≠ c.size := Nat.ne_of_lt (lt_size_of_get? hget)
  exact ⟨h.two_points, h.named, stored, (c.get?_store_of_ne other hne).trans hget, hstored,
    hdistance⟩

theorem FirstFree.lt_of_store {k l : Nat} (h : c.FirstFree name k)
    (hnext : (c.store (line.withName (name ++ "-" ++ toString k))).FirstFree name l) : k < l := by
  by_contra hle
  rcases Nat.lt_or_eq_of_le (Nat.le_of_not_lt hle) with hlt | rfl
  · exact hnext.free (h.taken l hnext.one_le hlt).store
  · exact hnext.free (holds_store_self rfl)

theorem WellFormed.of_add (hc : WellFormed c) {policy : DuplicatePolicy} {next : Collection R}
    {id : Nat} (h : (c.add line policy).value = .ok (next, id)) : WellFormed next := by
  have hafter := hc.after line policy
  unfold Collection.after at hafter
  rw [h] at hafter
  exact hafter

theorem exists_namesake_store_self [LawfulDistance R] (c : Collection R)
    (hname : line.name = some name) (htwo : 2 ≤ line.size)
    (hself : ∀ p ∈ line.points, IsZero (p.distance p)) :
    ∃ distance, (c.store line).Namesake line name c.size distance ∧ distance < 10.0 := by
  have hpoints : line.points ≠ [] := by
    intro hnil
    simp [Polyline.size, hnil] at htwo
  obtain ⟨distance, hdistance, hzero⟩ :=
    Polyline.exists_followDistance_self hpoints hself
  have hget : (c.store line).get? c.size = some line := by rw [get?_store, if_pos rfl]
  exact ⟨distance, ⟨htwo, hname, line, hget, hname, hdistance⟩,
    lt_of_le_of_lt hzero LawfulDistance.zero_lt_ten⟩

/-- **What becomes of a polyline that is added twice**, if its points are at no distance from
themselves. If it is stored under its own name, or left out, the second add changes nothing and has
the same answer. If it is stored under a free name, the second add stores it again, under the next
free name. -/
theorem Reachable.add_twice [LawfulDistance R] (hc : c.Reachable) (hname : line.name = some name)
    (htwo : 2 ≤ line.size) (hself : ∀ p ∈ line.points, IsZero (p.distance p)) :
    ∃ next id, (c.add line .smart).value = .ok (next, id) ∧
      (¬ c.Holds name ∧ next = c.store line ∧ id = c.size ∧
          (next.add line .smart).value = .ok (next, id) ∨
        (∃ distance, c.Namesake line name id distance ∧ distance < 10.0) ∧ next = c ∧
          (next.add line .smart).value = .ok (next, id) ∨
        ∃ k l, c.Holds name ∧ c.FirstFree name k ∧
          next = c.store (line.withName (name ++ "-" ++ toString k)) ∧ id = c.size ∧
          next.FirstFree name l ∧ k < l ∧ (next.add line .smart).value =
            .ok (next.store (line.withName (name ++ "-" ++ toString l)), next.size)) := by
  have hwf := hc.wellFormed
  by_cases hholds : c.Holds name
  · obtain ⟨id, distance, hnamesake⟩ := hwf.exists_namesake htwo hname hholds
    by_cases hnear : distance < 10.0
    · have hadd := hwf.add_of_outcome (.skipped hnamesake hnear)
      exact ⟨c, id, hadd, Or.inr (Or.inl ⟨⟨distance, hnamesake, hnear⟩, rfl, hadd⟩)⟩
    · -- The second add looks for the name of the polyline, not for the free one that it was given,
      -- so it is compared with the same stored polyline again.
      obtain ⟨k, -, hfirst⟩ := hwf.exists_firstFree name
      have hadd := hwf.add_of_outcome (.renamed hnamesake hnear hfirst)
      have hnext := hwf.of_add hadd
      obtain ⟨l, -, hsecond⟩ := hnext.exists_firstFree name
      exact ⟨_, _, hadd, Or.inr (Or.inr ⟨k, l, hholds, hfirst, rfl, rfl, hsecond,
        hfirst.lt_of_store hsecond,
        hnext.add_of_outcome (.renamed (hnamesake.store _) hnear hsecond)⟩)⟩
  · have hfree : ∀ own, line.name = some own → ¬ c.Holds own := by
      intro own hown
      cases hname.symm.trans hown
      exact hholds
    have hadd : (c.add line .smart).value = .ok (c.store line, c.size) :=
      hwf.add_of_outcome (.stored htwo hfree)
    have hnext := hwf.of_add hadd
    obtain ⟨distance, hnamesake, hnear⟩ := c.exists_namesake_store_self hname htwo hself
    exact ⟨_, _, hadd, Or.inl ⟨hholds, rfl, rfl,
      hnext.add_of_outcome (.skipped hnamesake hnear)⟩⟩

/-- A line the other way under the name of the first. -/
def branch : Polyline Float := ⟨[⟨0.0, 0.0, 1.0⟩, ⟨1.0, 0.0, 0.0⟩], some "Test"⟩

theorem branch_self : ∀ p ∈ branch.points, IsZero (p.distance p) := by decide +kernel

theorem trunk_add_branch :
    (trunk.add branch .smart).value = .ok (trunk.after branch .smart, 1) := by
  have hanswer : trunk.answer branch .smart = .ok 1 := by decide +kernel
  rw [value_add, hanswer, after_eq]
  rfl

theorem trunk_answer_branch_again :
    (trunk.after branch .smart).answer branch .smart = .ok 2 := by decide +kernel

theorem trunkLine_and_branch_add_twice :
    (trunk.add trunkLine .smart).value = .ok (trunk, 0) ∧
    ∃ k l, trunk.FirstFree "Test" k ∧ k < l ∧ (trunk.after branch .smart).FirstFree "Test" l ∧
      ((trunk.after branch .smart).add branch .smart).value = .ok
        ((trunk.after branch .smart).store (branch.withName ("Test" ++ "-" ++ toString l)),
          (trunk.after branch .smart).size) := by
  constructor
  · have hname : trunkLine.name = some "Test" := rfl
    obtain ⟨next, id, -, hcases⟩ :=
      Reachable.empty.add_twice hname (by decide) (by decide +kernel)
    rcases hcases with ⟨-, rfl, rfl, hagain⟩ | ⟨⟨_, hnamesake, _⟩, _⟩ | ⟨_, _, hholds, _⟩
    · rw [trunk_eq]
      exact hagain
    · exact absurd hnamesake.holds (not_holds_empty "Test")
    · exact absurd hholds (not_holds_empty "Test")
  · obtain ⟨next, id, hadd, hcases⟩ := reachable_trunk.add_twice rfl (by decide) branch_self
    rw [trunk_add_branch, Except.ok.injEq, Prod.mk.injEq] at hadd
    obtain ⟨rfl, rfl⟩ := hadd
    rcases hcases with ⟨-, -, -, hagain⟩ | ⟨-, -, hagain⟩ | ⟨k, l, -, hk, -, -, hl, hlt, hagain⟩
    · cases trunk_answer_branch_again.symm.trans (answer_of_add hagain)
    · cases trunk_answer_branch_again.symm.trans (answer_of_add hagain)
    · exact ⟨k, l, hk, hlt, hl, hagain⟩

/-- Another copy of it is stored although the last one is the same. -/
theorem branch_stored_again : ¬ ∀ (c : Collection Float) (line : Polyline Float) (name : String),
    c.Reachable → line.name = some name → 2 ≤ line.size →
    (∀ p ∈ line.points, IsZero (p.distance p)) →
    ∀ next id, (c.add line .smart).value = .ok (next, id) →
      (next.add line .smart).value = .ok (next, id) := by
  intro hclaim
  have hsecond := hclaim trunk branch "Test" reachable_trunk rfl (by decide) branch_self _ _
    trunk_add_branch
  cases trunk_answer_branch_again.symm.trans (answer_of_add hsecond)

end Collection

end TransitShapes
