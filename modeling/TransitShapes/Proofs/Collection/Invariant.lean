import TransitShapes.Proofs.Collection.FreeName
import TransitShapes.Scalar.Double

/-! # What every collection keeps

However polylines were added, the two indexes say what the list of polylines says. One add stores
at most one polyline, so it is enough to look at that.
-/

namespace TransitShapes

theorem Polyline.exists_ends {R : Type} (line : Polyline R) (h : 2 ≤ line.size) :
    ∃ ends, line.ends? = some ends := by
  unfold size at h
  unfold ends? first? last?
  match hp : line.points, h with
  | first :: second :: rest, _ => exact ⟨_, rfl⟩

namespace Collection

variable {R : Type}

/-! ## Looking things up -/

theorem lt_size_of_get? {c : Collection R} {id : Nat} {line : Polyline R}
    (h : c.get? id = some line) : id < c.size :=
  (Array.getElem?_eq_some_iff.mp h).1

theorem get?_eq_none_iff {c : Collection R} {id : Nat} : c.get? id = none ↔ c.size ≤ id :=
  Array.getElem?_eq_none_iff

theorem idOf?_eq_none_iff (c : Collection R) (name : String) :
    c.idOf? name = none ↔ name ∉ c.names := by
  unfold idOf?
  rw [Std.TreeMap.mem_iff_isSome_getElem?]
  simp

theorem byName?_eq_some_iff (c : Collection R) {name : String} {line : Polyline R} :
    c.byName? name = some line ↔ ∃ id, c.idOf? name = some id ∧ c.get? id = some line :=
  Option.bind_eq_some_iff

variable [Scalar R]

@[simp]
theorem size_store (c : Collection R) (line : Polyline R) : (c.store line).size = c.size + 1 := by
  simp [size, store]

theorem get?_store (c : Collection R) (line : Polyline R) (id : Nat) :
    (c.store line).get? id = if id = c.size then some line else c.get? id := by
  unfold get? store
  exact Array.getElem?_push

theorem get?_store_of_ne (c : Collection R) (line : Polyline R) {id : Nat} (h : id ≠ c.size) :
    (c.store line).get? id = c.get? id := by
  rw [get?_store, if_neg h]

theorem idOf?_store (c : Collection R) (line : Polyline R) (name : String) :
    (c.store line).idOf? name = if line.name = some name then some c.size else c.idOf? name := by
  unfold idOf? store
  cases hname : line.name with
  | none => simp
  | some own => simp [Std.TreeMap.getElem?_insert]

/-! ## Buckets -/

/-- Whether a stored polyline has its ends in a pair of cells, in one direction or the other. -/
def liesIn (c : Collection R) (key : EndCells) (id : Nat) : Bool :=
  ((c.get? id).bind Polyline.ends?).any fun ends =>
    key = EndCells.ofEnds ends ∨ key = (EndCells.ofEnds ends).swap

theorem liesIn_iff (c : Collection R) (key : EndCells) (id : Nat) :
    c.liesIn key id ↔ ∃ line ends, c.get? id = some line ∧ line.ends? = some ends ∧
      (key = EndCells.ofEnds ends ∨ key = (EndCells.ofEnds ends).swap) := by
  unfold liesIn
  rw [Option.any_eq_true]
  constructor
  · rintro ⟨ends, hends, hkey⟩
    obtain ⟨line, hline, hends⟩ := Option.bind_eq_some_iff.mp hends
    exact ⟨line, ends, hline, hends, by simpa using hkey⟩
  · rintro ⟨line, ends, hline, hends, hkey⟩
    exact ⟨ends, by rw [hline]; exact hends, by simpa using hkey⟩

theorem getD_file (buckets : Std.TreeMap EndCells (List Nat) EndCells.compare)
    (filed key : EndCells) (id : Nat) :
    (file buckets filed id).getD key [] =
      buckets.getD key [] ++ if key = filed then [id] else [] := by
  simp only [file, Std.TreeMap.getD_insert, Std.LawfulEqCmp.compare_eq_iff_eq, @eq_comm _ key]
  split
  case isTrue h => rw [h]
  case isFalse => simp

theorem getD_fileBothWays (buckets : Std.TreeMap EndCells (List Nat) EndCells.compare)
    (filed key : EndCells) (id : Nat) :
    (fileBothWays buckets filed id).getD key [] =
      buckets.getD key [] ++ if key = filed ∨ key = filed.swap then [id] else [] := by
  unfold fileBothWays
  split
  case isTrue hsame => simp only [getD_file, hsame, or_self]
  case isFalse hother =>
    rw [getD_file, getD_file, List.append_assoc]
    by_cases h : key = filed
    · simp [h, Ne.symm hother]
    · simp [h]

theorem bucket_store (c : Collection R) (line : Polyline R) {ends : Vec3 R × Vec3 R}
    (h : line.ends? = some ends) (key : EndCells) :
    (c.store line).bucket key = c.bucket key ++
      if key = EndCells.ofEnds ends ∨ key = (EndCells.ofEnds ends).swap then [c.size] else [] := by
  unfold bucket store
  rw [h]
  exact getD_fileBothWays ..

/-! ## The invariant -/

/-- What the indexes of a collection say about its polylines. -/
structure WellFormed (c : Collection R) : Prop where
  two_points : ∀ {id line}, c.get? id = some line → 2 ≤ line.size
  named : ∀ {name id}, c.idOf? name = some id ↔
    ∃ line, c.get? id = some line ∧ line.name = some name
  filed : ∀ key, c.bucket key = (List.range c.size).filter (c.liesIn key)

theorem wellFormed_empty : WellFormed ({} : Collection R) where
  two_points h := by simp [get?] at h
  named := by simp [idOf?, get?]
  filed key := by simp [bucket, size]

theorem liesIn_store (c : Collection R) (line : Polyline R) (key : EndCells) {id : Nat}
    (h : id < c.size) : (c.store line).liesIn key id = c.liesIn key id := by
  unfold liesIn
  rw [get?_store_of_ne c line (by omega)]

theorem liesIn_store_self (c : Collection R) (line : Polyline R) {ends : Vec3 R × Vec3 R}
    (h : line.ends? = some ends) (key : EndCells) :
    (c.store line).liesIn key c.size ↔
      key = EndCells.ofEnds ends ∨ key = (EndCells.ofEnds ends).swap := by
  unfold liesIn
  rw [get?_store, if_pos rfl, Option.bind_some, h]
  simp

theorem WellFormed.store {c : Collection R} (hc : WellFormed c) {line : Polyline R}
    (htwo : 2 ≤ line.size) (hfree : ∀ name, line.name = some name → c.idOf? name = none) :
    WellFormed (c.store line) where
  two_points {id stored} h := by
    rw [get?_store] at h
    split at h
    · rw [← Option.some.inj h]
      exact htwo
    · exact hc.two_points h
  named {name id} := by
    rw [idOf?_store]
    split
    case isTrue hname =>
      constructor
      · intro h
        rw [← Option.some.inj h]
        exact ⟨line, by rw [get?_store, if_pos rfl], hname⟩
      · rintro ⟨stored, hget, hstored⟩
        rw [get?_store] at hget
        split at hget
        case isTrue hid => rw [hid]
        case isFalse =>
          have := hc.named.mpr ⟨stored, hget, hstored⟩
          rw [hfree name hname] at this
          cases this
    case isFalse hname =>
      rw [hc.named]
      refine exists_congr fun stored => and_congr_left fun hstored => ?_
      rw [get?_store]
      split
      case isTrue hid =>
        rw [hid, get?_eq_none_iff.mpr (Nat.le_refl _)]
        simp only [reduceCtorEq, Option.some.injEq, false_iff]
        rintro rfl
        exact hname hstored
      case isFalse => rfl
  filed key := by
    obtain ⟨ends, hends⟩ := line.exists_ends htwo
    rw [bucket_store c line hends, hc.filed, size_store, List.range_succ, List.filter_append]
    congr 1
    · refine List.filter_congr fun id hid => (liesIn_store c line key ?_).symm
      exact List.mem_range.mp hid
    · simp only [List.filter_cons, List.filter_nil, liesIn_store_self c line hends]

theorem WellFormed.mem_bucket {c : Collection R} (hc : WellFormed c) {key : EndCells} {id : Nat} :
    id ∈ c.bucket key ↔ ∃ line ends, c.get? id = some line ∧ line.ends? = some ends ∧
      (key = EndCells.ofEnds ends ∨ key = (EndCells.ofEnds ends).swap) := by
  rw [hc.filed, List.mem_filter, List.mem_range, liesIn_iff]
  refine and_iff_right_of_imp ?_
  rintro ⟨line, _, hget, _⟩
  exact lt_size_of_get? hget

theorem WellFormed.bucket_sorted {c : Collection R} (hc : WellFormed c) (key : EndCells) :
    (c.bucket key).Pairwise (· < ·) := by
  rw [hc.filed]
  exact List.pairwise_lt_range.filter _

theorem WellFormed.count_bucket {c : Collection R} (hc : WellFormed c) {id : Nat}
    {line : Polyline R} {ends : Vec3 R × Vec3 R} {key : EndCells} (hget : c.get? id = some line)
    (hends : line.ends? = some ends)
    (hkey : key = EndCells.ofEnds ends ∨ key = (EndCells.ofEnds ends).swap) :
    (c.bucket key).count id = 1 :=
  List.count_eq_one_of_mem ((hc.bucket_sorted key).imp Nat.ne_of_lt)
    (hc.mem_bucket.mpr ⟨line, ends, hget, hends, hkey⟩)

/-! ## What an add stores -/

theorem storable_of_admission {c : Collection R} {line new : Polyline R} {policy : DuplicatePolicy}
    {a : Admission R} (ha : c.admission line policy = .ok a) (hnew : a.line? = some new) :
    2 ≤ new.size ∧ ∀ name, new.name = some name → c.idOf? name = none := by
  unfold admission at ha
  split at ha
  · cases ha
  rename_i htwo
  split at ha
  case h_1 hfresh =>
    cases ha
    cases hnew
    refine ⟨by omega, fun name hname => ?_⟩
    rw [hname] at hfresh
    simpa using hfresh
  case h_2 name id _ =>
    unfold decideNamesake at ha
    split at ha
    · cases ha
    cases hdist : line.followDistance ((c.get? id).getD {}) with
    | error e => simp [hdist, bind, Except.bind] at ha
    | ok distance =>
      simp only [hdist, bind, Except.bind] at ha
      split at ha
      · cases ha
        cases hnew
      · cases ha
        cases hnew
        have hsize : (line.withName (c.freeName name)).size = line.size := rfl
        refine ⟨by omega, fun own hown => ?_⟩
        rw [idOf?_eq_none_iff, ← Option.some.inj hown]
        exact c.freeName_not_mem name

/-- An add stores the polyline that is admitted, if one is. -/
theorem receive_fst (c : Collection R) (a : Admission R) :
    (c.receive a).1 = a.line?.elim c c.store := by
  cases a <;> rfl

theorem WellFormed.receive {c : Collection R} (hc : WellFormed c) {line : Polyline R}
    {policy : DuplicatePolicy} {a : Admission R} (ha : c.admission line policy = .ok a) :
    WellFormed (c.receive a).1 := by
  rw [receive_fst]
  cases hnew : a.line? with
  | none => exact hc
  | some new =>
    obtain ⟨htwo, hfree⟩ := storable_of_admission ha hnew
    exact hc.store htwo hfree

/-! ## Every run of adds -/

/-- The collection after an add. One that fails leaves it as it was. -/
def after (c : Collection R) (line : Polyline R) (policy : DuplicatePolicy) : Collection R :=
  match (c.add line policy).value with
  | .ok (next, _) => next
  | .error _ => c

/-- The collections that adds make from the empty one. -/
inductive Reachable : Collection R → Prop where
  | empty : Reachable {}
  | add {c : Collection R} (line : Polyline R) (policy : DuplicatePolicy) :
      Reachable c → Reachable (c.after line policy)

theorem after_cases (c : Collection R) (line : Polyline R) (policy : DuplicatePolicy) :
    c.after line policy = c ∨
      ∃ a, c.admission line policy = .ok a ∧ c.after line policy = (c.receive a).1 := by
  unfold after add
  cases ha : c.admission line policy with
  | error e => exact Or.inl rfl
  | ok a => exact Or.inr ⟨a, rfl, rfl⟩

theorem WellFormed.after {c : Collection R} (hc : WellFormed c) (line : Polyline R)
    (policy : DuplicatePolicy) : WellFormed (c.after line policy) := by
  rcases c.after_cases line policy with h | ⟨a, ha, h⟩
  · rw [h]
    exact hc
  · rw [h]
    exact hc.receive ha

theorem Reachable.wellFormed {c : Collection R} (hc : Reachable c) : WellFormed c := by
  induction hc with
  | empty => exact wellFormed_empty
  | add line policy _ ih => exact ih.after line policy

theorem admission_of_free {c : Collection R} {line : Polyline R} (htwo : 2 ≤ line.size)
    (hfree : ∀ name, line.name = some name → c.idOf? name = none) (policy : DuplicatePolicy) :
    c.admission line policy = .ok (.stored line) := by
  unfold admission
  rw [if_neg (by omega)]
  cases hname : line.name with
  | none => rfl
  | some name => simp [hfree name hname]

theorem after_of_free {c : Collection R} {line : Polyline R} (htwo : 2 ≤ line.size)
    (hfree : ∀ name, line.name = some name → c.idOf? name = none) (policy : DuplicatePolicy) :
    c.after line policy = c.store line := by
  unfold after add
  rw [admission_of_free htwo hfree policy]
  rfl

/-! ## What an add leaves alone -/

theorem get?_after {c : Collection R} {id : Nat} {stored : Polyline R} (line : Polyline R)
    (policy : DuplicatePolicy) (h : c.get? id = some stored) :
    (c.after line policy).get? id = some stored := by
  have hlt := lt_size_of_get? h
  rcases c.after_cases line policy with hsame | ⟨a, _, hreceive⟩
  · rw [hsame]
    exact h
  · rw [hreceive, receive_fst]
    cases a.line? with
    | none => exact h
    | some new =>
      rw [Option.elim_some, get?_store_of_ne c new (by omega)]
      exact h

theorem WellFormed.byName?_after {c : Collection R} (hc : WellFormed c) {name : String}
    {stored : Polyline R} (line : Polyline R) (policy : DuplicatePolicy)
    (h : c.byName? name = some stored) : (c.after line policy).byName? name = some stored := by
  obtain ⟨id, hid, hget⟩ := c.byName?_eq_some_iff.mp h
  obtain ⟨named, hnamed, hname⟩ := hc.named.mp hid
  rw [byName?_eq_some_iff]
  exact ⟨id, (hc.after line policy).named.mpr ⟨named, get?_after line policy hnamed, hname⟩,
    get?_after line policy hget⟩

/-! ## The theorem -/

/-- The two indexes of a collection, exactly: a name leads to the only polyline that has it, and a
polyline is filed once in each direction under the cells of its ends and nowhere else. No add
changes what a number or a name led to before. -/
theorem Reachable.indexes_exact {c : Collection R} (hc : Reachable c) :
    (∀ id line, c.get? id = some line → 2 ≤ line.size) ∧
    (∀ i j first second name, c.get? i = some first → c.get? j = some second →
      first.name = some name → second.name = some name → i = j) ∧
    (∀ name id, c.idOf? name = some id ↔
      ∃ line, c.get? id = some line ∧ line.name = some name) ∧
    (∀ id line name, c.get? id = some line → line.name = some name →
      c.byName? name = some line) ∧
    (∀ id line, c.get? id = some line → ∃ ends, line.ends? = some ends ∧
      (c.bucket (EndCells.ofEnds ends)).count id = 1 ∧
      (c.bucket (EndCells.ofEnds ends).swap).count id = 1 ∧
      ∀ key, key ≠ EndCells.ofEnds ends → key ≠ (EndCells.ofEnds ends).swap →
        id ∉ c.bucket key) ∧
    (∀ key, (c.bucket key).Pairwise (· < ·) ∧ ∀ id ∈ c.bucket key, id < c.size) ∧
    ∀ line policy,
      (∀ id stored, c.get? id = some stored → (c.after line policy).get? id = some stored) ∧
      ∀ name stored, c.byName? name = some stored →
        (c.after line policy).byName? name = some stored := by
  have hwf := hc.wellFormed
  refine ⟨fun _ _ h => hwf.two_points h, ?_, fun _ _ => hwf.named, ?_, ?_, ?_, ?_⟩
  · intro i j first second name hi hj hfirst hsecond
    have hin := hwf.named.mpr ⟨first, hi, hfirst⟩
    rw [hwf.named.mpr ⟨second, hj, hsecond⟩] at hin
    exact (Option.some.inj hin).symm
  · intro id line name hget hname
    exact c.byName?_eq_some_iff.mpr ⟨id, hwf.named.mpr ⟨line, hget, hname⟩, hget⟩
  · intro id line hget
    obtain ⟨ends, hends⟩ := line.exists_ends (hwf.two_points hget)
    refine ⟨ends, hends, hwf.count_bucket hget hends (Or.inl rfl),
      hwf.count_bucket hget hends (Or.inr rfl), fun key hkey hswap hmem => ?_⟩
    rw [hwf.mem_bucket] at hmem
    obtain ⟨line', ends', hget', hends', hor⟩ := hmem
    rw [hget] at hget'
    cases hget'
    rw [hends] at hends'
    cases hends'
    rcases hor with h | h
    · exact hkey h
    · exact hswap h
  · intro key
    refine ⟨hwf.bucket_sorted key, fun id hid => ?_⟩
    obtain ⟨line, _, hget, _⟩ := hwf.mem_bucket.mp hid
    exact lt_size_of_get? hget
  · intro line policy
    exact ⟨fun _ _ h => get?_after line policy h,
      fun _ _ h => hwf.byName?_after line policy h⟩

/-- Two polylines of one name that run apart, and one more with the name that the second got. -/
def namesakes : Collection Float :=
  ((({} : Collection Float).after ⟨[⟨1.0, 0.0, 0.0⟩, ⟨0.0, 1.0, 0.0⟩], some "Main"⟩ .smart).after
    ⟨[⟨0.0, 1.0, 0.0⟩, ⟨0.0, 0.0, 1.0⟩], some "Main"⟩ .smart).after
    ⟨[⟨1.0, 0.0, 0.0⟩, ⟨0.0, 0.0, 1.0⟩], some "Main-1"⟩ .smart

theorem namesakes_indexes_exact :
    Reachable namesakes ∧ namesakes.size = 3 ∧ ∃ line, namesakes.get? 1 = some line ∧
      line.name = some "Main-1" ∧ namesakes.byName? "Main-1" = some line := by
  have hreach : Reachable namesakes := .add _ _ (.add _ _ (.add _ _ .empty))
  have hname : (namesakes.get? 1).bind (·.name) = some "Main-1" := by decide +kernel
  obtain ⟨line, hget, hname⟩ := Option.bind_eq_some_iff.mp hname
  exact ⟨hreach, by decide +kernel, line, hget, hname,
    hreach.indexes_exact.2.2.2.1 1 line "Main-1" hget hname⟩

end Collection

end TransitShapes
