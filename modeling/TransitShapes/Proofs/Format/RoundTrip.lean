import TransitShapes.Format.Places
import TransitShapes.Proofs.Format.Search

/-! # Settings and records survive JSON

What was written reads back as what it was, and so does any other text that gives the same values to
the same members. It is assumed of a number that it reads back from its own text: the reader may be
off by the last bit, so not every double does.
-/

namespace TransitShapes.Format

open Json Reader Scalar

variable {σ : Type}

/-! ## Numbers -/

/-- A finite number reads back from the text that is written for it. -/
def ReadsBack (x : Float) : Prop := isFinite x → IsTextOf float x (Decimal.json.write x)

/-- A text for a number: any that reads as it, and `null` for one that is not finite. -/
def IsNumberText (x : Float) (text : String) : Prop :=
  if isFinite x then IsTextOf float x text else text = "null"

theorem write_of_not_isFinite {x : Float} (h : ¬ isFinite x) : Decimal.json.write x = "null" := by
  simp only [isFinite] at h
  unfold Decimal.Layout.write
  cases hx : Binary64.ofFloat x with
  | nan => rfl
  | infinite negative => cases negative <;> rfl
  | finite => simp [hx] at h

theorem ReadsBack.isNumberText {x : Float} (h : ReadsBack x) :
    IsNumberText x (Decimal.json.write x) := by
  unfold IsNumberText
  split
  · exact h ‹_›
  · exact write_of_not_isFinite ‹_›

theorem reads_float_field {x : Float} {text : String} (h : IsTextOf float x text)
    (put : Float → σ) :
    Reads EndsValue (do return put (← float)) text.toList (.ok (put x)) := by
  obtain ⟨n, hn, rfl⟩ := h.isNumber_of_float
  exact hn.reads_float.returns put

theorem IsNumberText.reads {x : Float} {text : String} (h : IsNumberText x text) (put : Float → σ) :
    Reads EndsValue (do return put (← float)) text.toList
      (if isFinite x then .ok (put x) else .error .wrongShape) := by
  unfold IsNumberText at h
  split
  case isTrue hx =>
    rw [if_pos hx] at h
    exact reads_float_field h put
  case isFalse hx =>
    rw [if_neg hx] at h
    subst h
    exact reads_float_null.returns put

/-! ## Settings -/

def distanceMember (x : Float) : Member :=
  { names := ["max_distance_meters"], IsValue := IsNumberText x }

def searchMember (search : PathSearch) : Member :=
  { names := ["path_search"], IsValue := IsSearchText search }

def verbosityMember (verbosity : UInt8) : Member :=
  { names := ["verbosity"], IsValue := IsTextOf (natural 255) verbosity.toNat }

def policyMember (policy : DuplicatePolicy) : Member :=
  { names := ["duplicate_policy"], IsValue := IsQuoted (policyName policy) }

/-- The members that give these settings. A setting that is absent has none. -/
def settingsMembers (p : PartialSettings) : List Member :=
  p.maxDistance.toList.map distanceMember ++ p.search.toList.map searchMember ++
    p.verbosity.toList.map verbosityMember ++ p.policy.toList.map policyMember

/-- The texts of settings that may be partial. -/
def IsSettingsText (p : PartialSettings) (text : String) : Prop :=
  IsObject settings.names (settingsMembers p) text

def putDistance (x : Float) : Change PartialSettings :=
  .once (·.maxDistance.isSome) fun s =>
    if isFinite x then .ok { s with maxDistance := some x } else .error .wrongShape

def putSearch (search : PathSearch) : Change PartialSettings :=
  .once (·.search.isSome) fun s => .ok { s with search := some search }

def putVerbosity (verbosity : UInt8) : Change PartialSettings :=
  .once (·.verbosity.isSome) fun s => .ok { s with verbosity := some verbosity }

def putPolicy (policy : DuplicatePolicy) : Change PartialSettings :=
  .once (·.policy.isSome) fun s => .ok { s with policy := some policy }

def settingsChanges (p : PartialSettings) : List (Change PartialSettings) :=
  p.maxDistance.toList.map putDistance ++ p.search.toList.map putSearch ++
    p.verbosity.toList.map putVerbosity ++ p.policy.toList.map putPolicy

section
variable {levels : Nat}

theorem makes_distanceMember (x : Float) :
    MakesAsWritten id (settings.readMember levels) (distanceMember x) (putDistance x) :=
  RecordFormat.makes_readMember (List.forall_mem_singleton.mpr rfl) fun _ hvalue s =>
    hvalue.reads fun x => { s with maxDistance := some x }

theorem makes_searchMember (search : PathSearch) :
    MakesAsWritten id (settings.readMember (levels + 1)) (searchMember search)
      (putSearch search) :=
  RecordFormat.makes_readMember (List.forall_mem_singleton.mpr rfl) fun _ hvalue s =>
    hvalue.reads.returns fun search => { s with search := some search }

theorem makes_verbosityMember (verbosity : UInt8) :
    MakesAsWritten id (settings.readMember levels) (verbosityMember verbosity)
      (putVerbosity verbosity) := by
  refine RecordFormat.makes_readMember (List.forall_mem_singleton.mpr rfl) fun _ hvalue s => ?_
  rw [← UInt8.ofNat_toNat (x := verbosity)]
  exact hvalue.reads_natural.returns fun n => { s with verbosity := some (UInt8.ofNat n) }

theorem makes_policyMember (policy : DuplicatePolicy) :
    MakesAsWritten id (settings.readMember levels) (policyMember policy) (putPolicy policy) :=
  RecordFormat.makes_readMember (List.forall_mem_singleton.mpr rfl) fun _ hvalue s =>
    (reads_readPolicy hvalue).returns fun policy => { s with policy := some policy }

theorem forall₂_toList {α β γ : Type} {R : β → γ → Prop} {f : α → β} {g : α → γ}
    (h : ∀ a, R (f a) (g a)) (o : Option α) :
    List.Forall₂ R (o.toList.map f) (o.toList.map g) := by
  cases o with
  | none => exact .nil
  | some a => exact .cons (h a) .nil

theorem makes_settingsMembers (p : PartialSettings) :
    List.Forall₂ (MakesAsWritten id (settings.readMember (levels + 1))) (settingsMembers p)
      (settingsChanges p) :=
  List.rel_append (List.rel_append (List.rel_append
    (forall₂_toList makes_distanceMember p.maxDistance)
    (forall₂_toList makes_searchMember p.search))
    (forall₂_toList makes_verbosityMember p.verbosity))
    (forall₂_toList makes_policyMember p.policy)

end

/-! ### The order of the members -/

theorem commute_putDistance (x : Float) {c : Change PartialSettings}
    (hc : (∃ search, c = putSearch search) ∨ (∃ verbosity, c = putVerbosity verbosity) ∨
      ∃ policy, c = putPolicy policy) : Change.Commute (putDistance x) c := by
  rintro ⟨_ | _, _ | _, _ | _, _ | _⟩
  all_goals
    unfold putDistance Change.once
    cases isFinite x <;> rcases hc with ⟨_, rfl⟩ | ⟨_, rfl⟩ | ⟨_, rfl⟩ <;> rfl

theorem commute_putSearch_putVerbosity (search : PathSearch) (verbosity : UInt8) :
    Change.Commute (putSearch search) (putVerbosity verbosity) := by
  rintro ⟨_, _ | _, _ | _, _⟩ <;> rfl

theorem commute_putSearch_putPolicy (search : PathSearch) (policy : DuplicatePolicy) :
    Change.Commute (putSearch search) (putPolicy policy) := by
  rintro ⟨_, _ | _, _, _ | _⟩ <;> rfl

theorem commute_putVerbosity_putPolicy (verbosity : UInt8) (policy : DuplicatePolicy) :
    Change.Commute (putVerbosity verbosity) (putPolicy policy) := by
  rintro ⟨_, _, _ | _, _ | _⟩ <;> rfl

theorem pairwise_settingsChanges (p : PartialSettings) :
    (settingsChanges p).Pairwise Change.Commute := by
  have hone : ∀ {α : Type} (o : Option α) (put : α → Change PartialSettings),
      (o.toList.map put).Pairwise Change.Commute := by
    intro α o put
    cases o <;> simp
  unfold settingsChanges
  simp only [List.pairwise_append, hone, List.mem_append, List.mem_map, true_and]
  refine ⟨⟨?_, ?_⟩, ?_⟩
  · rintro _ ⟨x, _, rfl⟩ _ ⟨search, _, rfl⟩
    exact commute_putDistance x (Or.inl ⟨search, rfl⟩)
  · rintro _ (⟨x, _, rfl⟩ | ⟨search, _, rfl⟩) _ ⟨verbosity, _, rfl⟩
    · exact commute_putDistance x (Or.inr (Or.inl ⟨verbosity, rfl⟩))
    · exact commute_putSearch_putVerbosity search verbosity
  · rintro _ ((⟨x, _, rfl⟩ | ⟨search, _, rfl⟩) | ⟨verbosity, _, rfl⟩) _ ⟨policy, _, rfl⟩
    · exact commute_putDistance x (Or.inr (Or.inr ⟨policy, rfl⟩))
    · exact commute_putSearch_putPolicy search policy
    · exact commute_putVerbosity_putPolicy verbosity policy

theorem all_settingsChanges (p : PartialSettings) :
    Change.all (settingsChanges p) {} =
      if isFinite p.complete.maxDistance then .ok p else .error .wrongShape := by
  obtain ⟨distance, search, verbosity, policy⟩ := p
  have hrest : ∀ distance : Option Float,
      Change.all (search.toList.map putSearch ++ (verbosity.toList.map putVerbosity ++
        policy.toList.map putPolicy)) { maxDistance := distance } =
        .ok ⟨distance, search, verbosity, policy⟩ := by
    intro distance
    cases search <;> cases verbosity <;> cases policy <;> rfl
  unfold settingsChanges
  rw [List.append_assoc, List.append_assoc, Change.all_append]
  cases distance with
  | none =>
    have hstandard : isFinite (150.0 : Float) := by decide +kernel
    simp only [PartialSettings.complete, Option.getD_none, hstandard]
    exact hrest none
  | some x =>
    have hput : Change.all [putDistance x] {} = putDistance x {} := by
      change (putDistance x {}).bind Except.ok = _
      cases putDistance x {} <;> rfl
    change Change.all [putDistance x] {} >>= _ = if isFinite x then _ else _
    rw [hput]
    unfold putDistance Change.once
    cases isFinite x with
    | true => exact hrest (some x)
    | false => rfl

/-! ### Whole texts -/

theorem validate_eq_ok {s t : Settings Float} (h : s.validate = .ok t) : s = t := by
  unfold Settings.validate at h
  split at h
  · cases h
  · split at h
    · cases h
    · exact Except.ok.inj h

theorem isFinite_of_validate {s : Settings Float} (h : s.validate = .ok s) :
    isFinite s.maxDistance := by
  by_contra hnot
  unfold Settings.validate at h
  rw [if_pos (Or.inl hnot)] at h
  cases h

theorem readSettings_eq_ok {p : PartialSettings} {text : String} (h : IsSettingsText p text)
    (t : Settings Float) :
    readSettings text = .ok t ↔ p.complete.validate = .ok p.complete ∧ t = p.complete := by
  have hread : (settings.read nestingLimit).run text =
      if isFinite p.complete.maxDistance then .ok p.complete else .error .wrongShape := by
    refine (RecordFormat.run_read_eq h (makes_settingsMembers p)
      (pairwise_settingsChanges p)).trans ?_
    change Change.all (settingsChanges p) {} >>= settings.finished = _
    rw [all_settingsChanges]
    split <;> rfl
  unfold readSettings
  rw [hread]
  by_cases hfinite : isFinite p.complete.maxDistance
  · rw [if_pos hfinite]
    cases hvalid : p.complete.validate with
    | error e => simp [hvalid]
    | ok s =>
      obtain rfl := validate_eq_ok hvalid
      simp [hvalid, eq_comm]
  · rw [if_neg hfinite]
    have hinvalid : p.complete.validate ≠ .ok p.complete := fun hvalid =>
      hfinite (isFinite_of_validate hvalid)
    simp [hinvalid]

def PartialSettings.full (s : Settings Float) : PartialSettings :=
  ⟨some s.maxDistance, some s.search, some s.verbosity, some s.policy⟩

theorem PartialSettings.complete_full (s : Settings Float) : (full s).complete = s := rfl

theorem isSettingsText_writeSettings {s : Settings Float} (h : ReadsBack s.maxDistance) :
    IsSettingsText (.full s) (writeSettings s) := by
  have hverbosity : IsTextOf (natural 255) s.verbosity.toNat (toString s.verbosity.toNat) :=
    isTextOf_toString (Nat.le_of_lt_succ s.verbosity.toNat_lt)
      (Nat.lt_trans s.verbosity.toNat_lt (by decide))
  have hpolicy : IsPlain (policyName s.policy) := by cases s.policy <;> decide
  have honly : ∀ name : String, name ∈ [name] := List.mem_singleton_self
  exact isObject_writeObject (.cons (.plain h.isNumberText (honly _) (by decide))
    (.cons (.plain (isSearchText_writeSearch s.search) (honly _) (by decide))
      (.cons (.plain hverbosity (honly _) (by decide))
        (.cons (.plain (isQuoted_quoted hpolicy) (honly _) (by decide)) .nil))))

/-! ## Places and vertices -/

def numberMember (names : List String) (x : Float) : Member :=
  { names, IsValue := IsTextOf float x }

/-- The texts of a place, with any of the names that feeds use. -/
def IsPlaceText (p : LatLng Float) (text : String) : Prop :=
  IsObject place.names
    [numberMember ["lat", "stop_lat"] p.lat, numberMember ["lon", "stop_lon", "lng"] p.lng] text

/-- A distance that may be `null`. -/
def travelledMember (travelled : Option Float) : Member :=
  { names := ["dist_traveled", "shape_dist_traveled"]
    IsValue := fun text =>
      match travelled with
      | none => text = "null"
      | some x => IsTextOf float x text }

/-- The texts of a vertex. A distance that is not there may be absent from the text as well. -/
def IsVertexText (v : ShapeVertex Float) (text : String) : Prop :=
  let sides := [numberMember ["lat", "shape_pt_lat"] v.place.lat,
    numberMember ["lon", "shape_pt_lon"] v.place.lng]
  IsObject vertex.names (sides ++ [travelledMember v.travelled]) text ∨
    v.travelled = none ∧ IsObject vertex.names sides text

theorem makes_numberMember {α : Type} {f : RecordFormat σ α} {levels : Nat} {names : List String}
    {isSet : σ → Bool} (put : σ → Float → σ) (x : Float)
    (hfield : ∀ name ∈ names,
      f.field? name = some ⟨names, isSet, fun _ s => do return put s (← float)⟩) :
    MakesAsWritten id (f.readMember levels) (numberMember names x)
      (.once isSet fun s => .ok (put s x)) :=
  RecordFormat.makes_readMember hfield fun _ hvalue s => reads_float_field hvalue (put s)

/-! ### Places -/

def PartialPlace.putLat (s : PartialPlace) (x : Float) : PartialPlace := { s with lat := some x }

def PartialPlace.putLng (s : PartialPlace) (x : Float) : PartialPlace := { s with lng := some x }

theorem readPlace_eq_ok {p : LatLng Float} {text : String} (h : IsPlaceText p text) :
    readPlace text = .ok p := by
  have hlat : MakesAsWritten id (place.readMember 126) (numberMember ["lat", "stop_lat"] p.lat)
      (.once (·.lat.isSome) fun s => .ok (s.putLat p.lat)) :=
    makes_numberMember PartialPlace.putLat p.lat
      (List.forall_mem_cons.mpr ⟨rfl, List.forall_mem_singleton.mpr rfl⟩)
  have hlng : MakesAsWritten id (place.readMember 126)
      (numberMember ["lon", "stop_lon", "lng"] p.lng)
      (.once (·.lng.isSome) fun s => .ok (s.putLng p.lng)) :=
    makes_numberMember PartialPlace.putLng p.lng
      (List.forall_mem_cons.mpr
        ⟨rfl, List.forall_mem_cons.mpr ⟨rfl, List.forall_mem_singleton.mpr rfl⟩⟩)
  refine RecordFormat.run_read_eq h (.cons hlat (.cons hlng .nil)) (List.pairwise_pair.mpr ?_)
  rintro ⟨_ | _, _ | _⟩ <;> rfl

theorem isPlaceText_writePlace {p : LatLng Float}
    (hlat : IsTextOf float p.lat (Decimal.json.write p.lat))
    (hlng : IsTextOf float p.lng (Decimal.json.write p.lng)) : IsPlaceText p (writePlace p) :=
  isObject_writeObject (.cons (.plain hlat (List.mem_cons_self ..) (by decide))
    (.cons (.plain hlng (List.mem_cons_self ..) (by decide)) .nil))

/-! ### Vertices -/

def PartialVertex.putLat (s : PartialVertex) (x : Float) : PartialVertex := { s with lat := some x }

def PartialVertex.putLng (s : PartialVertex) (x : Float) : PartialVertex := { s with lng := some x }

theorem reads_optional_float {travelled : Option Float} {text : String}
    (h : (travelledMember travelled).IsValue text) :
    Reads EndsValue (optional float) text.toList (.ok travelled) := by
  cases travelled with
  | none =>
    subst h
    exact reads_optional_null
  | some x =>
    obtain ⟨n, hn, rfl⟩ := IsTextOf.isNumber_of_float h
    exact hn.reads_optional

theorem makes_travelledMember {levels : Nat} (travelled : Option Float) :
    MakesAsWritten id (vertex.readMember levels) (travelledMember travelled)
      (.once (·.travelled.isSome) fun s => .ok { s with travelled := some travelled }) :=
  RecordFormat.makes_readMember (List.forall_mem_cons.mpr ⟨rfl, List.forall_mem_singleton.mpr rfl⟩)
    fun _ hvalue s =>
      (reads_optional_float hvalue).returns fun travelled => { s with travelled := some travelled }

theorem readVertex_eq_ok {v : ShapeVertex Float} {text : String} (h : IsVertexText v text) :
    readVertex text = .ok v := by
  have hlat : MakesAsWritten id (vertex.readMember 126)
      (numberMember ["lat", "shape_pt_lat"] v.place.lat)
      (.once (·.lat.isSome) fun s => .ok (s.putLat v.place.lat)) :=
    makes_numberMember PartialVertex.putLat v.place.lat
      (List.forall_mem_cons.mpr ⟨rfl, List.forall_mem_singleton.mpr rfl⟩)
  have hlng : MakesAsWritten id (vertex.readMember 126)
      (numberMember ["lon", "shape_pt_lon"] v.place.lng)
      (.once (·.lng.isSome) fun s => .ok (s.putLng v.place.lng)) :=
    makes_numberMember PartialVertex.putLng v.place.lng
      (List.forall_mem_cons.mpr ⟨rfl, List.forall_mem_singleton.mpr rfl⟩)
  have hsides : Change.Commute
      (.once (fun s : PartialVertex => s.lat.isSome) fun s => .ok (s.putLat v.place.lat))
      (.once (·.lng.isSome) fun s => .ok (s.putLng v.place.lng)) := by
    rintro ⟨_ | _, _ | _, _⟩ <;> rfl
  rcases h with h | ⟨hnone, h⟩
  · refine RecordFormat.run_read_eq h
      (.cons hlat (.cons hlng (.cons (makes_travelledMember v.travelled) .nil)))
      (List.pairwise_cons.mpr ⟨fun c hc => ?_, List.pairwise_pair.mpr ?_⟩)
    · rcases List.mem_pair.mp hc with rfl | rfl
      · exact hsides
      · rintro ⟨_ | _, _, _ | _⟩ <;> rfl
    · rintro ⟨_, _ | _, _ | _⟩ <;> rfl
  · obtain ⟨p, travelled⟩ := v
    cases hnone
    exact RecordFormat.run_read_eq h (.cons hlat (.cons hlng .nil)) (List.pairwise_pair.mpr hsides)

theorem isVertexText_writeVertex {v : ShapeVertex Float}
    (hlat : IsTextOf float v.place.lat (Decimal.json.write v.place.lat))
    (hlng : IsTextOf float v.place.lng (Decimal.json.write v.place.lng))
    (htravelled : ∀ x ∈ v.travelled, IsTextOf float x (Decimal.json.write x)) :
    IsVertexText v (writeVertex v) := by
  have hvalue : (travelledMember v.travelled).IsValue
      ((v.travelled.map Decimal.json.write).getD "null") := by
    cases h : v.travelled with
    | none => exact rfl
    | some x => exact htravelled x h
  exact .inl (isObject_writeObject (.cons (.plain hlat (List.mem_cons_self ..) (by decide))
    (.cons (.plain hlng (List.mem_cons_self ..) (by decide))
      (.cons (.plain hvalue (List.mem_cons_self ..) (by decide)) .nil))))

/-! ## The round trip -/

/-- Settings read back from the text that is written for them just when they are valid, and places
and vertices always do. What is written is one of the texts that give these values to these members,
in any order, under any of their names and with other members among them, and all of them read as
the same. -/
theorem survives_json :
    (∀ s : Settings Float, ReadsBack s.maxDistance →
      IsSettingsText (.full s) (writeSettings s) ∧
      ∀ t, readSettings (writeSettings s) = .ok t ↔ s.validate = .ok s ∧ t = s) ∧
    (∀ (p : PartialSettings) (text : String), IsSettingsText p text →
      ∀ t, readSettings text = .ok t ↔ p.complete.validate = .ok p.complete ∧ t = p.complete) ∧
    (∀ p : LatLng Float, isFinite p.lat → isFinite p.lng → ReadsBack p.lat → ReadsBack p.lng →
      IsPlaceText p (writePlace p) ∧ readPlace (writePlace p) = .ok p) ∧
    (∀ (p : LatLng Float) (text : String), IsPlaceText p text → readPlace text = .ok p) ∧
    (∀ v : ShapeVertex Float, isFinite v.place.lat → isFinite v.place.lng →
      (∀ x ∈ v.travelled, isFinite x) → ReadsBack v.place.lat → ReadsBack v.place.lng →
      (∀ x ∈ v.travelled, ReadsBack x) →
      IsVertexText v (writeVertex v) ∧ readVertex (writeVertex v) = .ok v) ∧
    ∀ (v : ShapeVertex Float) (text : String), IsVertexText v text → readVertex text = .ok v := by
  refine ⟨fun s hs => ?_, fun p text => readSettings_eq_ok, fun p hlat hlng hlat' hlng' => ?_,
    fun p text => readPlace_eq_ok, fun v hlat hlng htravelled hlat' hlng' htravelled' => ?_,
    fun v text => readVertex_eq_ok⟩
  · have htext := isSettingsText_writeSettings hs
    have hread := readSettings_eq_ok htext
    rw [PartialSettings.complete_full] at hread
    exact ⟨htext, hread⟩
  · have htext := isPlaceText_writePlace (hlat' hlat) (hlng' hlng)
    exact ⟨htext, readPlace_eq_ok htext⟩
  · have htext := isVertexText_writeVertex (hlat' hlat) (hlng' hlng)
      fun x hx => htravelled' x hx (htravelled x hx)
    exact ⟨htext, readVertex_eq_ok htext⟩

/-! ### A feed with few shapes -/

/-- A wide search for a feed with few shapes. -/
def sparseFeed : Settings Float := { maxDistance := 80.5, search := .beam 7, policy := .reject }

theorem readsBack_sparse : ReadsBack 80.5 ∧ ReadsBack 45.5 ∧ ReadsBack (-122.625) ∧
    ReadsBack 12.0 := by
  unfold ReadsBack IsTextOf
  decide +kernel

theorem isFinite_sparse :
    isFinite (45.5 : Float) ∧ isFinite (-122.625 : Float) ∧ isFinite (12.0 : Float) := by
  decide +kernel

theorem isTextOf_sparse : IsTextOf float 45.5 "45.5" ∧ IsTextOf float (-122.625) "-122.625" ∧
    IsTextOf (natural 255) 2 "2" := by
  unfold IsTextOf
  decide +kernel

theorem isSearchText_sparse :
    IsSearchText (.beam 10) (writeObject [("since", "null"), ("strategy", quoted "beam")]) := by
  have hstrategy : (strategyMember .beam).IsWritten ("strategy", quoted "beam") :=
    .plain (isQuoted_quoted (by decide)) (by decide) (by decide)
  have hsince : ∀ w ∈ [("since", "null")], IsUnasked searchNames w := by
    simp only [List.forall_mem_singleton]
    exact .plain .null (by decide) (by decide)
  exact .standardBeam ⟨_, _, _, .cons hstrategy .nil, hsince, .swap .., rfl⟩

theorem isSettingsText_sparse :
    IsSettingsText ⟨none, some (.beam 10), some 2, some .reject⟩
      (writeObject [("verbosity", "2"), ("note", quoted "sparse"),
        ("path_search", writeObject [("since", "null"), ("strategy", quoted "beam")]),
        ("duplicate_policy", quoted "reject")]) := by
  have hwritten : List.Forall₂ Member.IsWritten
      [searchMember (.beam 10), verbosityMember 2, policyMember .reject]
      [("path_search", writeObject [("since", "null"), ("strategy", quoted "beam")]),
        ("verbosity", "2"), ("duplicate_policy", quoted "reject")] :=
    .cons (.plain isSearchText_sparse (by decide) (by decide))
      (.cons (.plain isTextOf_sparse.2.2 (by decide) (by decide))
        (.cons (.plain (isQuoted_quoted (by decide)) (by decide) (by decide)) .nil))
  have hnote : ∀ w ∈ [("note", quoted "sparse")], IsUnasked settings.names w := by
    simp only [List.forall_mem_singleton]
    exact .plain (.text (isQuoted_quoted (by decide))) (by decide) (by decide)
  exact ⟨_, _, _, hwritten, hnote,
    .trans (.cons _ (.swap ..)) (.trans (.swap ..) (.cons _ (.cons _ (.swap ..)))), rfl⟩

theorem isPlaceText_sparse :
    IsPlaceText ⟨45.5, -122.625⟩ (writeObject [("lng", "-122.625"), ("stop_lat", "45.5")]) := by
  obtain ⟨hlat, hlng, -⟩ := isTextOf_sparse
  have hwritten : List.Forall₂ Member.IsWritten
      [numberMember ["lat", "stop_lat"] 45.5, numberMember ["lon", "stop_lon", "lng"] (-122.625)]
      [("stop_lat", "45.5"), ("lng", "-122.625")] :=
    .cons (.plain hlat (by decide) (by decide)) (.cons (.plain hlng (by decide) (by decide)) .nil)
  exact ⟨_, [], _, hwritten, nofun, .swap .., rfl⟩

theorem isVertexText_sparse :
    IsVertexText ⟨⟨45.5, -122.625⟩, none⟩
      (writeObject [("shape_pt_lon", "-122.625"), ("lat", "45.5")]) := by
  obtain ⟨hlat, hlng, -⟩ := isTextOf_sparse
  have hwritten : List.Forall₂ Member.IsWritten
      [numberMember ["lat", "shape_pt_lat"] 45.5, numberMember ["lon", "shape_pt_lon"] (-122.625)]
      [("lat", "45.5"), ("shape_pt_lon", "-122.625")] :=
    .cons (.plain hlat (by decide) (by decide)) (.cons (.plain hlng (by decide) (by decide)) .nil)
  exact .inr ⟨rfl, ⟨_, [], _, hwritten, nofun, .swap .., rfl⟩⟩

theorem sparseFeed_survives_json :
    readSettings (writeSettings sparseFeed) = .ok sparseFeed ∧
    readSettings (writeObject [("verbosity", "2"), ("note", quoted "sparse"),
      ("path_search", writeObject [("since", "null"), ("strategy", quoted "beam")]),
      ("duplicate_policy", quoted "reject")]) =
      .ok { search := .beam 10, verbosity := 2, policy := .reject } ∧
    readPlace (writePlace ⟨45.5, -122.625⟩) = .ok ⟨45.5, -122.625⟩ ∧
    readPlace (writeObject [("lng", "-122.625"), ("stop_lat", "45.5")]) = .ok ⟨45.5, -122.625⟩ ∧
    readVertex (writeVertex ⟨⟨45.5, -122.625⟩, some 12.0⟩) = .ok ⟨⟨45.5, -122.625⟩, some 12.0⟩ ∧
    readVertex (writeObject [("shape_pt_lon", "-122.625"), ("lat", "45.5")]) =
      .ok ⟨⟨45.5, -122.625⟩, none⟩ := by
  obtain ⟨hsettings, hpartial, hplace, hplaceText, hvertex, hvertexText⟩ := survives_json
  obtain ⟨hdistance, hlat, hlng, htravelled⟩ := readsBack_sparse
  obtain ⟨hlat', hlng', htravelled'⟩ := isFinite_sparse
  refine ⟨?settings, ?partialSettings, ?place, hplaceText _ _ isPlaceText_sparse, ?vertex,
    hvertexText _ _ isVertexText_sparse⟩
  case settings =>
    refine ((hsettings sparseFeed hdistance).2 sparseFeed).mpr ⟨?_, rfl⟩
    unfold Settings.validate
    rw [if_neg (by decide +kernel), if_neg (by decide)]
  case partialSettings =>
    refine (hpartial _ _ isSettingsText_sparse _).mpr ⟨?_, rfl⟩
    unfold Settings.validate
    rw [if_neg (by decide +kernel), if_neg (by decide)]
  case place => exact (hplace _ hlat' hlng' hlat hlng).2
  case vertex =>
    refine (hvertex _ hlat' hlng' ?_ hlat hlng ?_).2
    · rintro _ ⟨⟩
      exact htravelled'
    · rintro _ ⟨⟩
      exact htravelled

end TransitShapes.Format
