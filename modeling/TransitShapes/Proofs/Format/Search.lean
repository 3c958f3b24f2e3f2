import TransitShapes.Format.Settings
import TransitShapes.Proofs.Json.Record

/-! # Policies and path searches in JSON

The strategy of a search is a member like the width, and stands before it or behind it. A beam
without a width has the standard one.
-/

namespace TransitShapes.Format

open Json Reader

variable {after : List Char → Prop}

/-! ## The duplicate policy -/

theorem reads_policyOfName (policy : DuplicatePolicy) :
    Reads after (policyOfName (policyName policy)) [] (.ok policy) := by
  cases policy <;> exact .pure _

theorem reads_readPolicy {levels : Nat} {policy : DuplicatePolicy} {value : String}
    (h : IsQuoted (policyName policy) value) :
    Reads after (readPolicy levels) value.toList (.ok policy) := by
  have hread : Reads after (text >>= policyOfName) value.toList (.ok policy) :=
    .finish h.reads_text (reads_policyOfName policy)
  obtain ⟨spelled, hspells, hvalue⟩ := h.toList_eq
  rw [hvalue] at hread ⊢
  exact .peek_cons (by decide) hread

/-! ## Members of a search -/

def strategyMember (strategy : Strategy) : Member :=
  { names := [strategyKey], IsValue := IsQuoted strategy.name }

/-- The width of a beam, in any way to write the number. -/
def widthMember (keep : UInt64) : Member :=
  { names := [widthKey], IsValue := IsTextOf (natural (2 ^ 64 - 1)) keep.toNat }

def searchNames : List String := [strategyKey, widthKey]

/-- The texts of a path search. -/
inductive IsSearchText : PathSearch → String → Prop where
  | nearest {text : String} : IsObject searchNames [strategyMember .nearest] text →
      IsSearchText .nearest text
  | beam {keep : UInt64} {text : String} :
      IsObject searchNames [strategyMember .beam, widthMember keep] text →
      IsSearchText (.beam keep) text
  | standardBeam {text : String} : IsObject searchNames [strategyMember .beam] text →
      IsSearchText (.beam PathSearch.defaultKeep) text

/-! ## Reading a search -/

/-- What of the members read so far decides the search: the strategy, and the widths. -/
def searchView (s : PartialSearch) : Option Strategy × List (Option Nat) :=
  (s.strategy, (s.others.filter fun m => m.1 = widthKey).map fun m => m.2.bind (·.natural))

def searchOf : Option Strategy × List (Option Nat) → Except Cause PathSearch
  | (some .nearest, _) => .ok .nearest
  | (some .beam, []) => .ok (.beam PathSearch.defaultKeep)
  | (some .beam, [some n]) => .ok (.beam (UInt64.ofNat n))
  | _ => .error .wrongShape

theorem reads_searchOfMembers (s : PartialSearch) :
    Reads after (searchOfMembers s.strategy s.others) [] (searchOf (searchView s)) := by
  unfold searchOfMembers searchView
  cases s.strategy with
  | none => exact .fail _
  | some strategy =>
    cases strategy with
    | nearest => exact .pure _
    | beam =>
      simp only
      generalize s.others.filter (fun m => m.1 = widthKey) = widths
      rcases widths with _ | ⟨⟨_, n⟩, _ | ⟨_, _⟩⟩
      · exact .pure _
      · unfold widthOf
        simp only [List.map_cons, List.map_nil]
        cases n.bind (·.natural) with
        | none => exact .fail _
        | some n => exact .pure _
      · simp only [List.map_cons]
        cases n.bind (·.natural) <;> exact .fail _

theorem reads_readStrategy {strategy : Strategy} {value : String}
    (h : IsQuoted strategy.name value) :
    Reads after readStrategy value.toList (.ok strategy) := by
  refine .finish h.reads_text ?_
  cases strategy <;> exact .pure _

def putStrategy (strategy : Strategy) : Change (Option Strategy × List (Option Nat)) :=
  .once (·.1.isSome) fun s => .ok (some strategy, s.2)

def putWidth (n : Nat) : Change (Option Strategy × List (Option Nat)) :=
  fun s => .ok (s.1, some n :: s.2)

theorem makes_strategyMember (levels : Nat) (strategy : Strategy) :
    MakesAsWritten searchView (readSearchMember levels) (strategyMember strategy)
      (putStrategy strategy) := by
  rintro w ⟨⟨name, hname, hspells⟩, hvalue⟩ s
  obtain rfl := List.mem_singleton.mp hname
  cases hstrategy : s.strategy with
  | some =>
    refine ⟨.error .wrongShape, reads_memberChars hspells ?_, ?_⟩
    · rw [if_pos rfl, hstrategy]
      exact .fail _
    · simp [putStrategy, Change.once, searchView, hstrategy, Except.map]
  | none =>
    refine ⟨.ok { s with strategy := some strategy }, reads_memberChars hspells ?_, ?_⟩
    · rw [if_pos rfl, hstrategy]
      exact .seq reads_colon ((reads_readStrategy hvalue).returns fun strategy =>
        { s with strategy := some strategy })
    · simp [putStrategy, Change.once, searchView, hstrategy, Except.map]

theorem makes_widthMember (levels : Nat) (keep : UInt64) :
    MakesAsWritten searchView (readSearchMember levels) (widthMember keep)
      (putWidth keep.toNat) := by
  rintro w ⟨⟨name, hname, hspells⟩, hvalue⟩ s
  obtain rfl := List.mem_singleton.mp hname
  obtain ⟨n, hn, hnatural, _⟩ := hvalue.isNumber_of_natural
  refine ⟨.ok { s with others := (widthKey, some n) :: s.others },
    reads_memberChars hspells ?_, ?_⟩
  · rw [if_neg (by decide)]
    exact .seq reads_colon ((hn.reads_anyValue levels).returns fun n =>
      { s with others := (widthKey, n) :: s.others })
  · simp [putWidth, searchView, hnatural, Except.map]

theorem makes_unasked (levels : Nat) {w : String × String} (h : IsUnasked searchNames w) :
    Makes searchView (readSearchMember levels) .ok (memberChars w) := by
  obtain ⟨⟨name, hunknown, hspells⟩, hvalue⟩ := h
  have hstrategy : name ≠ strategyKey := fun h => hunknown (by simp [searchNames, h])
  have hwidth : name ≠ widthKey := fun h => hunknown (by simp [searchNames, h])
  refine fun s => ⟨.ok { s with others := (name, none) :: s.others },
    reads_memberChars hspells ?_, ?_⟩
  · rw [if_neg hstrategy]
    exact .seq reads_colon ((hvalue.reads_anyValue .read levels).returns fun n =>
      { s with others := (name, n) :: s.others })
  · simp [searchView, hwidth, Except.map]

theorem commute_putStrategy_putWidth (strategy : Strategy) (n : Nat) :
    Change.Commute (putStrategy strategy) (putWidth n) := by
  rintro ⟨_ | _, _⟩ <;> rfl

theorem reads_readSearch {levels : Nat} {text : String} {members : List Member}
    {changes : List (Change (Option Strategy × List (Option Nat)))}
    (h : IsObject searchNames members text)
    (hmembers : List.Forall₂ (MakesAsWritten searchView (readSearchMember levels)) members changes)
    (hcommute : changes.Pairwise Change.Commute) {strategy : Strategy} {widths : List (Option Nat)}
    (hall : Change.all changes (none, []) = .ok (some strategy, widths)) :
    Reads after (readSearch (levels + 1)) text.toList (searchOf (some strategy, widths)) := by
  obtain ⟨cs, result, htext, hread, hview⟩ :=
    h.exists_makes hmembers (fun w hw => makes_unasked levels hw) hcommute {}
  cases result with
  | error cause =>
    have hfailed := hview.trans hall
    cases hfailed
  | ok s =>
    have hs : searchView s = (some strategy, widths) := Except.ok.inj (hview.trans hall)
    have hstrategy : s.strategy = some strategy := congrArg Prod.fst hs
    rw [htext, ← hs]
    refine .peek_cons (by decide) ?_
    change Reads _ (enter (levels + 1) _ >>= fun found : PartialSearch =>
      searchOfMembers found.strategy found.others) _ _
    refine .finish ?_ (reads_searchOfMembers s)
    refine .seq (.drop '\x7b') (.bind (fun _ => .ok s) hread (fun _ _ => rfl) ?_)
    rintro _ ⟨⟩
    simp only [hstrategy]
    exact .seq reads_closeObject (.pure s)

theorem IsSearchText.reads {levels : Nat} {search : PathSearch} {text : String}
    (h : IsSearchText search text) :
    Reads after (readSearch (levels + 1)) text.toList (.ok search) := by
  have hstrategy := makes_strategyMember levels
  cases h with
  | nearest h =>
    exact reads_readSearch h (.cons (hstrategy .nearest) .nil) (List.pairwise_singleton ..) rfl
  | standardBeam h =>
    exact reads_readSearch h (.cons (hstrategy .beam) .nil) (List.pairwise_singleton ..) rfl
  | @beam keep _ h =>
    have hsearch : searchOf (some .beam, [some keep.toNat]) = .ok (.beam keep) := by
      rw [searchOf, UInt64.ofNat_toNat]
    rw [← hsearch]
    exact reads_readSearch h (.cons (hstrategy .beam) (.cons (makes_widthMember levels keep) .nil))
      (List.pairwise_pair.mpr (commute_putStrategy_putWidth .beam keep.toNat)) rfl

/-! ## Writing a search -/

theorem isSearchText_writeSearch (search : PathSearch) :
    IsSearchText search (writeSearch search) := by
  have hstrategy : ∀ strategy : Strategy,
      (strategyMember strategy).IsWritten (strategyKey, quoted strategy.name) := by
    intro strategy
    have hplain : IsPlain strategy.name := by cases strategy <;> decide
    exact .plain (isQuoted_quoted hplain) (List.mem_singleton_self _) (by decide)
  cases search with
  | nearest => exact .nearest (isObject_writeObject (.cons (hstrategy .nearest) .nil))
  | beam keep =>
    have hwidth : (widthMember keep).IsWritten (widthKey, toString keep.toNat) := by
      have hvalue : IsTextOf (natural (2 ^ 64 - 1)) keep.toNat (toString keep.toNat) :=
        isTextOf_toString (Nat.le_sub_one_of_lt keep.toNat_lt) keep.toNat_lt
      exact .plain hvalue (List.mem_singleton_self _) (by decide)
    exact .beam (isObject_writeObject (.cons (hstrategy .beam) (.cons hwidth .nil)))

end TransitShapes.Format
