import Mathlib.Data.List.Basic
import TransitShapes.Matcher
import TransitShapes.Proofs.Polyline.Follow

/-! # The candidate that a pattern follows most closely

Candidates are looked at in their order, and one takes the place of the kept one only with a lower
score. So the first of the lowest is kept.
-/

namespace TransitShapes

open Scalar

variable {R : Type} [Scalar R]

section
variable [LawfulOrder R] {a b : R}

theorem Scalar.nanLast_eq_gt_iff (ha : ¬ IsNaN a) (hb : ¬ IsNaN b) :
    nanLast a b = .gt ↔ b < a := by
  unfold nanLast
  rw [if_neg ha, if_neg hb]
  split
  case isTrue hlt =>
    simp only [reduceCtorEq, false_iff]
    exact fun hgt => lt_irrefl a (lt_trans hlt hgt)
  case isFalse =>
    split
    case isTrue hgt => simp [hgt]
    case isFalse hngt => simp [hngt]

theorem Scalar.not_lt_iff (ha : ¬ IsNaN a) (hb : ¬ IsNaN b) : ¬ a < b ↔ b ≤ a :=
  ⟨le_of_not_lt ha hb, fun h hlt => (LawfulOrder.lt_iff.mp hlt).2 h⟩

theorem Scalar.not_le_iff (ha : ¬ IsNaN a) (hb : ¬ IsNaN b) : ¬ a ≤ b ↔ b < a := by
  rw [← not_lt_iff hb ha, Decidable.not_not]

end

/-! ## The lowest score -/

/-- A candidate with a lower score than all before it, and no higher one than all after it. -/
def Scored.Leads (candidates : List (Scored R)) (best : Scored R) : Prop :=
  ∃ before after, candidates = before ++ best :: after ∧
    (∀ c ∈ before, best.score < c.score) ∧ ∀ c ∈ after, best.score ≤ c.score

theorem Scored.Leads.better [LawfulOrder R] {seen : List (Scored R)} {kept next : Scored R}
    (h : kept.Leads seen) (hkept : ¬ IsNaN kept.score) (hnext : ¬ IsNaN next.score) :
    (kept.better next).Leads (seen ++ [next]) := by
  obtain ⟨before, after, rfl, hbefore, hafter⟩ := h
  unfold Scored.better
  split
  case isTrue hgt =>
    have hlt := (nanLast_eq_gt_iff hkept hnext).mp hgt
    refine ⟨before ++ kept :: after, [], rfl, ?_, by simp⟩
    intro c hc
    rcases List.mem_append.mp hc with hc | hc
    · exact lt_trans hlt (hbefore c hc)
    · rcases List.mem_cons.mp hc with rfl | hc
      · exact hlt
      · exact lt_of_lt_of_le hlt (hafter c hc)
  case isFalse hngt =>
    rw [nanLast_eq_gt_iff hkept hnext, not_lt_iff hnext hkept] at hngt
    refine ⟨before, after ++ [next], by simp, hbefore, ?_⟩
    intro c hc
    rcases List.mem_append.mp hc with hc | hc
    · exact hafter c hc
    · rw [List.mem_singleton.mp hc]
      exact hngt

theorem Scored.better_eq_or (kept next : Scored R) :
    kept.better next = next ∨ kept.better next = kept := by
  unfold Scored.better
  split <;> simp

theorem Scored.Leads.foldl [LawfulOrder R] {seen rest : List (Scored R)} {kept : Scored R}
    (h : kept.Leads seen) (hkept : ¬ IsNaN kept.score) (hrest : ∀ c ∈ rest, ¬ IsNaN c.score) :
    (rest.foldl Scored.better kept).Leads (seen ++ rest) := by
  induction rest generalizing seen kept with
  | nil => simpa using h
  | cons next rest ih =>
    obtain ⟨hnext, hrest⟩ := List.forall_mem_cons.mp hrest
    rw [List.append_cons]
    apply ih (h.better hkept hnext) _ hrest
    rcases kept.better_eq_or next with hsame | hsame
    · rwa [hsame]
    · rwa [hsame]

theorem leads_of_lowest? [LawfulOrder R] {candidates : List (Scored R)} {best : Scored R}
    (hnumbers : ∀ c ∈ candidates, ¬ IsNaN c.score) (h : lowest? candidates = some best) :
    best.Leads candidates := by
  cases candidates with
  | nil => cases h
  | cons first rest =>
    obtain ⟨hfirst, hrest⟩ := List.forall_mem_cons.mp hnumbers
    cases h
    exact Scored.Leads.foldl ⟨[], [], rfl, by simp, by simp⟩ hfirst hrest

/-! ## Scoring -/

theorem followDistance_of_mem_scoreAll {pattern : Polyline R} {candidates : List (Polyline R)}
    {c : Scored R} (h : c ∈ scoreAll pattern candidates) :
    pattern.followDistance c.line = .ok c.score := by
  unfold scoreAll at h
  obtain ⟨⟨line, index⟩, -, hc⟩ := List.mem_filterMap.mp h
  cases hscore : pattern.followDistance line with
  | error e => simp [hscore, Except.toOption] at hc
  | ok score =>
    simp only [hscore, Except.toOption, Option.map_some, Option.some.injEq] at hc
    rw [← hc]
    exact hscore

theorem map_line_scoreAll (pattern : Polyline R) {candidates : List (Polyline R)}
    (h : ∀ line ∈ candidates, line.points ≠ []) :
    (scoreAll pattern candidates).map Scored.line = candidates := by
  unfold scoreAll
  rw [List.map_filterMap]
  have hkeep : ∀ x ∈ candidates.zipIdx,
      ((pattern.followDistance x.1).toOption.map fun score =>
        (⟨score, x.2, x.1⟩ : Scored R)).map Scored.line = some x.1 := by
    intro x hx
    have hscore : pattern.followDistance x.1 = .ok (x.1.farthestMatch pattern.points 0 0.0) :=
      Polyline.followDistance_eq_ok_iff.mpr ⟨h x.1 (List.fst_mem_of_mem_zipIdx hx), rfl⟩
    rw [hscore]
    rfl
  rw [List.filterMap_congr hkeep]
  simp

theorem scoreAll_of_isEmpty (pattern : Polyline R) {line : Polyline R} (h : line.points = []) :
    scoreAll pattern [line] = [] := by
  simp [scoreAll, Polyline.followDistance, h, Except.toOption]

theorem bestMatch_value [LawfulSign R] (pattern : Polyline R) {candidates : List (Polyline R)}
    {maxDistance : R} (hmax : ¬ IsNaN maxDistance) (hne : candidates ≠ [])
    (hpoints : ∀ line ∈ candidates, line.points ≠ []) :
    ∃ before line after score index, candidates = before ++ line :: after ∧
      pattern.followDistance line = .ok score ∧
      (∀ other ∈ before, ∀ s, pattern.followDistance other = .ok s → score < s) ∧
      (∀ other ∈ after, ∀ s, pattern.followDistance other = .ok s → score ≤ s) ∧
      (bestMatch pattern candidates maxDistance).value =
        if score ≤ maxDistance then some ⟨score, index, line⟩ else none := by
  have hlines := map_line_scoreAll pattern hpoints
  have hscore : ∀ c ∈ scoreAll pattern candidates, pattern.followDistance c.line = .ok c.score :=
    fun c hc => followDistance_of_mem_scoreAll hc
  unfold bestMatch
  generalize scoreAll pattern candidates = scored at hlines hscore
  have hnumbers : ∀ c ∈ scored, ¬ IsNaN c.score :=
    fun c hc => Polyline.not_isNaN_followDistance (hscore c hc)
  cases hbest : lowest? scored with
  | none =>
    cases scored with
    | nil => exact absurd hlines.symm hne
    | cons => cases hbest
  | some best =>
    obtain ⟨before, after, rfl, hbefore, hafter⟩ := leads_of_lowest? hnumbers hbest
    have hother : ∀ others : List (Scored R), (∀ c ∈ others, c ∈ before ++ best :: after) →
        ∀ (P : R → Prop), (∀ c ∈ others, P c.score) → ∀ other ∈ others.map Scored.line,
          ∀ s, pattern.followDistance other = .ok s → P s := by
      intro others hsub P hP other hother s hs
      obtain ⟨c, hc, rfl⟩ := List.mem_map.mp hother
      cases (hscore c (hsub c hc)).symm.trans hs
      exact hP c hc
    refine ⟨before.map Scored.line, best.line, after.map Scored.line, best.score, best.index,
      by simpa using hlines.symm, hscore best (by simp), ?_, ?_, ?_⟩
    · exact hother before (fun c hc => by simp [hc]) (best.score < ·) hbefore
    · exact hother after (fun c hc => by simp [hc]) (best.score ≤ ·) hafter
    · have hnumber := hnumbers best (by simp)
      simp only
      by_cases hin : best.score ≤ maxDistance
      · rw [if_pos hin, if_neg ((not_lt_iff hmax hnumber).mpr hin)]
      · rw [not_le_iff hnumber hmax] at hin
        rw [if_neg ((not_le_iff hnumber hmax).mpr hin), if_pos hin]

end TransitShapes
