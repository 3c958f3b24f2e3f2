import Mathlib.Data.List.Nodup
import Mathlib.Data.List.Perm.Subperm
import Mathlib.Logic.Relation
import TransitShapes.Network.Route

/-! # Walking back along last hops

Every vertex has one last hop at most, so there is one way back from it at most. A way back that
ends at a vertex without a last hop comes to no vertex twice, and so it is shorter than there are
vertices and found by walking back.
-/

namespace TransitShapes.LastHops

variable {last : LastHops} {start : Nat}

/-- The last hop to a vertex starts at another one. -/
def Back (last : LastHops) (v u : Nat) : Prop := ∃ line, last[v]? = some ⟨line, u⟩

/-- No vertex is come to again by walking back from it. -/
def Acyclic (last : LastHops) : Prop := ∀ v, ¬ Relation.TransGen last.Back v v

/-- The last hops that lead back from a vertex to the start, in the order of travel. The start has
no last hop. -/
inductive LeadsBack (last : LastHops) (start : Nat) : List Hop → Nat → Prop where
  | start : last[start]? = none → LeadsBack last start [] start
  | hop {hops : List Hop} {hop : Hop} {v : Nat} : LeadsBack last start hops hop.origin →
      last[v]? = some hop → LeadsBack last start (hops ++ [hop]) v

/-! ## One way back -/

theorem LeadsBack.unique {hops others : List Hop} {v : Nat} (h : last.LeadsBack start hops v)
    (hothers : last.LeadsBack start others v) : hops = others := by
  induction h generalizing others with
  | start hnone =>
    cases hothers with
    | start => rfl
    | hop _ hlast => cases hnone.symm.trans hlast
  | hop _ hlast ih =>
    cases hothers with
    | start hnone => cases hnone.symm.trans hlast
    | hop hbefore hlast' =>
      cases hlast.symm.trans hlast'
      rw [ih hbefore]

theorem LeadsBack.of_back {hops : List Hop} {v u : Nat} (h : last.LeadsBack start hops v)
    (hback : last.Back v u) :
    ∃ shorter, last.LeadsBack start shorter u ∧ shorter.length < hops.length := by
  obtain ⟨line, hlast⟩ := hback
  cases h with
  | start hnone => cases hnone.symm.trans hlast
  | hop hbefore hlast' =>
    cases hlast.symm.trans hlast'
    exact ⟨_, hbefore, by simp⟩

theorem LeadsBack.of_transGen {hops : List Hop} {v u : Nat} (h : last.LeadsBack start hops v)
    (hback : Relation.TransGen last.Back v u) :
    ∃ shorter, last.LeadsBack start shorter u ∧ shorter.length < hops.length := by
  induction hback with
  | single hone => exact h.of_back hone
  | tail _ hone ih =>
    obtain ⟨between, hbetween, hlt⟩ := ih
    obtain ⟨shorter, hshorter, hlt'⟩ := hbetween.of_back hone
    exact ⟨shorter, hshorter, Nat.lt_trans hlt' hlt⟩

theorem LeadsBack.of_origin {hops : List Hop} {v u : Nat} (h : last.LeadsBack start hops v)
    (hu : u ∈ hops.map Hop.origin) :
    ∃ shorter, last.LeadsBack start shorter u ∧ shorter.length < hops.length := by
  induction h with
  | start => cases hu
  | @hop hops hop v hbefore hlast ih =>
    rw [List.length_append, List.length_singleton]
    rw [List.map_append, List.map_singleton, List.mem_append, List.mem_singleton] at hu
    rcases hu with hu | rfl
    · obtain ⟨shorter, hshorter, hlt⟩ := ih hu
      exact ⟨shorter, hshorter, Nat.lt_trans hlt (Nat.lt_succ_self _)⟩
    · exact ⟨hops, hbefore, Nat.lt_succ_self _⟩

/-- If a way leads back from every vertex with a last hop, no hops go in a circle. -/
theorem acyclic_of_leadsBack (start : Nat)
    (h : ∀ v hop, last[v]? = some hop → ∃ hops, last.LeadsBack start hops v) : last.Acyclic := by
  intro v hcircle
  obtain ⟨u, ⟨line, hlast⟩, -⟩ := Relation.TransGen.head'_iff.mp hcircle
  obtain ⟨hops, hhops⟩ := h v _ hlast
  obtain ⟨shorter, hshorter, hlt⟩ := hhops.of_transGen hcircle
  rw [hhops.unique hshorter] at hlt
  exact Nat.lt_irrefl _ hlt

/-! ## No vertex twice -/

theorem LeadsBack.not_mem_origin {hops : List Hop} {v : Nat} (h : last.LeadsBack start hops v) :
    v ∉ hops.map Hop.origin := by
  intro hv
  obtain ⟨shorter, hshorter, hlt⟩ := h.of_origin hv
  rw [h.unique hshorter] at hlt
  exact Nat.lt_irrefl _ hlt

theorem LeadsBack.nodup {hops : List Hop} {v : Nat} (h : last.LeadsBack start hops v) :
    (v :: hops.map Hop.origin).Nodup := by
  refine List.nodup_cons.mpr ⟨h.not_mem_origin, ?_⟩
  induction h with
  | start => exact List.nodup_nil
  | @hop hops hop v hbefore hlast ih =>
    rw [List.map_append, List.map_singleton, ← List.concat_eq_append]
    exact List.Nodup.concat hbefore.not_mem_origin ih

theorem LeadsBack.length_lt {hops : List Hop} {v n : Nat} (h : last.LeadsBack start hops v)
    (hv : v < n) (horigins : ∀ u ∈ hops.map Hop.origin, u < n) : hops.length < n := by
  have hsub : v :: hops.map Hop.origin ⊆ List.range n := by
    intro u hu
    rw [List.mem_range]
    rcases List.mem_cons.mp hu with rfl | hu
    · exact hv
    · exact horigins u hu
  have hle := (h.nodup.subperm hsub).length_le
  rw [List.length_cons, List.length_map, List.length_range] at hle
  exact hle

theorem LeadsBack.eq_start_or_mem {hops : List Hop} {v : Nat} (h : last.LeadsBack start hops v) :
    v = start ∨ v ∈ last := by
  cases h with
  | start => exact Or.inl rfl
  | hop _ hlast =>
    right
    rw [Std.TreeMap.mem_iff_isSome_getElem?, hlast]
    rfl

theorem LeadsBack.length_le {hops : List Hop} {v : Nat} (h : last.LeadsBack start hops v) :
    hops.length ≤ last.size := by
  have hsub : v :: hops.map Hop.origin ⊆ start :: last.keys := by
    intro u hu
    rw [List.mem_cons, Std.TreeMap.mem_keys]
    rcases List.mem_cons.mp hu with rfl | hu
    · exact h.eq_start_or_mem
    · obtain ⟨shorter, hshorter, -⟩ := h.of_origin hu
      exact hshorter.eq_start_or_mem
  simpa using (h.nodup.subperm hsub).length_le

/-! ## Walking back -/

theorem LeadsBack.hopsTo_append {hops : List Hop} {v : Nat} (h : last.LeadsBack start hops v)
    {fuel : Nat} (hfuel : hops.length ≤ fuel) (rest : List Hop) :
    Network.hopsTo last fuel v rest = some (hops ++ rest) := by
  induction h generalizing fuel rest with
  | start hnone =>
    unfold Network.hopsTo
    rw [hnone]
    rfl
  | hop _ hlast ih =>
    rw [List.length_append, List.length_singleton] at hfuel
    obtain ⟨fuel, rfl⟩ : ∃ n, fuel = n + 1 := ⟨fuel - 1, by omega⟩
    unfold Network.hopsTo
    rw [hlast]
    simp only
    rw [ih (by omega), List.append_assoc, List.singleton_append]

theorem LeadsBack.hopsTo {hops : List Hop} {v : Nat} (h : last.LeadsBack start hops v) :
    Network.hopsTo last last.size v [] = some hops := by
  rw [h.hopsTo_append h.length_le, List.append_nil]

theorem LeadsBack.reconstruct {R : Type} [Scalar R] {hops : List Hop} {v : Nat}
    (h : last.LeadsBack start hops v) (net : Network R) :
    net.reconstruct last v = some (net.joinHops hops) := by
  unfold Network.reconstruct
  rw [h.hopsTo, Option.map_some]

end TransitShapes.LastHops
