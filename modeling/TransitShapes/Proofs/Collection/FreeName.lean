import Mathlib.Data.List.Nodup
import Mathlib.Data.List.Perm.Subperm
import Std.Data.String.ToNat
import TransitShapes.Collection.Basic

/-! # Free names

The search for a free name gives up after as many numbers as there are names. It never has to:
different numbers make different names, so one of them is free before that.
-/

namespace TransitShapes.Collection

variable {R : Type}

theorem numbered_inj {name : String} {m n : Nat} : numbered name m = numbered name n ↔ m = n := by
  unfold numbered
  rw [String.append_right_inj]
  exact Nat.repr_inj

theorem firstFree_spec (c : Collection R) (name : String) (fuel n : Nat) :
    n ≤ c.firstFree name fuel n ∧ c.firstFree name fuel n ≤ n + fuel ∧
      (∀ k, n ≤ k → k < c.firstFree name fuel n → numbered name k ∈ c.names) ∧
      (c.firstFree name fuel n < n + fuel → numbered name (c.firstFree name fuel n) ∉ c.names) := by
  induction fuel generalizing n with
  | zero =>
    refine ⟨Nat.le_refl n, Nat.le_refl n, fun k hk hlt => ?_, fun hlt => ?_⟩
    · exact absurd hlt (Nat.not_lt.mpr hk)
    · exact absurd hlt (Nat.lt_irrefl n)
  | succ fuel ih =>
    unfold firstFree
    split
    case isTrue htaken =>
      obtain ⟨hge, hle, hbelow, hfree⟩ := ih (n + 1)
      refine ⟨by omega, by omega, ?_, fun h => hfree (by omega)⟩
      intro k hn hk
      by_cases hkn : k = n
      · rw [hkn]
        exact Std.TreeMap.contains_iff_mem.mp htaken
      · exact hbelow k (by omega) hk
    case isFalse hfree =>
      refine ⟨Nat.le_refl n, by omega, fun k h1 h2 => by omega, fun _ => ?_⟩
      rw [← Std.TreeMap.contains_iff_mem]
      exact hfree

theorem taken_le_size (c : Collection R) (name : String) (count : Nat)
    (h : ∀ k, 1 ≤ k → k ≤ count → numbered name k ∈ c.names) : count ≤ c.names.size := by
  have hnodup : ((List.range' 1 count).map (numbered name)).Nodup :=
    List.Nodup.map (fun _ _ => numbered_inj.mp) List.nodup_range'
  have hsub : (List.range' 1 count).map (numbered name) ⊆ c.names.keys := by
    intro taken htaken
    obtain ⟨k, hk, rfl⟩ := List.mem_map.mp htaken
    rw [List.mem_range'_1] at hk
    exact Std.TreeMap.mem_keys.mpr (h k hk.1 (by omega))
  have hlen := (hnodup.subperm hsub).length_le
  simpa [Std.TreeMap.length_keys] using hlen

/-- A free name has the smallest number, from 1 on, that no stored name has. -/
theorem freeName_spec (c : Collection R) (name : String) :
    ∃ k, 1 ≤ k ∧ c.freeName name = numbered name k ∧ numbered name k ∉ c.names ∧
      ∀ j, 1 ≤ j → j < k → numbered name j ∈ c.names := by
  obtain ⟨hge, hle, hbelow, hfree⟩ := c.firstFree_spec name c.names.size 1
  refine ⟨c.firstFree name c.names.size 1, hge, rfl, ?_, hbelow⟩
  intro htaken
  have hlast : c.firstFree name c.names.size 1 = 1 + c.names.size := by
    by_contra hne
    exact hfree (by omega) htaken
  have := c.taken_le_size name (1 + c.names.size) fun k h1 hk => by
    by_cases hkl : k = 1 + c.names.size
    · rw [hkl, ← hlast]
      exact htaken
    · exact hbelow k h1 (by omega)
  omega

theorem freeName_not_mem (c : Collection R) (name : String) : c.freeName name ∉ c.names := by
  obtain ⟨k, _, hk, hfree, _⟩ := c.freeName_spec name
  rw [hk]
  exact hfree

end TransitShapes.Collection
