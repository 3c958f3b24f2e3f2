import Mathlib.Data.List.Sort
import TransitShapes.Proofs.Collection.Search

/-! # A search by ends has no direction

A polyline is filed under the cells of its ends in both directions, so the two buckets of a pair of
cells hold the same numbers. The test of its ends takes either direction too. Nothing is asked of
the places or of the distances between them.
-/

namespace TransitShapes

variable {R : Type} [Scalar R]

theorem EndCells.swap_swap (key : EndCells) : key.swap.swap = key := rfl

theorem EndCells.swap_eq_iff {key other : EndCells} : key.swap = other ↔ key = other.swap := by
  constructor
  · rintro rfl
    exact key.swap_swap.symm
  · rintro rfl
    exact other.swap_swap

theorem Polyline.joins_comm (line : Polyline R) (start finish : Vec3 R) (maxDistance : R) :
    line.joins start finish maxDistance = line.joins finish start maxDistance :=
  Bool.or_comm _ _

namespace Collection

variable {c : Collection R}

theorem liesIn_swap (c : Collection R) (key : EndCells) (id : Nat) :
    c.liesIn key.swap id = c.liesIn key id := by
  rw [Bool.eq_iff_iff, liesIn_iff, liesIn_iff]
  simp only [EndCells.swap_eq_iff, EndCells.swap_swap, or_comm]

theorem WellFormed.bucket_swap (hc : WellFormed c) (key : EndCells) :
    c.bucket key.swap = c.bucket key := by
  rw [hc.filed, hc.filed]
  exact List.filter_congr fun id _ => c.liesIn_swap key id

theorem WellFormed.mem_filed_comm (hc : WellFormed c) {starts finishes : List Cell} {id : Nat} :
    id ∈ c.filed starts finishes ↔ id ∈ c.filed finishes starts := by
  have hswap : ∀ start finish, id ∈ c.bucket ⟨start, finish⟩ ↔ id ∈ c.bucket ⟨finish, start⟩ :=
    fun start finish => iff_of_eq (congrArg (id ∈ ·) (hc.bucket_swap ⟨finish, start⟩))
  rw [mem_filed, mem_filed]
  constructor
  · rintro ⟨start, hstart, finish, hfinish, hid⟩
    exact ⟨finish, hfinish, start, hstart, (hswap start finish).mp hid⟩
  · rintro ⟨finish, hfinish, start, hstart, hid⟩
    exact ⟨start, hstart, finish, hfinish, (hswap finish start).mp hid⟩

theorem WellFormed.filed_comm (hc : WellFormed c) (starts finishes : List Cell) :
    c.filed starts finishes = c.filed finishes starts :=
  (Ascending.distinct_sorted _).eq_of_mem_iff (Ascending.distinct_sorted _)
    fun _ => hc.mem_filed_comm

theorem WellFormed.candidates_comm (hc : WellFormed c) (start finish : Vec3 R) (maxDistance : R) :
    c.candidates start finish maxDistance = c.candidates finish start maxDistance := by
  unfold candidates
  cases Cell.window? start maxDistance with
  | none => cases Cell.window? finish maxDistance <;> rfl
  | some starts =>
    cases Cell.window? finish maxDistance with
    | none => rfl
    | some finishes => exact congrArg (Logged.mk · []) (hc.filed_comm starts finishes)

theorem joinsAt_comm (c : Collection R) (start finish : Vec3 R) (maxDistance : R) :
    c.joinsAt start finish maxDistance = c.joinsAt finish start maxDistance := by
  funext id
  unfold joinsAt
  simp only [Polyline.joins_comm _ start]

/-- **A search from one place to another is the search back**: the same numbers in the same order,
on the same of the two ways. -/
theorem Reachable.endpointSearch_comm (hc : Reachable c) (start finish : Vec3 R)
    (maxDistance : R) : c.endpointSearch start finish maxDistance =
      c.endpointSearch finish start maxDistance := by
  unfold endpointSearch
  rw [hc.wellFormed.candidates_comm start, joinsAt_comm c start]

/-- A polyline whose ends have no direction is as near to one place as to any other, but it is filed
under one cell. The other one has ends like any. -/
def placeless : Collection Float :=
  (({} : Collection Float).after ⟨[⟨0.0, 0.0, 0.0⟩, ⟨0.0, 0.0, 0.0⟩], none⟩ .smart).after
    ⟨[⟨0.0, 1.0, 0.0⟩, ⟨0.6, 0.8, 0.0⟩], none⟩ .smart

/-- The buckets hold the second one only, there and back. A look at every polyline finds both. -/
theorem placeless_endpointSearch_comm :
    Reachable placeless ∧ placeless.joinsAt ⟨0.0, 1.0, 0.0⟩ ⟨0.6, 0.8, 0.0⟩ 10.0 0 ∧
      (placeless.endpointSearch ⟨0.0, 1.0, 0.0⟩ ⟨0.6, 0.8, 0.0⟩ 10.0).log.isEmpty ∧
      (placeless.endpointSearch ⟨0.0, 1.0, 0.0⟩ ⟨0.6, 0.8, 0.0⟩ 10.0).value = [1] ∧
      placeless.endpointSearch ⟨0.0, 1.0, 0.0⟩ ⟨0.6, 0.8, 0.0⟩ 10.0 =
        placeless.endpointSearch ⟨0.6, 0.8, 0.0⟩ ⟨0.0, 1.0, 0.0⟩ 10.0 ∧
      ¬ (placeless.endpointSearch ⟨0.0, 1.0, 0.0⟩ ⟨0.6, 0.8, 0.0⟩ 1e8).log.isEmpty ∧
      (placeless.endpointSearch ⟨0.0, 1.0, 0.0⟩ ⟨0.6, 0.8, 0.0⟩ 1e8).value = [0, 1] ∧
      placeless.endpointSearch ⟨0.0, 1.0, 0.0⟩ ⟨0.6, 0.8, 0.0⟩ 1e8 =
        placeless.endpointSearch ⟨0.6, 0.8, 0.0⟩ ⟨0.0, 1.0, 0.0⟩ 1e8 := by
  have hreach : Reachable placeless := .add _ _ (.add _ _ .empty)
  exact ⟨hreach, by decide +kernel, by decide +kernel, by decide +kernel,
    hreach.endpointSearch_comm _ _ _, by decide +kernel, by decide +kernel,
    hreach.endpointSearch_comm _ _ _⟩

end Collection

end TransitShapes
