/-! # Lists in ascending order

All recursion is on the lists themselves or on a count of what is left, so that a concrete list is
sorted by evaluation alone.
-/

namespace TransitShapes.Ascending

variable {α : Type}

/-! ## Values in any order -/

/-- Puts a value before the first one that is not smaller. -/
def insert (cmp : α → α → Ordering) (a : α) : List α → List α
  | [] => [a]
  | b :: rest => if cmp a b = .gt then b :: insert cmp a rest else a :: b :: rest

/-- Joins two ascending lists behind `taken`, which is in reverse. Of two equal values the left one
goes first. As long as both lists last, `fuel` has to. -/
def mergeOnto (cmp : α → α → Ordering) : Nat → List α → List α → List α → List α
  | fuel + 1, taken, a :: left, b :: right =>
    if cmp a b = .gt then mergeOnto cmp fuel (b :: taken) (a :: left) right
    else mergeOnto cmp fuel (a :: taken) left (b :: right)
  | _, taken, left, right => taken.reverseAux (left ++ right)

/-- Sorts by halves, each of which may be halved `depth - 1` more times. -/
def sortHalves (cmp : α → α → Ordering) : Nat → List α → List α
  | 0, values => values
  | depth + 1, values =>
    let size := values.length
    if size < 2 then values
    else
      mergeOnto cmp size [] (sortHalves cmp depth (values.take (size / 2)))
        (sortHalves cmp depth (values.drop (size / 2)))

/-- Equal values keep their order. -/
def sort (cmp : α → α → Ordering) (values : List α) : List α :=
  sortHalves cmp values.length values

theorem mergeOnto_perm (cmp : α → α → Ordering) (fuel : Nat) (taken left right : List α) :
    (mergeOnto cmp fuel taken left right).Perm (taken ++ (left ++ right)) := by
  fun_induction mergeOnto cmp fuel taken left right with
  | case1 fuel taken a left b right _ ih =>
    refine ih.trans ?_
    simpa using (@List.perm_middle α b (taken ++ a :: left) right).symm
  | case2 fuel taken a left b right _ ih =>
    refine ih.trans ?_
    simpa using (@List.perm_middle α a taken (left ++ b :: right)).symm
  | case3 fuel taken left right _ =>
    rw [List.reverseAux_eq]
    exact (List.reverse_perm taken).append_right _

theorem sortHalves_perm (cmp : α → α → Ordering) (depth : Nat) (values : List α) :
    (sortHalves cmp depth values).Perm values := by
  fun_induction sortHalves cmp depth values with
  | case1 values => exact .rfl
  | case2 depth values size _ => exact .rfl
  | case3 depth values size _ first second =>
    refine (mergeOnto_perm ..).trans ?_
    simpa [size] using first.append second

theorem sort_perm (cmp : α → α → Ordering) (values : List α) : (sort cmp values).Perm values :=
  sortHalves_perm cmp values.length values

/-! ## Numbers, each once -/

def insertNew (n : Nat) : List Nat → List Nat
  | [] => [n]
  | m :: rest =>
    if n < m then n :: m :: rest else if n = m then m :: rest else m :: insertNew n rest

def distinct (numbers : List Nat) : List Nat := numbers.foldr insertNew []

end TransitShapes.Ascending
