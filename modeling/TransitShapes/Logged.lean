/-! # Values with a log

A computation that reports what it does is a value together with its reports in order. The reports
cannot be read back, so they cannot change the value.
-/

namespace TransitShapes

structure Logged (Report α : Type) where
  value : α
  log : List Report := []

namespace Logged

variable {Report Other α β : Type}

instance : Monad (Logged Report) where
  pure a := ⟨a, []⟩
  bind x f := ⟨(f x.value).value, x.log ++ (f x.value).log⟩

@[simp] theorem value_pure (a : α) : (pure a : Logged Report α).value = a := rfl

@[simp] theorem log_pure (a : α) : (pure a : Logged Report α).log = [] := rfl

@[simp] theorem value_bind (x : Logged Report α) (f : α → Logged Report β) :
    (x >>= f).value = (f x.value).value := rfl

@[simp] theorem log_bind (x : Logged Report α) (f : α → Logged Report β) :
    (x >>= f).log = x.log ++ (f x.value).log := rfl

instance : LawfulMonad (Logged Report) :=
  LawfulMonad.mk' _ (fun x => by cases x; simp [Functor.map])
    (fun a f => by simp [bind, pure]) (fun x f g => by simp [bind, List.append_assoc])

def report (r : Report) : Logged Report Unit := ⟨(), [r]⟩

/-- The same value with every report replaced by those that `f` makes of it. -/
def mapLog (f : Report → List Other) (x : Logged Report α) : Logged Other α :=
  ⟨x.value, x.log.flatMap f⟩

@[simp] theorem value_mapLog (f : Report → List Other) (x : Logged Report α) :
    (x.mapLog f).value = x.value := rfl

@[simp] theorem log_mapLog (f : Report → List Other) (x : Logged Report α) :
    (x.mapLog f).log = x.log.flatMap f := rfl

end Logged

end TransitShapes
