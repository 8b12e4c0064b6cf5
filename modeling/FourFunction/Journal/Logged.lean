import FourFunction.Journal.Record

/-!
# Computations that keep a journal

A `Logged α` is a value together with the records written on the way to it. Doing one computation
after another appends their records.
-/

namespace FourFunction

/-- A value, and the records written while it was computed. -/
@[ext]
structure Logged (α : Type) where
  /-- The value. -/
  value : α
  /-- The records, in the order in which they were written. -/
  records : List Record

/-- Writes one record. -/
def record (r : Record) : Logged Unit := ⟨(), [r]⟩

namespace Logged

variable {α β : Type}

instance : Monad Logged where
  pure a := ⟨a, []⟩
  bind x f :=
    let next := f x.value
    ⟨next.value, x.records ++ next.records⟩

@[simp]
theorem value_pure (a : α) : (pure a : Logged α).value = a := rfl

@[simp]
theorem records_pure (a : α) : (pure a : Logged α).records = [] := rfl

@[simp]
theorem value_bind (x : Logged α) (f : α → Logged β) :
    (x >>= f).value = (f x.value).value := rfl

/-- Records are appended in the order of the steps that write them. -/
@[simp]
theorem records_bind (x : Logged α) (f : α → Logged β) :
    (x >>= f).records = x.records ++ (f x.value).records := rfl

@[simp]
theorem value_map (f : α → β) (x : Logged α) : (f <$> x).value = f x.value := rfl

@[simp]
theorem records_map (f : α → β) (x : Logged α) : (f <$> x).records = x.records :=
  List.append_nil _

@[simp]
theorem records_record (r : Record) : (record r).records = [r] := rfl

instance : LawfulMonad Logged :=
  LawfulMonad.mk' Logged
    (fun x => Logged.ext rfl (List.append_nil _))
    (fun _ _ => rfl)
    (fun _ _ _ => Logged.ext rfl (List.append_assoc ..))

end Logged

end FourFunction
