import Mathlib.Logic.Basic

/-!
# Computations that keep a flag

A value, and whether all that was checked on the way held. The flag of a sequence is set exactly if
those of its parts are (`ok_bind`), and its value is that of the plain computation (`val_bind`).
-/

/-- A value, and whether what was checked for it held. -/
structure Flagged (α : Type) where
  val : α
  ok : Bool

namespace Flagged

instance : Monad Flagged where
  pure a := ⟨a, true⟩
  bind x f := ⟨(f x.val).val, x.ok && (f x.val).ok⟩

variable {α β : Type}

/-- A value for which something is checked. -/
def check (p : Prop) [Decidable p] (a : α) : Flagged α :=
  ⟨a, decide p⟩

@[simp] theorem val_pure (a : α) : (pure a : Flagged α).val = a :=
  rfl

@[simp] theorem ok_pure (a : α) : (pure a : Flagged α).ok = true :=
  rfl

@[simp] theorem val_bind (x : Flagged α) (f : α → Flagged β) : (x >>= f).val = (f x.val).val :=
  rfl

@[simp] theorem ok_bind (x : Flagged α) (f : α → Flagged β) :
    (x >>= f).ok = true ↔ x.ok = true ∧ (f x.val).ok = true :=
  Bool.and_eq_true_iff

@[simp] theorem val_check (p : Prop) [Decidable p] (a : α) : (check p a).val = a :=
  rfl

@[simp] theorem ok_check (p : Prop) [Decidable p] (a : α) : (check p a).ok = true ↔ p :=
  decide_eq_true_iff

end Flagged
