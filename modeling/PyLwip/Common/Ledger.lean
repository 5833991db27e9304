import Mathlib.Data.List.Basic

/-!
# A ledger of what is held

Things are acquired and released, one after the other, and the same thing may
be acquired again. `held` is what is left after a list of entries, in the
order of acquisition with the last first; it is `none` once something is
released that is not held.
-/

namespace Ledger

variable {α : Type*}

/-- An entry. -/
inductive Entry (α : Type*)
  | acquire (a : α)
  | release (a : α)
deriving DecidableEq

variable [DecidableEq α]

/-- What one entry does to what is held. -/
def enter : Option (List α) → Entry α → Option (List α)
  | none, _ => none
  | some held, .acquire a => some (a :: held)
  | some held, .release a => if a ∈ held then some (held.erase a) else none

/-- **What is held** after the entries. -/
def held (entries : List (Entry α)) : Option (List α) := entries.foldl enter (some [])

@[simp] theorem held_nil : held ([] : List (Entry α)) = some [] := rfl

theorem held_append (es es' : List (Entry α)) : held (es ++ es') = es'.foldl enter (held es) := by
  simp [held]

/-- What is acquired is held. -/
theorem held_acquire {es : List (Entry α)} {l : List α} (h : held es = some l) (a : α) :
    held (es ++ [.acquire a]) = some (a :: l) := by
  rw [held_append, h]
  rfl

/-- What is acquired and released leaves the rest as it was. -/
theorem held_acquire_release {es : List (Entry α)} {l : List α} (h : held es = some l) (a : α) :
    held (es ++ [.acquire a, .release a]) = some l := by
  rw [held_append, h]
  simp [enter]

end Ledger
