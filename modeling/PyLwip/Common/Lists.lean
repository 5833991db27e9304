import Mathlib.Data.List.Destutter
import Mathlib.Data.List.Sort

/-!
# Lists and partial functions

What a partial function leaves of a list, next to what another one leaves or
what it leaves of another list; what a function with distinct values finds;
and the changes along a list.
-/

namespace Lists

variable {α β : Type*}

/-- Of a list whose images are distinct, one element has the image it has. -/
theorem filter_eq_singleton [DecidableEq β] {f : α → β} {l : List α} {a : α}
    (h : (l.map f).Nodup) (ha : a ∈ l) : l.filter (fun x => f x = f a) = [a] := by
  induction l with
  | nil => cases ha
  | cons x l ih =>
    obtain ⟨hx, hl⟩ := List.nodup_cons.mp h
    rcases List.mem_cons.mp ha with rfl | ha
    · have hnone : l.filter (fun y => f y = f a) = [] := by
        refine List.filter_eq_nil_iff.mpr fun y hy heq => hx ?_
        rw [← of_decide_eq_true heq]
        exact List.mem_map_of_mem hy
      rw [List.filter_cons_of_pos (by simp), hnone]
    · have hne : f x ≠ f a := fun heq => hx (heq ▸ List.mem_map_of_mem ha)
      rw [List.filter_cons_of_neg (by simpa using hne), ih hl ha]

/-- What is mapped by one of two partial functions, of which one is not
defined, is mapped by the one or by the other. -/
theorem filterMap_or_perm {f g : α → Option β} (h : ∀ a, f a = none ∨ g a = none)
    (l : List α) :
    (l.filterMap fun a => (f a).or (g a)).Perm (l.filterMap f ++ l.filterMap g) := by
  induction l with
  | nil => rfl
  | cons a l ih =>
    simp only [List.filterMap_cons]
    rcases h a with hf | hg
    · cases hga : g a with
      | none => simpa [hf, hga] using ih
      | some b =>
        simp only [hf, Option.none_or]
        exact (ih.cons b).trans List.perm_middle.symm
    · cases hfa : f a with
      | none => simpa [hfa, hg] using ih
      | some b => simpa [hfa, hg] using ih

/-- A partial function that is defined on less leaves less of a list. -/
theorem filterMap_sublist {f g : α → Option β} {l : List α}
    (h : ∀ a ∈ l, ∀ b, f a = some b → g a = some b) : (l.filterMap f).Sublist (l.filterMap g) := by
  induction l with
  | nil => exact List.Sublist.slnil
  | cons a l ih =>
    obtain ⟨ha, hl⟩ := List.forall_mem_cons.mp h
    have hrest := ih hl
    simp only [List.filterMap_cons]
    cases hfa : f a with
    | none =>
      cases g a with
      | none => exact hrest
      | some b => exact hrest.cons b
    | some b => simpa [ha b hfa] using hrest

theorem subperm_filterMap {l l' : List α} (f : α → Option β) (h : l.Subperm l') :
    (l.filterMap f).Subperm (l'.filterMap f) := by
  obtain ⟨m, hperm, hsub⟩ := h
  exact ⟨m.filterMap f, hperm.filterMap f, hsub.filterMap f⟩

/-- A relation that an element has to all behind it, wherever it stands. -/
theorem pairwise_of_split {r : α → α → Prop} {l : List α}
    (h : ∀ l₁ a l₂, l = l₁ ++ a :: l₂ → ∀ b ∈ l₂, r a b) : l.Pairwise r := by
  induction l with
  | nil => exact List.Pairwise.nil
  | cons a l ih =>
    refine List.Pairwise.cons (h [] a l rfl) (ih fun l₁ b l₂ heq => h (a :: l₁) b l₂ ?_)
    rw [heq, List.cons_append]

/-- Of two lists numbered upwards, one that has no other elements is a part of
the other. -/
theorem sublist_of_numbered {f : α → ℕ} {l l' : List α} (h : l.Pairwise fun a b => f a < f b)
    (h' : l'.Pairwise fun a b => f a < f b) (hsub : l ⊆ l') : l.Sublist l' := by
  have hanti : Std.Antisymm fun a b : α => f a < f b := ⟨fun _ _ hab hba => absurd hab hba.asymm⟩
  have hnodup : l.Nodup := h.imp fun hab => ne_of_apply_ne f hab.ne
  exact List.sublist_of_subperm_of_pairwise (List.subperm_of_subset hnodup hsub) h h'

/-- The changes along a list that grows at its end. -/
theorem destutter'_ne_snoc [DecidableEq α] (a b : α) (l : List α) :
    (l ++ [b]).destutter' (· ≠ ·) a =
      l.destutter' (· ≠ ·) a ++ if b = l.getLastD a then [] else [b] := by
  induction l generalizing a with
  | nil => by_cases hb : b = a <;> simp [hb, Ne.symm]
  | cons c l ih =>
    rw [List.cons_append, List.getLastD_cons]
    by_cases hc : a = c
    · subst hc
      rw [List.destutter'_cons_neg _ (by simp), List.destutter'_cons_neg _ (by simp), ih]
    · rw [List.destutter'_cons_pos _ hc, List.destutter'_cons_pos _ hc, ih, List.cons_append]

/-- There is one change along a list of one value. -/
theorem destutter'_ne_of_forall_eq [DecidableEq α] {a b : α} {l : List α} (hl : l ≠ [])
    (hall : ∀ c ∈ l, c = b) (hne : a ≠ b) : l.destutter' (· ≠ ·) a = [a, b] := by
  obtain ⟨m, rfl⟩ : ∃ m, l = List.replicate (m + 1) b :=
    ⟨l.length - 1, List.eq_replicate_iff.mpr
      ⟨by have := List.length_pos_iff.mpr hl; omega, hall⟩⟩
  have hconst : ∀ m, (List.replicate m b).destutter' (· ≠ ·) b = [b] := by
    intro m
    induction m with
    | zero => rfl
    | succ m ih => rw [List.replicate_succ, List.destutter'_cons_neg _ (by simp), ih]
  rw [List.replicate_succ, List.destutter'_cons_pos _ hne, hconst]

theorem rel_mono {r r' : α → β → Prop} (h : ∀ a b, r a b → r' a b) {a : Option α}
    {b : Option β} (hab : Option.Rel r a b) : Option.Rel r' a b := by
  cases hab with
  | some hr => exact .some (h _ _ hr)
  | none => exact .none

end Lists
