import Mathlib.Data.List.AList
import Mathlib.Data.List.Nodup

/-!
# Dictionaries and what assignments leave in them

A dictionary is a list of entries without duplicate keys, whose order does not
matter. Assigning to a key that is there already replaces the value: of a
list of assignments, all values are left exactly if the keys are distinct.
-/

/-- A dictionary. -/
abbrev Dict (κ ν : Type*) := AList fun _ : κ => ν

namespace Dict

variable {κ ν : Type*} [DecidableEq κ] {d : Dict κ ν} {k : κ} {v w : ν} {as : List (κ × ν)}

/-- The values. -/
def values (d : Dict κ ν) : List ν := d.entries.map Sigma.snd

/-- An assignment. -/
def set (d : Dict κ ν) (k : κ) (v : ν) : Dict κ ν := d.insert k v

/-- The assignments one after the other. -/
def assign (d : Dict κ ν) (as : List (κ × ν)) : Dict κ ν := as.foldl (fun d a => d.set a.1 a.2) d

@[simp] theorem lookup_set_self : (d.set k v).lookup k = some v := AList.lookup_insert d

theorem lookup_set_of_ne {k' : κ} (h : k' ≠ k) : (d.set k v).lookup k' = d.lookup k' :=
  AList.lookup_insert_ne h

/-- Where an entry comes from. -/
theorem lookup_set_cases {k' : κ} (h : (d.set k v).lookup k' = some w) :
    k' = k ∧ w = v ∨ k' ≠ k ∧ d.lookup k' = some w := by
  by_cases heq : k' = k
  · subst heq
    rw [lookup_set_self] at h
    exact .inl ⟨rfl, (Option.some.inj h).symm⟩
  · rw [lookup_set_of_ne heq] at h
    exact .inr ⟨heq, h⟩

theorem mem_values_iff : v ∈ d.values ↔ ∃ k, d.lookup k = some v := by
  simp only [values, List.mem_map]
  constructor
  · rintro ⟨⟨k, v'⟩, hmem, rfl⟩
    exact ⟨k, AList.mem_lookup_iff.mpr hmem⟩
  · rintro ⟨k, hk⟩
    exact ⟨⟨k, v⟩, AList.mem_lookup_iff.mp hk, rfl⟩

/-- What an assignment leaves among the values. -/
theorem mem_values_set_iff :
    w ∈ (d.set k v).values ↔ w = v ∨ ∃ k', k' ≠ k ∧ d.lookup k' = some w := by
  rw [mem_values_iff]
  constructor
  · rintro ⟨k', hk'⟩
    rcases lookup_set_cases hk' with ⟨-, rfl⟩ | ⟨hne, hk'⟩
    · exact .inl rfl
    · exact .inr ⟨k', hne, hk'⟩
  · rintro (rfl | ⟨k', hne, hk'⟩)
    · exact ⟨k, lookup_set_self⟩
    · exact ⟨k', by rwa [lookup_set_of_ne hne]⟩

/-! ## Several assignments -/

theorem lookup_assign_of_not_mem (h : k ∉ as.map Prod.fst) :
    (d.assign as).lookup k = d.lookup k := by
  induction as generalizing d with
  | nil => rfl
  | cons a as ih =>
    obtain ⟨hne, hnot⟩ : k ≠ a.1 ∧ k ∉ as.map Prod.fst := by simpa using h
    exact (ih hnot).trans (lookup_set_of_ne hne)

/-- What is in the dictionary was assigned, or was there. -/
theorem mem_of_lookup_assign (h : (d.assign as).lookup k = some v) :
    (k, v) ∈ as ∨ d.lookup k = some v := by
  induction as generalizing d with
  | nil => exact .inr h
  | cons a as ih =>
    rcases ih h with hmem | hlookup
    · exact .inl (List.mem_cons_of_mem _ hmem)
    · rcases lookup_set_cases hlookup with ⟨rfl, rfl⟩ | ⟨-, hlookup⟩
      · exact .inl List.mem_cons_self
      · exact .inr hlookup

/-- Of assignments to distinct keys each is there at the end. -/
theorem lookup_assign_of_mem (hkeys : (as.map Prod.fst).Nodup) (h : (k, v) ∈ as) :
    (d.assign as).lookup k = some v := by
  induction as generalizing d with
  | nil => cases h
  | cons a as ih =>
    obtain ⟨hnot, hkeys⟩ := List.nodup_cons.mp hkeys
    rcases List.mem_cons.mp h with rfl | h
    · exact (lookup_assign_of_not_mem hnot).trans lookup_set_self
    · exact ih hkeys h

/-- **The last assignment to a key is there at the end.** -/
theorem lookup_assign (d : Dict κ ν) (as : List (κ × ν)) (k : κ) :
    (d.assign as).lookup k =
      ((as.reverse.find? fun a => a.1 = k).map Prod.snd).or (d.lookup k) := by
  induction as generalizing d with
  | nil => rfl
  | cons a as ih =>
    rw [show d.assign (a :: as) = (d.set a.1 a.2).assign as from rfl, ih, List.reverse_cons,
      List.find?_append]
    cases as.reverse.find? fun a => a.1 = k with
    | some b => rfl
    | none =>
      by_cases hk : a.1 = k
      · subst hk
        simp
      · simp [hk, lookup_set_of_ne (Ne.symm hk)]

/-- **All values are left exactly if the keys are distinct**, for assignments
of distinct values to an empty dictionary. -/
theorem all_left_iff (hvalues : (as.map Prod.snd).Nodup) :
    (∀ a ∈ as, a.2 ∈ (assign ∅ as : Dict κ ν).values) ↔ (as.map Prod.fst).Nodup := by
  constructor
  · intro hleft
    have hlookup : ∀ a ∈ as, (assign ∅ as : Dict κ ν).lookup a.1 = some a.2 := by
      intro a ha
      obtain ⟨k, hk⟩ := mem_values_iff.mp (hleft a ha)
      have hmem : (k, a.2) ∈ as := by simpa using mem_of_lookup_assign hk
      -- no other assignment has this value
      have heq : (k, a.2) = a := List.inj_on_of_nodup_map hvalues hmem ha rfl
      rwa [← heq]
    refine hvalues.of_map.map_on fun a ha b hb heq => ?_
    have hsnd := hlookup a ha
    rw [heq, hlookup b hb] at hsnd
    exact Prod.ext heq (Option.some.inj hsnd).symm
  · exact fun hkeys a ha => mem_values_iff.mpr ⟨a.1, lookup_assign_of_mem hkeys ha⟩

end Dict
