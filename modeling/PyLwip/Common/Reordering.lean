import Mathlib.Data.List.Perm.Basic
import PyLwip.Common.Run

/-!
# Traces in which some events are late

A system with fewer moves can often do what another one does only if some
events come later there. Which events those are is `late`, and what an event
is about, if it is about one thing, is its `owner`. `SameOrder` says how far
the two traces may differ: what is not late keeps its order, and so does
what is about one thing.
-/

namespace EventSystem

variable {E K : Type*} [DecidableEq K] {late : E → Bool} {owner : E → Option K}
  {tr tr' tr₁ tr₁' : List E}

/-- **The same events**, but for when the late ones occur. -/
structure SameOrder (late : E → Bool) (owner : E → Option K) (tr tr' : List E) : Prop where
  punctual : tr.filter (fun e => !late e) = tr'.filter (fun e => !late e)
  owned : ∀ k, tr.filter (fun e => owner e = some k) = tr'.filter (fun e => owner e = some k)

namespace SameOrder

theorem refl (tr : List E) : SameOrder late owner tr tr := ⟨rfl, fun _ => rfl⟩

theorem trans {tr'' : List E} (h : SameOrder late owner tr tr')
    (h' : SameOrder late owner tr' tr'') : SameOrder late owner tr tr'' :=
  ⟨h.punctual.trans h'.punctual, fun k => (h.owned k).trans (h'.owned k)⟩

theorem append (h : SameOrder late owner tr tr') (h₁ : SameOrder late owner tr₁ tr₁') :
    SameOrder late owner (tr ++ tr₁) (tr' ++ tr₁') := by
  constructor
  · rw [List.filter_append, List.filter_append, h.punctual, h₁.punctual]
  · intro k
    rw [List.filter_append, List.filter_append, h.owned, h₁.owned]

/-- **Late events may wait** for what is not about the same things. -/
theorem wait (hlate : ∀ e ∈ tr, late e = true)
    (howner : ∀ e ∈ tr, ∀ e' ∈ tr₁, ∀ k, owner e = some k → owner e' ≠ some k) :
    SameOrder late owner (tr ++ tr₁) (tr₁ ++ tr) := by
  constructor
  · have hnil : tr.filter (fun e => !late e) = [] :=
      List.filter_eq_nil_iff.mpr fun e he => by simp [hlate e he]
    rw [List.filter_append, List.filter_append, hnil, List.append_nil, List.nil_append]
  · intro k
    rw [List.filter_append, List.filter_append]
    -- one of the two has no event about `k`
    by_cases hk : ∃ e ∈ tr, owner e = some k
    · obtain ⟨e, he, hek⟩ := hk
      have hnil : tr₁.filter (fun e => owner e = some k) = [] :=
        List.filter_eq_nil_iff.mpr fun e' he' => by simpa using howner e he e' he' k hek
      rw [hnil, List.append_nil, List.nil_append]
    · have hnil : tr.filter (fun e => owner e = some k) = [] :=
        List.filter_eq_nil_iff.mpr fun e he => by simpa using fun hek => hk ⟨e, he, hek⟩
      rw [hnil, List.append_nil, List.nil_append]

/-- Nothing is lost and nothing added, if what is late is about something. -/
theorem perm (h : SameOrder late owner tr tr')
    (howned : ∀ e, late e = true → (owner e).isSome = true) : tr.Perm tr' := by
  classical
  refine List.perm_iff_count.mpr fun e => ?_
  cases hlate : late e with
  | false =>
    have hcount : ∀ l : List E, l.count e = (l.filter fun e => !late e).count e := fun l =>
      (List.count_filter (by simp [hlate])).symm
    rw [hcount tr, hcount tr', h.punctual]
  | true =>
    obtain ⟨k, hk⟩ := Option.isSome_iff_exists.mp (howned e hlate)
    have hcount : ∀ l : List E, l.count e = (l.filter fun e => owner e = some k).count e := fun l =>
      (List.count_filter (by simp [hk])).symm
    rw [hcount tr, hcount tr', h.owned k]

end SameOrder

end EventSystem
