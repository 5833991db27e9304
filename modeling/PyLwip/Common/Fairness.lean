import PyLwip.Common.Run
import Mathlib.Order.Nat
import Mathlib.Data.Finset.Lattice.Fold

/-!
# What happens in the end

The positions of an infinite run are numbers, and what holds at them is a
predicate on numbers. `Eventually` is what holds at some later position,
`WeaklyFair` says that nothing stays enabled for ever without being done, and
the rank rule gets the one from the other: what is done lowers a rank, and
nothing else raises it.
-/

namespace EventSystem

/-- **In the end**, from the position `i` on. -/
def Eventually (i : ℕ) (Q : ℕ → Prop) : Prop := ∃ j, i ≤ j ∧ Q j

/-- **Weak fairness**: from every position on there is one where what is
enabled is done. -/
def WeaklyFair (enabled done : ℕ → Prop) : Prop := ∀ i, ∃ j, i ≤ j ∧ (enabled j → done j)

variable {P Q R : ℕ → Prop} {i : ℕ}

theorem Eventually.now (h : Q i) : Eventually i Q := ⟨i, le_rfl, h⟩

theorem Eventually.of_le {j : ℕ} (h : Eventually j Q) (hij : i ≤ j) : Eventually i Q :=
  let ⟨k, hjk, hk⟩ := h
  ⟨k, hij.trans hjk, hk⟩

theorem Eventually.mono (h : Eventually i Q) (hQR : ∀ j, i ≤ j → Q j → R j) : Eventually i R :=
  let ⟨j, hij, hj⟩ := h
  ⟨j, hij, hQR j hij hj⟩

/-- One phase after the other. -/
theorem Eventually.andThen (h : Eventually i Q) (hQR : ∀ j, i ≤ j → Q j → Eventually j R) :
    Eventually i R :=
  let ⟨j, hij, hj⟩ := h
  (hQR j hij hj).of_le hij

/-- **The rank rule.** In a phase `P` every position leads to the goal or is
followed by one of the phase, with a rank that is not raised, and that is
lowered where something is done; and until the goal is reached something is
enabled. -/
theorem Eventually.of_rank {enabled done : ℕ → Prop} (rank : ℕ → ℕ)
    (hstep : ∀ j, i ≤ j → P j → Eventually j Q ∨
      P (j + 1) ∧ rank (j + 1) ≤ rank j ∧ (done j → rank (j + 1) < rank j))
    (henabled : ∀ j, i ≤ j → P j → ¬ Q j → enabled j) (hfair : WeaklyFair enabled done)
    (hi : P i) : Eventually i Q := by
  induction hk : rank i using Nat.strong_induction_on generalizing i with
  | _ k ih =>
    subst hk
    by_cases hgoal : Eventually i Q
    · exact hgoal
    have hnot : ∀ j, i ≤ j → ¬ Eventually j Q := fun j hij hj => hgoal (hj.of_le hij)
    have hphase : ∀ j, i ≤ j → P j ∧ rank j ≤ rank i := by
      intro j hij
      induction j, hij using Nat.le_induction with
      | base => exact ⟨hi, le_rfl⟩
      | succ j hij ihj =>
        obtain ⟨hP, hle, -⟩ := (hstep j hij ihj.1).resolve_left (hnot j hij)
        exact ⟨hP, hle.trans ihj.2⟩
    -- the next position where something is done, and the rule from there on
    obtain ⟨j, hij, hdone⟩ := hfair i
    obtain ⟨hP, hle⟩ := hphase j hij
    obtain ⟨hP', -, hlt⟩ := (hstep j hij hP).resolve_left (hnot j hij)
    have henabled' := henabled j hij hP fun hQ => hnot j hij (.now hQ)
    have hlower : rank (j + 1) < rank i := (hlt (hdone henabled')).trans_le hle
    exact (ih _ hlower (fun j' h' => hstep j' (by omega)) (fun j' h' => henabled j' (by omega))
      hP' rfl).of_le (by omega)

section Traces

variable {E E' : Type*} {ev : ℕ → Option E}

/-- What is emitted before a position. -/
def traceTo (ev : ℕ → Option E) (i : ℕ) : List E := (List.range i).filterMap ev

theorem traceTo_succ (i : ℕ) : traceTo ev (i + 1) = traceTo ev i ++ (ev i).toList := by
  rw [traceTo, traceTo, List.range_succ, List.filterMap_append]
  cases h : ev i <;> simp [h]

theorem mem_traceTo {e : E} : e ∈ traceTo ev i ↔ ∃ j < i, ev j = some e := by
  simp [traceTo]

/-- Of a component likewise. -/
theorem filterMap_traceTo {g : E → Option E'} :
    (traceTo ev i).filterMap g = traceTo (fun j => (ev j).bind g) i := by
  rw [traceTo, traceTo, List.filterMap_filterMap]

end Traces

/-! ## Infinite runs that come to rest -/

section States

variable {S E L : Type*} (step : S → L → Option (S × Option E)) (s : S) (ls : List L)

/-- The states that a list of labels leads through. A label that is not
enabled changes nothing, and after the last one nothing happens any more. -/
def states : ℕ → S
  | 0 => s
  | i + 1 => ((ls[i]?.bind (step (states i))).map Prod.fst).getD (states i)

/-- The events that they emit. -/
def events (i : ℕ) : Option E := (ls[i]?.bind (step (states step s ls i))).bind Prod.snd

/-- The labels that are enabled. -/
def performed (i : ℕ) : Option L := ls[i]?.filter fun l => (step (states step s ls i) l).isSome

variable {step s ls}

theorem getElem?_of_performed {i : ℕ} {l : L} (h : performed step s ls i = some l) :
    ls[i]? = some l :=
  (Option.filter_eq_some_iff.mp h).1

variable (step s ls) in
theorem states_succ (i : ℕ) :
    (∃ l, performed step s ls i = some l ∧
      step (states step s ls i) l = some (states step s ls (i + 1), events step s ls i)) ∨
    performed step s ls i = none ∧ events step s ls i = none ∧
      states step s ls (i + 1) = states step s ls i := by
  have hsucc : states step s ls (i + 1) =
      ((ls[i]?.bind (step (states step s ls i))).map Prod.fst).getD (states step s ls i) := rfl
  cases hl : ls[i]?.bind (step (states step s ls i)) with
  | some r =>
    obtain ⟨l, hget, hstep⟩ := Option.bind_eq_some_iff.mp hl
    refine .inl ⟨l, by simp [performed, hget, hstep], ?_⟩
    rw [hsucc, events, hl, hstep]
    rfl
  | none =>
    refine .inr ⟨?_, by rw [events, hl]; rfl, by rw [hsucc, hl]; rfl⟩
    cases hget : ls[i]? with
    | none => simp [performed, hget]
    | some l => simp_all [performed]

theorem states_of_length_le {i : ℕ} (hi : ls.length ≤ i) :
    states step s ls i = states step s ls ls.length := by
  induction i, hi using Nat.le_induction with
  | base => rfl
  | succ i hi ih =>
    rw [← ih]
    rcases states_succ step s ls i with ⟨l, hl, -⟩ | ⟨-, -, heq⟩
    · have hget := getElem?_of_performed hl
      rw [List.getElem?_eq_none hi] at hget
      cases hget
    · exact heq

theorem events_of_length_le {i : ℕ} (hi : ls.length ≤ i) : events step s ls i = none := by
  simp [events, List.getElem?_eq_none hi]

variable (step s ls) in
/-- What is measured of the states is bounded. -/
theorem states_bounded (f : S → ℕ) : ∃ B, ∀ i, f (states step s ls i) ≤ B := by
  refine ⟨(Finset.range (ls.length + 1)).sup fun i => f (states step s ls i), fun i => ?_⟩
  have hle : ∀ j ≤ ls.length, f (states step s ls j) ≤
      (Finset.range (ls.length + 1)).sup fun i => f (states step s ls i) := fun j hj =>
    Finset.le_sup (f := fun i => f (states step s ls i)) (Finset.mem_range.mpr (by omega))
  rcases Nat.le_total i ls.length with hi | hi
  · exact hle i hi
  · rw [states_of_length_le hi]
    exact hle _ le_rfl

end States

end EventSystem
