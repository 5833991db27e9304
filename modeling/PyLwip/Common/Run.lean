import Mathlib.Data.List.Basic
import Mathlib.Data.Option.Basic

/-!
# Runs of a system that emits events

A step takes a state to the next one and lets an observer see at most one
event. `Run` closes a step relation under composition and collects the
events into a trace; `execute` does the same for a step *function* on a
list of labels, so that a run on fixed inputs can be evaluated.

What a development uses of a run is here: the invariant rule, the split of
a run at an event of its trace, and the projection of a run of a composed
system to a run of one of its components. `EachCall` is for systems that are
a function of the calls made of them.
-/

namespace EventSystem

variable {S S' E E' L : Type*}

/-- **A run**: the steps one after the other, with the events they emit in
the order they are emitted. -/
inductive Run (Step : S → Option E → S → Prop) (s : S) : List E → S → Prop
  | refl : Run Step s [] s
  | step {tr : List E} {t u : S} {o : Option E} :
      Run Step s tr t → Step t o u → Run Step s (tr ++ o.toList) u

namespace Run

variable {Step : S → Option E → S → Prop} {s t u : S} {tr tr' : List E}

theorem single {o : Option E} (h : Step s o t) : Run Step s o.toList t := by
  simpa using refl.step h

theorem trans (h₁ : Run Step s tr t) (h₂ : Run Step t tr' u) : Run Step s (tr ++ tr') u := by
  induction h₂ with
  | refl => simpa using h₁
  | step _ hs ih => simpa [List.append_assoc] using ih.step hs

/-- **The invariant rule**: what holds of the empty trace and is kept by
every step holds along every run. -/
theorem invariant {I : List E → S → Prop} (hinit : I [] s)
    (hstep : ∀ tr t o u, Run Step s tr t → I tr t → Step t o u → I (tr ++ o.toList) u)
    (h : Run Step s tr t) : I tr t := by
  induction h with
  | refl => exact hinit
  | step hr hs ih => exact hstep _ _ _ _ hr ih hs

/-- The invariant rule for a property of the state alone. -/
theorem state_invariant {I : S → Prop} (hinit : I s)
    (hstep : ∀ t o u, I t → Step t o u → I u) (h : Run Step s tr t) : I t :=
  h.invariant (I := fun _ t => I t) hinit fun _ t o u _ => hstep t o u

/-- A run stays a run when the step relation grows. -/
theorem mono {Step' : S → Option E → S → Prop} (hsub : ∀ t o u, Step t o u → Step' t o u)
    (h : Run Step s tr t) : Run Step' s tr t := by
  induction h with
  | refl => exact refl
  | step _ hs ih => exact ih.step (hsub _ _ _ hs)

/-- **A run splits at any event of its trace**: some step emitted it. -/
theorem split {pre post : List E} {e : E} (h : Run Step s (pre ++ e :: post) u) :
    ∃ t t', Run Step s pre t ∧ Step t (some e) t' ∧ Run Step t' post u := by
  generalize htr : pre ++ e :: post = tr at h
  induction h generalizing post with
  | refl => simp at htr
  | @step tr t u o hr hs ih =>
    rcases List.eq_nil_or_concat post with rfl | ⟨post', b, rfl⟩
    · cases o with
      | none =>
        obtain ⟨t₀, t₁, h₀, h₁, h₂⟩ := @ih [] (by simpa using htr)
        exact ⟨t₀, t₁, h₀, h₁, by simpa using h₂.step hs⟩
      | some b =>
        obtain ⟨hpre, hb⟩ := List.append_inj' htr rfl
        obtain rfl : e = b := by simpa using hb
        exact ⟨t, u, hpre ▸ hr, hs, refl⟩
    · cases o with
      | none =>
        obtain ⟨t₀, t₁, h₀, h₁, h₂⟩ := @ih (post'.concat b) (by simpa using htr)
        exact ⟨t₀, t₁, h₀, h₁, by simpa using h₂.step hs⟩
      | some b' =>
        have htr' : (pre ++ e :: post') ++ [b] = tr ++ [b'] := by simpa using htr
        obtain ⟨hpre, hb⟩ := List.append_inj' htr' rfl
        obtain rfl : b = b' := by simpa using hb
        obtain ⟨t₀, t₁, h₀, h₁, h₂⟩ := ih hpre
        exact ⟨t₀, t₁, h₀, h₁, by simpa using h₂.step hs⟩

/-- A run splits wherever its trace does. -/
theorem split_append {pre post : List E} (h : Run Step s (pre ++ post) u) :
    ∃ t, Run Step s pre t ∧ Run Step t post u := by
  cases post with
  | nil => exact ⟨u, by simpa using h, refl⟩
  | cons e post =>
    obtain ⟨t, t', hpre, hs, hpost⟩ := h.split
    exact ⟨t, hpre, by simpa using (single hs).trans hpost⟩

/-- Every event of the trace was emitted by a step of the run. -/
theorem exists_of_mem {e : E} (h : Run Step s tr u) (he : e ∈ tr) :
    ∃ pre post t t', tr = pre ++ e :: post ∧ Run Step s pre t ∧ Step t (some e) t' ∧
      Run Step t' post u := by
  obtain ⟨pre, post, rfl⟩ := List.append_of_mem he
  obtain ⟨t, t', hpre, hs, hpost⟩ := h.split
  exact ⟨pre, post, t, t', rfl, hpre, hs, hpost⟩

/-- **What holds at the start of a run and not at its end is lost at a step.** -/
theorem exists_loss {P : S → Prop} (h : Run Step s tr u) (hs : P s) (hu : ¬ P u) :
    ∃ pre o post t t', tr = pre ++ o.toList ++ post ∧ Run Step s pre t ∧ Step t o t' ∧
      Run Step t' post u ∧ P t ∧ ¬ P t' := by
  induction h with
  | refl => exact absurd hs hu
  | @step tr t u o hr hstep ih =>
    by_cases ht : P t
    · exact ⟨tr, o, [], t, u, by simp, hr, hstep, refl, ht, hu⟩
    · obtain ⟨pre, o', post, t₀, t₁, rfl, hpre, h₀, hpost, hp⟩ := ih ht
      exact ⟨pre, o', post ++ o.toList, t₀, t₁, by simp, hpre, h₀, hpost.step hstep, hp⟩

/-- A run all of whose steps have a further property is a run of the steps
that have it. -/
theorem restrict {P : S → Option E → S → Prop}
    (hP : ∀ tr' t o u, tr' <+: tr → Run Step s tr' t → Step t o u → P t o u)
    (h : Run Step s tr t) : Run (fun t o u => Step t o u ∧ P t o u) s tr t := by
  induction h with
  | refl => exact refl
  | @step tr t u o hr hs ih =>
    have hpre : tr <+: tr ++ o.toList := List.prefix_append _ _
    exact (ih fun tr' t o u h => hP tr' t o u (h.trans hpre)).step ⟨hs, hP _ _ _ _ hpre hr hs⟩

/-- **A run of a composed system is a run of its component**, when every
step of the whole either is a step of the component or leaves it alone. -/
theorem project {Step' : S' → Option E' → S' → Prop} {f : S → S'} {g : E → Option E'}
    (hstep : ∀ t o u, Step t o u →
      Step' (f t) (o.bind g) (f u) ∨ (o.bind g = none ∧ f u = f t))
    (h : Run Step s tr t) : Run Step' (f s) (tr.filterMap g) (f t) := by
  induction h with
  | refl => exact refl
  | @step tr t u o _ hs ih =>
    have hmap : (tr ++ o.toList).filterMap g = tr.filterMap g ++ (o.bind g).toList := by
      cases o with
      | none => simp
      | some e => cases hg : g e <;> simp [hg]
    rw [hmap]
    rcases hstep t o u hs with hs' | ⟨hnone, heq⟩
    · exact ih.step hs'
    · rw [hnone, heq]
      simpa using ih

end Run

/-- The step relation of a step function on labels. -/
def StepOf (step : S → L → Option (S × Option E)) (s : S) (o : Option E) (t : S) : Prop :=
  ∃ l, step s l = some (t, o)

/-- Execute a list of labels, `none` where one is not enabled. -/
def execute (step : S → L → Option (S × Option E)) : S → List L → Option (S × List E)
  | s, [] => some (s, [])
  | s, l :: ls =>
    match step s l with
    | none => none
    | some (t, o) => (execute step t ls).map fun r => (r.1, o.toList ++ r.2)

/-- **What executes is a run.** -/
theorem run_of_execute {step : S → L → Option (S × Option E)} {ls : List L} {s t : S}
    {tr : List E} (h : execute step s ls = some (t, tr)) : Run (StepOf step) s tr t := by
  induction ls generalizing s tr with
  | nil =>
    simp only [execute, Option.some.injEq, Prod.mk.injEq] at h
    obtain ⟨rfl, rfl⟩ := h
    exact Run.refl
  | cons l ls ih =>
    simp only [execute] at h
    split at h
    · cases h
    · next u o hl =>
      obtain ⟨r, hr, hrt⟩ := Option.map_eq_some_iff.mp h
      obtain ⟨rfl, rfl⟩ := Prod.mk.inj hrt
      exact (Run.single ⟨l, hl⟩).trans (ih hr)

/-- The end of a list of labels that executes, and its trace. -/
def outcome (step : S → L → Option (S × Option E)) (s : S) (ls : List L)
    (h : (execute step s ls).isSome = true) : S × List E :=
  (execute step s ls).get h

theorem run_outcome (step : S → L → Option (S × Option E)) (s : S) (ls : List L)
    (h : (execute step s ls).isSome = true) :
    Run (StepOf step) s (outcome step s ls h).2 (outcome step s ls h).1 :=
  run_of_execute (Option.some_get h).symm

/-! ## Steps that meet a condition -/

/-- The step function that refuses a step not meeting `ok`. -/
def guarded (step : S → L → Option (S × Option E)) (ok : S → S → Prop)
    [∀ s t, Decidable (ok s t)] (s : S) (l : L) : Option (S × Option E) :=
  (step s l).filter fun r => ok s r.1

theorem stepOf_guarded {step : S → L → Option (S × Option E)} {ok : S → S → Prop}
    [∀ s t, Decidable (ok s t)] {s t : S} {o : Option E} (h : StepOf (guarded step ok) s o t) :
    StepOf step s o t ∧ ok s t := by
  obtain ⟨l, hl⟩ := h
  obtain ⟨hs, hok⟩ := Option.filter_eq_some_iff.mp hl
  exact ⟨⟨l, hs⟩, by simpa using hok⟩

/-- **A guarded execution is a run of steps that meet the condition.** -/
theorem run_guarded_outcome (step : S → L → Option (S × Option E)) (ok : S → S → Prop)
    [∀ s t, Decidable (ok s t)] (s : S) (ls : List L)
    (h : (execute (guarded step ok) s ls).isSome = true) :
    Run (fun s o t => StepOf step s o t ∧ ok s t) s (outcome (guarded step ok) s ls h).2
      (outcome (guarded step ok) s ls h).1 :=
  (run_outcome (guarded step ok) s ls h).mono fun _ _ _ => stepOf_guarded

/-! ## Sequences of calls -/

section Calls

variable {A : Type*} {next : S → A → S} {P Q : S → A → Prop} {s : S}

/-- **What holds of each call** of a sequence, in the state that the call
finds. -/
def EachCall (next : S → A → S) (P : S → A → Prop) : List A → S → Prop
  | [], _ => True
  | a :: as, s => P s a ∧ EachCall next P as (next s a)

/-- Two properties that agree in the states of an invariant, which the second
keeps, hold of the same sequences of calls. -/
theorem EachCall.congr {I : S → Prop}
    (hstep : ∀ s a, I s → (P s a ↔ Q s a) ∧ (Q s a → I (next s a))) (hs : I s) (as : List A) :
    EachCall next P as s ↔ EachCall next Q as s := by
  induction as generalizing s with
  | nil => exact Iff.rfl
  | cons a as ih =>
    obtain ⟨hiff, hkeeps⟩ := hstep s a hs
    rw [EachCall, EachCall, hiff]
    exact and_congr_right fun hq => ih (hkeeps hq)

end Calls

end EventSystem
