import PyLwip.Scheduler.Drain

/-!
# What becomes of a stop request

`stop` sets the status, and the first block of `run` sets it back. The
thread is launched before it takes that block's lock, so a stop can come in
between; it is then undone. Once the block is over nothing sets the status
back, and after an asynchronous stop the loop pops nothing more.
-/

namespace PyLwip

open EventSystem

variable {T O V : Type}

section Stop

variable [RichCompare O] [AddCommGroup T] [LinearOrder T] {timeoutMax : T}
  {tr : List (Event T O V)} {s s' s₀ s₁ : Sys T O V} {ev : Option (Event T O V)}

/-! ## Before a stop -/

/-- A worker that is in its loop does not come before it again. -/
theorem Transition.entered (hs : Transition timeoutMax s ev s') (h : s.worker.entered = true) :
    s'.worker.entered = true := by
  cases hs with
  | start hr hw | enterRun hr hw => simp [hw, Worker.entered] at h
  | rejected | cancel | scheduleRaised => exact h
  | accepted | stop => simpa using h
  | _ => rfl

theorem entered_of_run (h : Interleaving timeoutMax s tr s') (hent : s.worker.entered = true) :
    s'.worker.entered = true :=
  h.state_invariant (I := fun s => s.worker.entered = true) hent
    fun _ _ _ hent hs => hs.transition.entered hent

/-- A launched thread stays launched. -/
theorem Transition.not_unborn (hs : Transition timeoutMax s ev s') (h : s.worker ≠ .unborn) :
    s'.worker ≠ .unborn := by
  cases hs with
  | start hr hw => exact absurd hw h
  | rejected | cancel | scheduleRaised => exact h
  | accepted | stop =>
    intro hw
    cases hb : s.worker <;> simp_all [Worker.notify]
  | _ => simp

/-- **The step lemma**: a loop that runs is left by a stop alone. -/
theorem Transition.running (hs : Transition timeoutMax s ev s')
    (h : s.worker.entered = true → s.executor.status = .running)
    (hstop : ∀ b, ev ≠ some (.stopRequested b)) (hent : s'.worker.entered = true) :
    s'.executor.status = .running := by
  cases hs with
  | start => cases hent
  | enterRun => rfl
  | rejected | cancel | scheduleRaised => exact h hent
  | accepted => exact h (by simpa using hent)
  | stop => exact absurd rfl (hstop _)
  | leave hr hw hl =>
    have hrun := h (Worker.entered_of_atTurn hw)
    rcases hl with hl | ⟨hl, -⟩ <;> simp [hrun] at hl
  | wait _ hw | timeout _ hw | pop _ _ hw | popRaised _ _ hw =>
    exact h (Worker.entered_of_atTurn hw)
  | invoke _ hw | skip _ hw | takeRaised _ hw | complete _ hw | completeRaised _ hw
  | settleSync _ hw | settle _ hw | load _ hw | store _ hw =>
    exact h (by rw [hw]; rfl)

/-- Without a stop the status is `Running` once the first block of `run` is
over, whatever was requested before. -/
theorem running_of_launched (h : Interleaving timeoutMax s tr s')
    (hbefore : s.worker.entered = false) (hstop : ∀ b, .stopRequested b ∉ tr)
    (hent : s'.worker.entered = true) : s'.executor.status = .running := by
  refine h.invariant (I := fun tr s => (∀ b, .stopRequested b ∉ tr) → s.worker.entered = true →
    s.executor.status = .running) (fun _ h => by simp [hbefore] at h) ?_ hstop hent
  intro tr s ev s' _ ih hs hstop
  refine hs.transition.running (ih fun b hb => hstop b (List.mem_append_left _ hb)) ?_
  rintro b rfl
  exact hstop b (by simp)

theorem running_of_entered {now : T} (h : Interleaving timeoutMax (Sys.new now) tr s)
    (hstop : ∀ b, .stopRequested b ∉ tr) (hent : s.worker.entered = true) :
    s.executor.status = .running :=
  running_of_launched h rfl hstop hent

/-- A rejected call finds the status not `Running`. -/
theorem Transition.not_running (hs : Transition timeoutMax s (some .rejected) s') :
    s.executor.status ≠ .running := by
  cases hs with
  | rejected hr hst => exact hst

/-! ## After a crash -/

theorem Transition.worker_crashed (hs : Transition timeoutMax s ev s') {c : Crash}
    (hw : s.worker = .crashed c) : s'.worker = .crashed c := by
  cases hs with
  | rejected | cancel | scheduleRaised => exact hw
  | accepted | stop => simp [hw, Worker.notify]
  | leave _ hat | wait _ hat | timeout _ hat | pop _ _ hat | popRaised _ _ hat =>
    simp [hw, Worker.atTurn] at hat
  | _ => simp_all

/-- Where a comparison has raised in a pop the worker is gone; everywhere
else the tasks are conserved. -/
theorem conserved_or_crashed {now : T} (h : Interleaving timeoutMax (Sys.new now) tr s) :
    Conserved tr s ∨ ∃ c, s.worker = .crashed c := by
  refine h.invariant (I := fun tr s => Conserved tr s ∨ ∃ c, s.worker = .crashed c)
    (.inl (.init now)) ?_
  rintro tr s ev s' - (hc | ⟨c, hw⟩) hs
  · by_cases hcmp : ∃ x, ev = some (.crashed (.comparison x))
    · obtain ⟨x, rfl⟩ := hcmp
      cases hs.transition with
      | popRaised => exact .inr ⟨_, rfl⟩
    · exact .inl (hc.step hs.transition fun x hx => hcmp ⟨x, hx⟩)
  · exact .inr ⟨c, hs.transition.worker_crashed hw⟩

/-! ## After the first block of `run` -/

/-- **The stop lasts**: in every run from `s₀` on without another stop the
status is never `Running`, nothing is accepted, and after an asynchronous
stop no task is started that was queued. -/
def StopLasts (timeoutMax : T) (sync : Bool) (s₀ : Sys T O V) : Prop :=
  ∀ tr s, Interleaving timeoutMax s₀ tr s → (∀ b, .stopRequested b ∉ tr) →
    s.executor.status ≠ .running ∧ (∀ d t, .accepted d t ∉ tr) ∧
      (sync = false → ∀ t ∈ s₀.queue, t ∉ invokedTasks tr)

/-- What holds from a stop on, once the worker is in its loop. -/
structure Stopping (s : Sys T O V) : Prop where
  entered : s.worker.entered = true
  status : s.executor.status ≠ .running

theorem Stopping.step (h : Stopping s) (hs : Transition timeoutMax s ev s') : Stopping s' := by
  cases hs with
  | start hr hw | enterRun hr hw =>
    have := h.entered
    simp [hw, Worker.entered] at this
  | accepted hr hst | scheduleRaised hr hst => exact absurd hst h.status
  | rejected | cancel => exact ⟨h.entered, h.status⟩
  | stop =>
    refine ⟨by simpa using h.entered, ?_⟩
    simp only [Executor.stop]
    split <;> simp
  | leave => exact ⟨rfl, by simp⟩
  | _ => exact ⟨rfl, h.status⟩

theorem Stopping.not_accepted (h : Stopping s) (hs : Transition timeoutMax s ev s') (d : T)
    (t : Task T O) : ev ≠ some (.accepted d t) := by
  rintro rfl
  cases hs with
  | accepted hr hst => exact h.status hst

/-- What holds from an asynchronous stop on: the status is `Stopped`, so
the loop pops nothing, and `batch` is all that may still be started. -/
structure Halted (batch : List (Task T O)) (tr : List (Event T O V)) (s : Sys T O V) : Prop where
  stopping : Stopping s
  status : s.executor.status = .stopped
  rest : ∀ t ∈ s.worker.rest, t ∈ batch
  invoked : ∀ t ∈ invokedTasks tr, t ∈ batch

theorem Halted.step {batch : List (Task T O)} (h : Halted batch tr s)
    (hs : Transition timeoutMax s ev s') (hstop : ∀ b, ev ≠ some (.stopRequested b)) :
    Halted batch (tr ++ ev.toList) s' := by
  have hstopping := h.stopping.step hs
  have hl : s.executor.Leaves := .inl h.status
  have hinv : (∀ e ∈ ev, e.invoked? = none) → ∀ t ∈ invokedTasks (tr ++ ev.toList), t ∈ batch := by
    intro hev t ht
    cases ev with
    | none => exact h.invoked t (by simpa using ht)
    | some e => exact h.invoked t (by simpa [hev e rfl] using ht)
  cases hs with
  | start hr hw | enterRun hr hw =>
    have := h.stopping.entered
    simp [hw, Worker.entered] at this
  | accepted hr hst | scheduleRaised hr hst => exact absurd hst h.stopping.status
  | rejected | cancel => exact ⟨hstopping, h.status, h.rest, hinv (by simp [Event.invoked?])⟩
  | stop => exact absurd rfl (hstop _)
  | leave => exact ⟨hstopping, rfl, by simp [Worker.rest], hinv (by simp [Event.invoked?])⟩
  | wait _ _ hnl | timeout _ _ hnl | pop _ _ _ hnl | popRaised _ _ _ hnl => exact absurd hl hnl
  | @invoke r task rest hr hw hf =>
    have hmem : ∀ t ∈ task :: rest, t ∈ batch := fun t ht =>
      h.rest t (by rw [hw]; exact ht)
    refine ⟨hstopping, h.status, fun t ht => hmem t (List.mem_cons_of_mem _ ht), fun t ht => ?_⟩
    simp only [Option.toList_some, invokedTasks, seen_snoc, Event.invoked?, List.mem_append,
      List.mem_singleton] at ht
    rcases ht with ht | rfl
    · exact h.invoked t ht
    · exact hmem t List.mem_cons_self
  | @skip r task rest hr hw hf =>
    refine ⟨hstopping, h.status, fun t ht => h.rest t ?_, hinv (by simp [Event.invoked?])⟩
    rw [hw]
    exact List.mem_cons_of_mem _ ht
  | takeRaised | completeRaised =>
    exact ⟨hstopping, h.status, by simp [Worker.rest], hinv (by simp [Event.invoked?])⟩
  | complete hr hw | settle hr hw =>
    exact ⟨hstopping, h.status, by simpa [hw, Worker.rest] using h.rest,
      hinv (by simp [Event.invoked?])⟩
  | settleSync hr hw hst => rw [h.status] at hst; cases hst
  | load hr hw | store hr hw =>
    exact ⟨hstopping, h.status, by simpa [hw, Worker.rest] using h.rest, hinv (by simp)⟩

/-- A stop that comes before the first block of `run` is undone by it. -/
theorem StopLasts.not_launched {sync : Bool} (h : StopLasts timeoutMax sync s₀) :
    s₀.worker ≠ .launched := by
  intro hw
  have hstep : Steps timeoutMax s₀ (some .entered)
      { s₀ with executor := s₀.executor.enterRun, worker := .batch [] } :=
    ⟨(s₀.now, .enterRun), by simp [Sys.step, Sys.act, hw]⟩
  exact (h _ _ (Run.single hstep) (by simp)).1 rfl

theorem Stopping.run (h : Stopping s₀) (hrun : Interleaving timeoutMax s₀ tr s) :
    Stopping s ∧ ∀ d t, .accepted d t ∉ tr := by
  refine hrun.invariant (I := fun tr s => Stopping s ∧ ∀ d t, .accepted d t ∉ tr)
    ⟨h, by simp⟩ ?_
  rintro tr s ev s' - ⟨hs, htr⟩ hstep
  refine ⟨hs.step hstep.transition, fun d t ht => ?_⟩
  rcases List.mem_append.mp ht with ht | ht
  · exact htr d t ht
  · exact hs.not_accepted hstep.transition d t (by simpa [eq_comm] using ht)

theorem Halted.run {batch : List (Task T O)} (h : Halted batch [] s₀)
    (hrun : Interleaving timeoutMax s₀ tr s) (hone : ∀ b, .stopRequested b ∉ tr) :
    Halted batch tr s := by
  refine hrun.invariant
    (I := fun tr s => (∀ b, .stopRequested b ∉ tr) → Halted batch tr s) (fun _ => h) ?_ hone
  intro tr s ev s' _ ih hstep hone
  refine (ih fun b hb => hone b (List.mem_append_left _ hb)).step hstep.transition ?_
  rintro b rfl
  exact hone b (by simp)

theorem Stopping.of_stop {sync : Bool} (hent : s₁.worker.entered = true)
    (hs : Transition timeoutMax s₁ (some (.stopRequested sync)) s₀) : Stopping s₀ := by
  cases hs with
  | stop =>
    refine ⟨by simpa using hent, ?_⟩
    simp only [Executor.stop]
    split <;> simp

theorem Halted.of_stop (hent : s₁.worker.entered = true)
    (hs : Transition timeoutMax s₁ (some (.stopRequested false)) s₀) :
    Halted s₁.worker.rest [] s₀ := by
  refine ⟨.of_stop hent hs, ?_, ?_, by simp⟩
  · cases hs with
    | stop => simp [Executor.stop]
  · cases hs with
    | stop => simp

/-- No task is both queued and in the batch. -/
theorem queue_disjoint_rest {now : T} (h : Interleaving timeoutMax (Sys.new now) tr s)
    {t : Task T O} (hq : t ∈ s.queue) : t ∉ s.worker.rest := by
  intro hr
  rcases conserved_or_crashed h with hc | ⟨c, hw⟩
  · have hnd := hc.places_nodup
    rw [places, List.append_assoc] at hnd
    have hdisj := (List.nodup_append.mp (List.nodup_append.mp hnd).1).2.2
    exact hdisj t hq t hr rfl
  · simp [hw, Worker.rest] at hr

/-- **A stop request lasts exactly if the worker has begun its loop.** The
caller has launched the thread; the stop lasts if and only if the first
block of `run` was executed before it. -/
theorem stop_lasts_iff {now : T} (h : Interleaving timeoutMax (Sys.new now) tr s₁)
    (hstarted : s₁.worker ≠ .unborn) {sync : Bool}
    (hstop : Steps timeoutMax s₁ (some (.stopRequested sync)) s₀) :
    StopLasts timeoutMax sync s₀ ↔ s₁.worker ≠ .launched := by
  have hs := hstop.transition
  constructor
  · intro hlasts hw
    refine hlasts.not_launched ?_
    cases hs with
    | stop => simp [hw, Worker.notify]
  · intro hlaunched tr₂ s hrun hone
    have hent : s₁.worker.entered = true := Worker.entered_iff.mpr ⟨hstarted, hlaunched⟩
    obtain ⟨hstopping, haccepted⟩ := (Stopping.of_stop hent hs).run hrun
    refine ⟨hstopping.status, haccepted, ?_⟩
    rintro rfl t ht hinv
    have hqueue : s₀.queue = s₁.queue := by
      cases hs with
      | stop => rfl
    -- only the batch is still started, and the task was queued
    exact queue_disjoint_rest h (hqueue ▸ ht)
      (((Halted.of_stop hent hs).run hrun hone).invoked t hinv)

end Stop

/-! ## A stop that lasts, and one that does not -/

/-- The worker is running one task, and another is queued. -/
def halting : Sys ℤ Callable ℕ × List (Event ℤ Callable ℕ) :=
  outcome (Sys.step 100) (Sys.new 0)
    [(0, .start), (0, .enterRun), (0, .schedule 0 0 ⟨0⟩ [] []), (1, .turn 1), (1, .take),
      (2, .schedule 0 0 ⟨1⟩ [] [])] (by decide)

/-- The asynchronous stop. -/
def halted : Sys ℤ Callable ℕ × List (Event ℤ Callable ℕ) :=
  outcome (Sys.step 100) halting.1 [(2, .stop false)] (by decide)

theorem stop_lasts_halted : halted.1.queue.length = 1 ∧ StopLasts 100 false halted.1 := by
  have hrun : Interleaving 100 (Sys.new 0) halting.2 halting.1 := run_outcome _ _ _ _
  have hstop : Steps 100 halting.1 (some (.stopRequested false)) halted.1 :=
    ⟨(2, .stop false), rfl⟩
  exact ⟨by decide, (stop_lasts_iff hrun (by decide) hstop).mpr (by decide)⟩

/-- The thread is launched, and a stop requested before it takes the lock. -/
def launched : Sys ℤ Callable ℕ × List (Event ℤ Callable ℕ) :=
  outcome (Sys.step 100) (Sys.new 0) [(0, .start)] (by decide)

/-- The stop. -/
def stoppedEarly : Sys ℤ Callable ℕ × List (Event ℤ Callable ℕ) :=
  outcome (Sys.step 100) launched.1 [(1, .stop true)] (by decide)

/-- The worker begins, and a call is accepted. -/
def undone : Sys ℤ Callable ℕ × List (Event ℤ Callable ℕ) :=
  outcome (Sys.step 100) stoppedEarly.1 [(2, .enterRun), (3, .schedule 0 0 ⟨0⟩ [] [])] (by decide)

/-- **A stop can be undone**: it comes between the launch of the thread and
the first block of `run`, which sets the status back. -/
theorem stop_undone_by_run :
    ∃ (s₁ s₀ s : Sys ℤ Callable ℕ) (tr₁ tr₂ : List (Event ℤ Callable ℕ)),
      Interleaving 100 (Sys.new 0) tr₁ s₁ ∧ s₁.worker ≠ .unborn ∧
      Steps 100 s₁ (some (.stopRequested true)) s₀ ∧ Interleaving 100 s₀ tr₂ s ∧
      (∀ b, .stopRequested b ∉ tr₁ ++ tr₂) ∧ s.executor.status = .running ∧
      (acceptedTasks tr₂).length = 1 := by
  have hlaunched : Interleaving 100 (Sys.new 0) launched.2 launched.1 := run_outcome _ _ _ _
  have hundone : Interleaving 100 stoppedEarly.1 undone.2 undone.1 := run_outcome _ _ _ _
  exact ⟨launched.1, stoppedEarly.1, undone.1, launched.2, undone.2, hlaunched, by decide,
    ⟨(1, .stop true), rfl⟩, hundone, by decide, by decide, by decide⟩

end PyLwip
