import PyLwip.Scheduler.StopRequest

/-!
# What a synchronous stop waits for

`stop(sync=True)` counts the queued tasks that are not cancelled, so that
the loop of `run` leaves at once where only cancelled ones are queued. The
count is taken once: a task cancelled later stays counted, and a task of the
batch in progress, which was not counted, is taken off the count all the
same. `counter_at_turn` says what the two come to, and the loop leaves
nothing but cancelled tasks behind exactly where they cancel out.
-/

namespace PyLwip

open EventSystem

variable {T O V : Type}

namespace Sys

/-- The tasks of the batch that have not ended. -/
def batch (s : Sys T O V) : List (Task T O) := s.worker.rest ++ s.worker.current

/-- What the counter comes to once the `finally` in progress is over. -/
def due (s : Sys T O V) : ℤ :=
  match s.worker with
  | .settling _ _ | .subtracting _ => s.executor.tasksToFinish - 1
  | .storing value _ => value
  | _ => s.executor.tasksToFinish

/-- The tasks waiting in the state `s₀` that were cancelled until `s`. -/
def cancelledSince (s₀ s : Sys T O V) : ℕ :=
  (s₀.queue ++ s₀.batch).countP fun t => !s₀.isCancelled t.future && s.isCancelled t.future

/-- What the batch in progress takes off the count of a stop that finds it:
one for each of its tasks that is not cancelled and has not ended, one for a
`finally` that has still to read the counter, and what is missing from the
value that a `finally` is about to store over the count. -/
def overdrawn (s : Sys T O V) : ℤ :=
  (s.batch.countP fun t => !s.isCancelled t.future : ℕ) +
    match s.worker with
    | .settling _ _ | .subtracting _ => 1
    | .storing value _ => s.queued - value
    | _ => 0

theorem due_of_atTurn {s : Sys T O V} (h : s.worker.atTurn = true) :
    s.due = s.executor.tasksToFinish := by
  cases hw : s.worker <;> simp_all [due, Worker.atTurn]

end Sys

/-- Of the tasks that were finished, those that were not cancelled before
ended or were cancelled since. -/
theorem countP_finished {tr : List (Event T O V)} {s₀ s : Sys T O V}
    (hskip : ∀ t, .skipped t ∈ tr → s.isCancelled t.future = true)
    (hcomp : ∀ t o, .completed t o ∈ tr →
      s₀.isCancelled t.future = false ∧ s.isCancelled t.future = false) :
    ((finishedTasks tr).countP fun t => !s₀.isCancelled t.future) =
      ((finishedTasks tr).countP fun t => !s₀.isCancelled t.future && s.isCancelled t.future) +
        (completedTasks tr).length := by
  induction tr with
  | nil => rfl
  | cons e tr ih =>
    have ih := ih (fun t ht => hskip t (.tail _ ht)) fun t o ht => hcomp t o (.tail _ ht)
    simp only [finishedTasks, completedTasks, seen, List.filterMap_cons] at ih ⊢
    cases e with
    | skipped t =>
      simp only [Event.finished?, Event.completed?, List.countP_cons, hskip t List.mem_cons_self,
        Bool.and_true]
      omega
    | completed t o =>
      obtain ⟨h₀, h₁⟩ := hcomp t o List.mem_cons_self
      simp only [Event.finished?, Event.completed?, List.countP_cons, h₀, h₁, List.length_cons]
      simp
      omega
    | _ => exact ih

/-- The tasks that were not cancelled are those cancelled since and those that
are not, where none of them ceases to be. -/
theorem countP_cancelled {s₀ s : Sys T O V}
    (h : ∀ n, s₀.isCancelled n = true → s.isCancelled n = true) (tasks : List (Task T O)) :
    (tasks.countP fun t => !s₀.isCancelled t.future) =
      (tasks.countP fun t => !s₀.isCancelled t.future && s.isCancelled t.future) +
        tasks.countP fun t => !s.isCancelled t.future := by
  rw [List.countP_eq_countP_filter_add _ _ fun t => s.isCancelled t.future, List.countP_filter,
    List.countP_filter]
  congr 1
  refine List.countP_congr fun t _ => ?_
  have := h t.future
  cases h₀ : s₀.isCancelled t.future <;> simp_all

section Runs

variable [RichCompare O] [AddCommGroup T] [LinearOrder T] {timeoutMax : T}
  {tr tr₁ tr₂ : List (Event T O V)} {s s' s₀ s₁ : Sys T O V} {ev : Option (Event T O V)}

/-! ## The last stop -/

/-- The state `s` is reached by the trace `tr`, and `s₀` is what the last
call of `stop` left, which was synchronous. -/
def LastStop (timeoutMax now : T) (tr tr₂ : List (Event T O V)) (s₀ s : Sys T O V) : Prop :=
  ∃ tr₁ s₁, tr = tr₁ ++ .stopRequested true :: tr₂ ∧
    Interleaving timeoutMax (Sys.new now) tr₁ s₁ ∧
    Steps timeoutMax s₁ (some (.stopRequested true)) s₀ ∧
    Interleaving timeoutMax s₀ tr₂ s ∧ ∀ b, .stopRequested b ∉ tr₂

/-- Only a synchronous stop sets the status `StoppedSync`. -/
theorem Transition.stoppedSync (hs : Transition timeoutMax s ev s')
    (hst : s'.executor.status = .stoppedSync) :
    ev = some (.stopRequested true) ∨
      s.executor.status = .stoppedSync ∧ ∀ b, ev ≠ some (.stopRequested b) := by
  cases hs with
  | @stop r sync hr =>
    cases sync with
    | true => exact .inl rfl
    | false => simp [Executor.stop] at hst
  | enterRun | leave => cases hst
  | _ => exact .inr ⟨hst, by simp⟩

/-- **Where the status is `StoppedSync` there was a last stop**, and it was
synchronous. -/
theorem exists_lastStop {now : T} (h : Interleaving timeoutMax (Sys.new now) tr s)
    (hst : s.executor.status = .stoppedSync) : ∃ tr₂ s₀, LastStop timeoutMax now tr tr₂ s₀ s := by
  refine h.invariant (I := fun tr s => s.executor.status = .stoppedSync →
    ∃ tr₂ s₀, LastStop timeoutMax now tr tr₂ s₀ s) (fun hst => by cases hst) ?_ hst
  intro tr s ev s' hr ih hs hst
  rcases hs.transition.stoppedSync hst with rfl | ⟨hst, hne⟩
  · exact ⟨[], s', tr, s, rfl, hr, hs, .refl, by simp⟩
  · obtain ⟨tr₂, s₀, tr₁, s₁, rfl, h₁, hstop, h₂, hlast⟩ := ih hst
    refine ⟨tr₂ ++ ev.toList, s₀, tr₁, s₁, by simp, h₁, hstop, h₂.step hs, fun b hb => ?_⟩
    rcases List.mem_append.mp hb with hb | hb
    · exact hlast b hb
    · exact hne b (by simpa [eq_comm] using hb)

/-! ## What the counter comes to -/

/-- What the steps after a synchronous stop keep while the status lasts:
nothing is pushed, and every task that ends is taken off the counter. -/
structure Counting (s₀ : Sys T O V) (tr : List (Event T O V)) (s : Sys T O V) : Prop where
  pushed : pushedTasks tr = []
  counted : s.due + (completedTasks tr).length = s₀.due

omit [RichCompare O] [AddCommGroup T] [LinearOrder T] in
/-- A step that ends no action and takes nothing off the counter. -/
theorem Counting.frame (h : Counting s₀ tr s) (hdue : s'.due = s.due)
    (hev : ∀ e ∈ ev, e.pushed? = none ∧ e.completed? = none) :
    Counting s₀ (tr ++ ev.toList) s' := by
  cases ev with
  | none => exact ⟨by simpa using h.pushed, by simpa [hdue] using h.counted⟩
  | some e =>
    obtain ⟨hp, hc⟩ := hev e rfl
    exact ⟨by simpa [hp] using h.pushed, by simpa [hc, hdue] using h.counted⟩

/-- The step lemma of the counting. -/
theorem Counting.step (h : Counting s₀ tr s) (hs : Transition timeoutMax s ev s')
    (hst : s.executor.status = .stoppedSync) (hst' : s'.executor.status = .stoppedSync)
    (hstop : ∀ b, ev ≠ some (.stopRequested b)) : Counting s₀ (tr ++ ev.toList) s' := by
  cases hs with
  | enterRun | leave => cases hst'
  | accepted hr hrun | scheduleRaised hr hrun =>
    rw [hst] at hrun
    cases hrun
  | stop => exact absurd rfl (hstop _)
  | settle hr hw hne => exact absurd hst hne
  | @complete r o task rest hr hw =>
    refine ⟨by simpa [Event.pushed?] using h.pushed, ?_⟩
    have hlen : (completedTasks (tr ++ [.completed task o])).length =
        (completedTasks tr).length + 1 := by simp [Event.completed?]
    have hcounted := h.counted
    simp only [Sys.due, hw] at hcounted
    simp only [Option.toList_some, hlen, Sys.due]
    push_cast
    omega
  | rejected | cancel => exact h.frame rfl (by simp [Event.pushed?, Event.completed?])
  | wait hr hat | timeout hr hat | pop hr hp hat | popRaised hr hp hat =>
    exact h.frame (Sys.due_of_atTurn hat).symm (by simp [Event.pushed?, Event.completed?])
  | start hr hw | invoke hr hw | skip hr hw | takeRaised hr hw | completeRaised hr hw
  | settleSync hr hw | load hr hw | store hr hw =>
    exact h.frame (by simp [Sys.due, hw]) (by simp [Event.pushed?, Event.completed?])

/-- The run lemma of the counting. -/
theorem counting_of_run (h : Interleaving timeoutMax s₀ tr s)
    (hlast : ∀ b, .stopRequested b ∉ tr) (hst : s.executor.status = .stoppedSync) :
    Counting s₀ tr s := by
  refine h.invariant (I := fun tr s => (∀ b, .stopRequested b ∉ tr) →
    s.executor.status = .stoppedSync → Counting s₀ tr s)
    (fun _ _ => ⟨rfl, by simp⟩) ?_ hlast hst
  intro tr s ev s' _ ih hs hlast hst
  have hne : ∀ b, ev ≠ some (.stopRequested b) := by
    rintro b rfl
    exact hlast b (by simp)
  obtain ⟨hst₀, -⟩ := (hs.transition.stoppedSync hst).resolve_left (hne true)
  exact (ih (fun b hb => hlast b (List.mem_append_left _ hb)) hst₀).step hs.transition hst₀ hst hne

/-! ## Where the waiting tasks are at a turn -/

/-- A loop that comes to a turn has not crashed before. -/
theorem conserved_of_atTurn {now : T} (h₀ : Interleaving timeoutMax (Sys.new now) tr₁ s₀)
    (h : Interleaving timeoutMax s₀ tr₂ s) (hat : s.worker.atTurn = true) : Conserved tr₁ s₀ := by
  refine (conserved_or_crashed h₀).resolve_right ?_
  rintro ⟨c, hw⟩
  have hend := h.state_invariant (I := fun s => s.worker = .crashed c) hw
    fun _ _ _ hw hs => hs.transition.worker_crashed hw
  simp [hend, Worker.atTurn] at hat

omit [RichCompare O] [AddCommGroup T] in
/-- The tasks that were waiting at the stop are queued or finished at a turn
after it. -/
theorem waiting_perm (hc₀ : Conserved tr₁ s₀) (hc : Conserved (tr₁ ++ tr₂) s)
    (hpushed : pushedTasks tr₂ = []) (hat : s.worker.atTurn = true) :
    (s₀.queue ++ s₀.batch).Perm (s.queue ++ finishedTasks tr₂) := by
  have hplaces : (places tr₁ s₀).Perm (places (tr₁ ++ tr₂) s) := by
    have hsame : pushedTasks (tr₁ ++ tr₂) = pushedTasks tr₁ := by
      simpa [seen_append] using hpushed
    exact hc₀.places.trans (hsame ▸ hc.places.symm)
  have hleft : places tr₁ s₀ = (s₀.queue ++ s₀.batch) ++ finishedTasks tr₁ := by
    simp [places, Sys.batch]
  have hright : (places (tr₁ ++ tr₂) s).Perm
      ((s.queue ++ finishedTasks tr₂) ++ finishedTasks tr₁) := by
    rw [places, Worker.rest_of_atTurn hat, Worker.current_of_atTurn hat, finishedTasks, seen_append,
      List.append_nil, List.append_nil, List.append_assoc]
    exact List.perm_append_comm.append_left _
  rw [hleft] at hplaces
  exact (List.perm_append_right_iff _).mp (hplaces.trans hright)

/-- What the stop sets, by the count it takes. -/
theorem Transition.due_stopped (hs : Transition timeoutMax s (some (.stopRequested true)) s₀) :
    s₀.due = s₀.queued + (s₀.batch.countP fun t => !s₀.isCancelled t.future : ℕ) -
      s₀.overdrawn := by
  have hcount := hs.stopped.1
  cases hw : s₀.worker <;> simp only [Sys.due, Sys.overdrawn, hw, hcount] <;> omega

/-- **What the counter comes to** at a turn of the loop: the queued tasks
that are not cancelled, and the tasks cancelled since the last stop, less
what the batch overdrew. -/
theorem counter_at_turn {now : T} (h : LastStop timeoutMax now tr tr₂ s₀ s)
    (hst : s.executor.status = .stoppedSync) (hat : s.worker.atTurn = true) :
    s.executor.tasksToFinish = s.queued + s₀.cancelledSince s - s₀.overdrawn := by
  obtain ⟨tr₁, s₁, rfl, h₁, hstop, h₂, hlast⟩ := h
  have hall₀ : Interleaving timeoutMax (Sys.new now) (tr₁ ++ [.stopRequested true]) s₀ :=
    h₁.step hstop
  have hc₀ := conserved_of_atTurn hall₀ h₂ hat
  have hc := conserved_of_atTurn (hall₀.trans h₂) .refl hat
  obtain ⟨hpushed, hcounted⟩ := counting_of_run h₂ hlast hst
  have hback : ∀ n, s₀.isCancelled n = true → s.isCancelled n = true := fun _ =>
    isCancelled_mono hall₀ hc (List.prefix_append _ _)
  have hskip : ∀ t, .skipped t ∈ tr₂ → s.isCancelled t.future = true := fun t ht => by
    rw [Sys.isCancelled, hc.skipped t (List.mem_append_right _ ht)]
    rfl
  have hcomp : ∀ t o, .completed t o ∈ tr₂ →
      s₀.isCancelled t.future = false ∧ s.isCancelled t.future = false := by
    intro t o ht
    have hend : s.isCancelled t.future = false := by
      rw [Sys.isCancelled, hc.completed t o (List.mem_append_right _ ht)]
      rfl
    refine ⟨?_, hend⟩
    by_contra hcan
    simp [hback _ (by simpa using hcan)] at hend
  have hfinished := countP_finished hskip hcomp
  have hperm := waiting_perm hc₀ hc hpushed hat
  have hopen := hperm.countP_eq fun t => !s₀.isCancelled t.future
  have hsince := hperm.countP_eq fun t => !s₀.isCancelled t.future && s.isCancelled t.future
  have hqueue := countP_cancelled hback s.queue
  have hqueued₀ : s₀.queue.countP (fun t => !s₀.isCancelled t.future) = s₀.queued := rfl
  have hqueued : s.queue.countP (fun t => !s.isCancelled t.future) = s.queued := rfl
  have hdue := hstop.transition.due_stopped
  rw [Sys.due_of_atTurn hat] at hcounted
  simp only [List.countP_append] at hopen hsince
  simp only [Sys.cancelledSince, List.countP_append]
  omega

/-! ## What is not waited for -/

/-- **A synchronous stop waits for no cancelled task exactly where the count
is right.** A stop is the move that assigns the count. Whenever the loop is at
its check with the status `StoppedSync` and only cancelled tasks queued, there
was a last stop; and the loop ends if and only if nothing is queued or as many
of the tasks waiting at that stop were cancelled since as the batch overdrew. -/
theorem stop_skips_cancelled_iff {now r p : T} (h : Interleaving timeoutMax (Sys.new now) tr s)
    (hst : s.executor.status = .stoppedSync)
    (hcan : ∀ t ∈ s.queue, s.isCancelled t.future = true)
    (hcheck : Sys.step timeoutMax s (r, .turn p) = some (s', ev)) :
    (∃ tr₂ s₀, LastStop timeoutMax now tr tr₂ s₀ s) ∧
      ∀ tr₂ s₀, LastStop timeoutMax now tr tr₂ s₀ s →
        (ev = some .returned ∧ s'.worker = .returned ↔
          s.queue = [] ∨ s₀.cancelledSince s = s₀.overdrawn) := by
  refine ⟨exists_lastStop h hst, fun tr₂ s₀ hlast => ?_⟩
  obtain ⟨hat, hreturned⟩ := returned_iff_of_turn hcheck
  have hcount := counter_at_turn hlast hst hat
  have hnone : s.queued = 0 := List.countP_eq_zero.mpr fun t ht => by simp [hcan t ht]
  rw [hreturned]
  constructor
  · rintro (hstopped | ⟨-, hempty | hzero⟩)
    · rw [hst] at hstopped
      cases hstopped
    · exact .inl hempty
    · exact .inr (by omega)
  · rintro (hempty | hpaid)
    · exact .inr ⟨hst, .inl hempty⟩
    · exact .inr ⟨hst, .inr (by omega)⟩

end Runs

/-! ## A loop that ends, and one that waits -/

/-- One call is running and the other is counted by the stop; it is then
cancelled, and the first takes itself off the count. -/
def cancelledForRunning : Sys ℤ Callable ℕ × List (Event ℤ Callable ℕ) :=
  outcome (Sys.step 100) oneCounted.1
    [(2, .cancel 1), (3, .finish (.result 0)), (3, .settle), (3, .load), (3, .store)] (by decide)

theorem stop_skips_cancelled_running :
    cancelledForRunning.1.queue.length = 1 ∧
      ∃ s', Sys.step 100 cancelledForRunning.1 (4, .turn 4) = some (s', some .returned) ∧
        s'.worker = .returned := by
  have hqueued : Interleaving 100 (Sys.new 0) twoQueued.2 twoQueued.1 := run_outcome _ _ _ _
  have hrunning : Interleaving 100 twoQueued.1 oneRunning.2 oneRunning.1 := run_outcome _ _ _ _
  have hstop : Steps 100 oneRunning.1 (some (.stopRequested true)) oneCounted.1 :=
    ⟨(2, .stop true), rfl⟩
  have hcancelled : Interleaving 100 oneCounted.1 cancelledForRunning.2 cancelledForRunning.1 :=
    run_outcome _ _ _ _
  have hrun : Interleaving 100 (Sys.new 0)
      ((twoQueued.2 ++ oneRunning.2) ++ .stopRequested true :: cancelledForRunning.2)
      cancelledForRunning.1 := by
    simpa using ((hqueued.trans hrunning).step hstop).trans hcancelled
  have hlast : LastStop 100 0
      ((twoQueued.2 ++ oneRunning.2) ++ .stopRequested true :: cancelledForRunning.2)
      cancelledForRunning.2 oneCounted.1 cancelledForRunning.1 :=
    ⟨_, oneRunning.1, rfl, hqueued.trans hrunning, hstop, hcancelled, by decide⟩
  have hiff := (stop_skips_cancelled_iff (r := 4) (p := 4) hrun rfl (by decide) rfl).2 _ _ hlast
  exact ⟨by decide, _, congrArg some (Prod.ext rfl (hiff.mpr (.inr (by decide))).1),
    (hiff.mpr (.inr (by decide))).2⟩

/-- Both calls are counted by the stop, and the second, which is not due, is
cancelled before the first has run. -/
def cancelledWhileCounted : Sys ℤ Callable ℕ × List (Event ℤ Callable ℕ) :=
  outcome (Sys.step 100) twoCounted.1
    [(1, .cancel 1), (1, .turn 1), (1, .take), (2, .finish (.result 0)), (2, .settle), (2, .load),
      (2, .store)] (by decide)

/-- **A synchronous stop can wait for a cancelled task**: it was counted
before it was cancelled, and nothing takes it off the count. -/
theorem stop_waits_for_cancelled :
    ∃ (tr : List (Event ℤ Callable ℕ)) (s s' : Sys ℤ Callable ℕ),
      Interleaving 100 (Sys.new 0) tr s ∧ s.executor.status = .stoppedSync ∧
      (∀ t ∈ s.queue, s.isCancelled t.future = true) ∧
      Sys.step 100 s (3, .turn 3) = some (s', none) ∧ s'.worker = .waiting (some 5) false := by
  have hqueued : Interleaving 100 (Sys.new 0) twoQueued.2 twoQueued.1 := run_outcome _ _ _ _
  have hstop : Steps 100 twoQueued.1 (some (.stopRequested true)) twoCounted.1 :=
    ⟨(1, .stop true), rfl⟩
  have hcancelled : Interleaving 100 twoCounted.1 cancelledWhileCounted.2 cancelledWhileCounted.1 :=
    run_outcome _ _ _ _
  exact ⟨_, cancelledWhileCounted.1, _, (hqueued.step hstop).trans hcancelled, by decide, by decide,
    rfl, by decide⟩

end PyLwip
