import PyLwip.Scheduler.Order

/-!
# What ends the worker's loop

An action's exception ends in its future, and the futures of queued tasks
are in the states `_process_task` expects. What remains is the lock's part of
the loop: a pop compares tasks, and tasks that tie on time and priority are
compared by their actions, arguments and futures, which may have no order;
and a wait hands the time to the next task to `Condition.wait`, which refuses
what is over `threading.TIMEOUT_MAX`. Either exception leaves `run`.

`Survivable` is the condition on the state a turn of the loop finds under
which neither happens.
-/

namespace PyLwip

open EventSystem

variable {T O V : Type}

instance (e : Executor T O) : Decidable e.Leaves :=
  inferInstanceAs (Decidable (e.status = .stopped ∨
    e.status = .stoppedSync ∧ (e.tasks.getTasks = [] ∨ e.tasksToFinish = 0)))

/-- **The worker takes a turn**, and is not only notified. -/
def Sys.TakesTurn (s s' : Sys T O V) : Prop :=
  s'.worker ≠ s.worker ∧ s'.worker ≠ s.worker.notify

instance [DecidableEq T] [DecidableEq O] (s s' : Sys T O V) : Decidable (s.TakesTurn s') :=
  inferInstanceAs (Decidable (_ ∧ _))

theorem Sys.takesTurn_of_crashed {s s' : Sys T O V} {c : Crash}
    (hat : s.worker.atTurn = true) (hw : s'.worker = .crashed c) : s.TakesTurn s' := by
  rw [TakesTurn, hw]
  cases hb : s.worker <;> simp_all [Worker.atTurn, Worker.notify]

section Survival

variable [RichCompare O] [AddCommGroup T] [LinearOrder T]

/-- **A turn survives** at the clock reading `r`: unless the loop leaves, the
queued tasks can be compared with each other, and the next one is no further
off than a wait can last. -/
def Sys.Survivable (timeoutMax r : T) (s : Sys T O V) : Prop :=
  s.worker.atTurn = true → ¬ s.executor.Leaves →
    Heapq.Comparable Task.entryLt s.executor.tasks.queue ∧
      ∀ root ∈ s.executor.tasks.queue[0]?, root.absTime - r ≤ timeoutMax

instance (timeoutMax r : T) (s : Sys T O V) : Decidable (s.Survivable timeoutMax r) :=
  inferInstanceAs (Decidable (_ → _ → _ ∧ ∀ root ∈ _, _))

/-- **A wait fits** at the clock reading `r`: unless the loop leaves, the next
task is no further off than a wait can last. -/
def Sys.WaitsFit (timeoutMax r : T) (s : Sys T O V) : Prop :=
  s.worker.atTurn = true → ¬ s.executor.Leaves →
    ∀ root ∈ s.executor.tasks.queue[0]?, root.absTime - r ≤ timeoutMax

omit [RichCompare O] in
instance (timeoutMax r : T) (s : Sys T O V) : Decidable (s.WaitsFit timeoutMax r) :=
  inferInstanceAs (Decidable (_ → _ → ∀ root ∈ _, _))

variable {timeoutMax : T} {tr : List (Event T O V)} {s s' : Sys T O V} {ev : Option (Event T O V)}

/-- A turn of a loop that survives compares tasks that can be compared. -/
theorem Transition.not_popRaised (hs : Transition timeoutMax s ev s')
    (h : s.TakesTurn s' → s.Survivable timeoutMax s'.now) (x : PyError) :
    ev ≠ some (.crashed (.comparison x)) := by
  rintro rfl
  cases hs with
  | popRaised hr hp hat hl hpop =>
    have hsurv := h (Sys.takesTurn_of_crashed hat rfl) hat hl
    exact TaskQueue.popTasksTillTimestamp_returns hsurv.1 hpop

/-- **The step lemma**: a worker whose waits fit is ended by a comparison
alone. -/
theorem Transition.not_crashed (hs : Transition timeoutMax s ev s') (hc : Conserved tr s)
    (hfit : s.TakesTurn s' → s.WaitsFit timeoutMax s'.now)
    (hcmp : ∀ x, ev ≠ some (.crashed (.comparison x))) (hw : ∀ c, s.worker ≠ .crashed c) :
    (∀ c, ev ≠ some (.crashed c)) ∧ ∀ c, s'.worker ≠ .crashed c := by
  cases hs with
  | timeout hr hat hl hroot hdue hmax =>
    exact absurd (hfit (Sys.takesTurn_of_crashed hat rfl) hat hl _ hroot) (not_le.mpr hmax)
  | popRaised => exact absurd rfl (hcmp _)
  | takeRaised hr hb hp hcan => exact absurd (hc.take_returns hb hp) hcan
  | completeRaised hr hb hf => exact absurd (hc.finish_returns hb) hf
  | rejected | cancel | scheduleRaised => exact ⟨by simp, hw⟩
  | accepted | stop =>
    refine ⟨by simp, fun c hcr => hw c ?_⟩
    cases hb : s.worker <;> simp_all [Worker.notify]
  | _ => exact ⟨by simp, by simp⟩

/-- **The worker survives every task.** In a run in which the turns that the
worker takes are survivable the loop of `run` never ends by an exception. -/
theorem worker_survives {now : T}
    (h : Run (fun s ev s' => Steps timeoutMax s ev s' ∧
      (s.TakesTurn s' → s.Survivable timeoutMax s'.now)) (Sys.new now) tr s) :
    (∀ c, .crashed c ∉ tr) ∧ ∀ c, s.worker ≠ .crashed c := by
  suffices hall : Conserved tr s ∧ (∀ c, .crashed c ∉ tr) ∧ ∀ c, s.worker ≠ .crashed c from hall.2
  refine h.invariant
    (I := fun tr s => Conserved tr s ∧ (∀ c, .crashed c ∉ tr) ∧ ∀ c, s.worker ≠ .crashed c)
    ⟨.init now, by simp, by simp [Sys.new]⟩ ?_
  rintro tr s ev s' - ⟨hc, htr, hw⟩ ⟨hs, hsurv⟩
  -- a comparison and a wait are all that could have ended the worker
  have hfit : s.TakesTurn s' → s.WaitsFit timeoutMax s'.now :=
    fun hturn hat hl => (hsurv hturn hat hl).2
  obtain ⟨hev, hw'⟩ := hs.transition.not_crashed hc hfit (hs.transition.not_popRaised hsurv) hw
  refine ⟨hc.step hs.transition fun x => hev _, fun c hcr => ?_, hw'⟩
  rcases List.mem_append.mp hcr with hcr | hcr
  · exact htr c hcr
  · exact hev c (by simpa [eq_comm] using hcr)

/-- A loop whose waits fit and whose pops return does not end by an
exception. -/
theorem not_crashed_of_run {now : T}
    (h : Run (fun s ev s' => Steps timeoutMax s ev s' ∧
      (s.worker ≠ s'.worker → s.WaitsFit timeoutMax s'.now)) (Sys.new now) tr s)
    (hpops : PopsReturn tr) (c : Crash) : s.worker ≠ .crashed c := by
  suffices hall : Conserved tr s ∧ ∀ c, s.worker ≠ .crashed c from hall.2 c
  refine h.invariant
    (I := fun tr s => PopsReturn tr → Conserved tr s ∧ ∀ c, s.worker ≠ .crashed c)
    (fun _ => ⟨.init now, by simp [Sys.new]⟩) ?_ hpops
  rintro tr s ev s' - ih ⟨hs, hfit⟩ hpops
  obtain ⟨hc, hw⟩ := ih hpops.left
  exact ⟨hc.step hs.transition hpops.ne_crashed,
    (hs.transition.not_crashed hc (fun hturn => hfit hturn.1.symm) hpops.ne_crashed hw).2⟩

end Survival

/-! ## A loop that lasts, and two that do not -/

/-- Two calls at different times, the first of which raises. -/
def survivor : Sys ℤ Callable ℕ × List (Event ℤ Callable ℕ) :=
  outcome (guarded (Sys.step 100) fun s s' => s.TakesTurn s' → s.Survivable 100 s'.now)
    (Sys.new 0)
    [(0, .start), (0, .enterRun), (0, .schedule 0 0 ⟨0⟩ [] []), (0, .schedule 3 0 ⟨1⟩ [] []),
      (1, .turn 1), (1, .take), (2, .finish (.exception (.other 0))), (2, .settle), (2, .turn 2),
      (3, .turn 3), (3, .take)] (by decide)

theorem worker_survives_survivor :
    (invokedTasks survivor.2).length = 2 ∧ (∀ c, .crashed c ∉ survivor.2) ∧
      ∀ c, survivor.1.worker ≠ .crashed c :=
  ⟨by decide, worker_survives (run_guarded_outcome _ _ _ _ _)⟩

/-- Three calls at one clock reading, the last two with the same delay and
priority. -/
def tied : Sys ℤ Callable ℕ × List (Event ℤ Callable ℕ) :=
  outcome (Sys.step 100) (Sys.new 0)
    [(0, .start), (0, .enterRun), (0, .schedule 0 0 ⟨0⟩ [] []), (0, .schedule 1 0 ⟨1⟩ [] []),
      (0, .schedule 1 0 ⟨2⟩ [] []), (0, .turn 0)] (by decide)

/-- A call further off than a wait can last. -/
def farOff : Sys ℤ Callable ℕ × List (Event ℤ Callable ℕ) :=
  outcome (Sys.step 100) (Sys.new 0)
    [(0, .start), (0, .enterRun), (0, .schedule 101 0 ⟨0⟩ [] []), (0, .turn 0)] (by decide)

/-- **The loop can end by an exception**, every call having returned: the
pop of a first task compares two that tie, functions without an order; and
a wait can be refused its timeout. -/
theorem loop_ends_by_exception :
    (∃ (tr : List (Event ℤ Callable ℕ)) (s : Sys ℤ Callable ℕ),
      Interleaving 100 (Sys.new 0) tr s ∧ PushesReturn tr ∧ (acceptedTasks tr).length = 3 ∧
        s.worker = .crashed (.comparison .typeError)) ∧
    ∃ (tr : List (Event ℤ Callable ℕ)) (s : Sys ℤ Callable ℕ),
      Interleaving 100 (Sys.new 0) tr s ∧ PushesReturn tr ∧ s.worker = .crashed .timeout :=
  ⟨⟨tied.2, tied.1, run_outcome _ _ _ _, by unfold PushesReturn; decide, by decide, by decide⟩,
    farOff.2, farOff.1, run_outcome _ _ _ _, by unfold PushesReturn; decide, by decide⟩

end PyLwip
