import PyLwip.Scheduler.Conservation

/-!
# No wake-up is lost

The worker goes to wait under the lock, after a look at the status, the
counter and the root of the queue, and until it is notified nobody changes
what it saw: who changes the queue or the status notifies. So a worker that
waits and was not notified waits for what there is to wait for.
-/

namespace PyLwip

open EventSystem

variable {T O V : Type} {tr : List (Event T O V)} {s s' : Sys T O V} {ev : Option (Event T O V)}

/-- **What a worker that was not notified waits for**: the loop does not
leave, and the deadline is that of the queue's root. -/
def Sys.Attentive (s : Sys T O V) : Prop :=
  ∀ deadline, s.worker = .waiting deadline false →
    ¬ s.executor.Leaves ∧ deadline = s.executor.tasks.queue[0]?.map Task.absTime

/-- Who was notified is not waiting unnotified. -/
theorem Worker.notify_ne (w : Worker T O) (deadline : Option T) :
    w.notify ≠ .waiting deadline false := by
  cases w <;> simp [notify]

/-- A worker anywhere else is attentive. -/
theorem Sys.attentive_of_ne (h : ∀ deadline, s.worker ≠ .waiting deadline false) : s.Attentive :=
  fun deadline hw => absurd hw (h deadline)

/-- **The root of the queue is the task to wait for.** -/
theorem Conserved.root_least [LinearOrder T] (h : Conserved tr s) {τ : T}
    (hroot : s.executor.tasks.queue[0]?.map Task.absTime = some τ) :
    (∃ t ∈ s.queue, t.absTime = τ) ∧ ∀ t ∈ s.queue, τ ≤ t.absTime := by
  obtain ⟨root, hget, rfl⟩ := Option.map_eq_some_iff.mp hroot
  obtain ⟨hmem, hleast⟩ := TaskQueue.root_least h.ordered hget
  exact ⟨⟨root, hmem, rfl⟩, fun t ht => Task.absTime_le_of_key_le (hleast t ht)⟩

section Steps

variable [RichCompare O] [AddCommGroup T] [LinearOrder T] {timeoutMax : T}

/-- **The step lemma**: a step whose push does not raise notifies the worker
where it changes what the worker waits for. -/
theorem Sys.Attentive.step (h : s.Attentive) (hs : Transition timeoutMax s ev s')
    (hpush : ∀ t x, ev ≠ some (.scheduleRaised t x)) : s'.Attentive := by
  cases hs with
  | wait hr hw hl hroot =>
    intro deadline hwait
    cases hwait
    exact ⟨hl, rfl⟩
  | accepted | stop => exact attentive_of_ne fun deadline => Worker.notify_ne _ deadline
  | scheduleRaised => exact absurd rfl (hpush _ _)
  | rejected | cancel => exact h
  | _ => exact attentive_of_ne fun deadline hw => by cases hw

/-- **The run lemma.** -/
theorem attentive_of_run {now : T} (h : Interleaving timeoutMax (Sys.new now) tr s)
    (hpushes : PushesReturn tr) : s.Attentive := by
  refine h.invariant (I := fun tr s => PushesReturn tr → s.Attentive)
    (fun _ => Sys.attentive_of_ne fun deadline hw => by cases hw) ?_ hpushes
  intro tr s ev s' _ ih hs hpushes
  exact (ih hpushes.left).step hs.transition hpushes.ne_raised

/-- **No wake-up is lost.** A worker that waits and was not notified has not
been stopped, has not drained the queue it was to drain, and waits until the
time of the first queued task, or without a deadline if none is queued. -/
theorem no_lost_wakeup {now : T} (h : Interleaving timeoutMax (Sys.new now) tr s)
    (hq : NoComparisonRaises tr) {deadline : Option T}
    (hw : s.worker = .waiting deadline false) :
    s.executor.status ≠ .stopped ∧
    ¬ (s.executor.status = .stoppedSync ∧ (s.queue = [] ∨ s.executor.tasksToFinish = 0)) ∧
    (deadline = none ↔ s.queue = []) ∧
    ∀ τ, deadline = some τ → (∃ t ∈ s.queue, t.absTime = τ) ∧ ∀ t ∈ s.queue, τ ≤ t.absTime := by
  obtain ⟨hleaves, hdeadline⟩ := attentive_of_run h hq.2 deadline hw
  have hc := conserved_of_run h hq.1
  refine ⟨fun hst => hleaves (.inl hst), fun hst => hleaves (.inr hst), ?_, fun τ hτ => ?_⟩
  · rw [hdeadline]
    simp [Sys.queue, TaskQueue.getTasks]
  · rw [hdeadline] at hτ
    exact hc.root_least hτ

end Steps

/-- A worker that waits for the first of two calls. -/
def dozing : Sys ℤ Callable ℕ × List (Event ℤ Callable ℕ) :=
  outcome (Sys.step 100) (Sys.new 0)
    [(0, .start), (0, .enterRun), (0, .schedule 7 0 ⟨0⟩ [] []), (1, .turn 1),
      (2, .schedule 3 0 ⟨1⟩ [] []), (2, .turn 2)] (by decide)

theorem no_lost_wakeup_dozing :
    dozing.1.worker = .waiting (some 5) false ∧ ∀ t ∈ dozing.1.queue, 5 ≤ t.absTime := by
  have hrun : Interleaving 100 (Sys.new 0) dozing.2 dozing.1 := run_outcome _ _ _ _
  exact ⟨by decide, ((no_lost_wakeup hrun (by decide) (by decide)).2.2.2 5 rfl).2⟩

end PyLwip
