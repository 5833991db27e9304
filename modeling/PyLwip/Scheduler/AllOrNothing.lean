import PyLwip.Scheduler.Conservation

/-!
# What a call of `schedule_delayed` leaves behind

A call that is rejected has touched nothing. A call that pushes has the heap
compare the new entry with the entries above it, one after the other, until
it is not less than one. If one of these comparisons raises, the call does,
and its task stays in the queue.
-/

namespace PyLwip

open EventSystem

variable {T O V : Type} [RichCompare O] [AddCommGroup T] [LinearOrder T] {timeoutMax : T}

/-- **A call is all or nothing**: it is accepted, and its task is what the
queue has gained; or it raises, the executor is what it was, and its task is
never executed. -/
structure AllOrNothing (timeoutMax : T) (s s' : Sys T O V) (e : Event T O V) : Prop where
  gained : ∀ delay task, e = .accepted delay task → s'.queue.Perm (task :: s.queue) ∧
    (Heapq.Ordered Task.key s.executor.tasks.queue → Heapq.Ordered Task.key s'.executor.tasks.queue)
  unchanged : (∀ delay task, e ≠ .accepted delay task) → s'.executor = s.executor
  never : ∀ task x, e = .scheduleRaised task x →
    ∀ tr s'', Interleaving timeoutMax s' tr s'' → task ∉ invokedTasks tr

/-- The new entry meets no comparison that raises on its way up the heap. -/
def Executor.Admits (e : Executor T O) (task : Task T O) : Prop :=
  Heapq.climbs Task.entryLt task
    (Heapq.path e.tasks.queue e.tasks.queue.size e.tasks.queue.size) = true

instance (e : Executor T O) (task : Task T O) : Decidable (e.Admits task) :=
  inferInstanceAs (Decidable (_ = true))

omit [AddCommGroup T] in
theorem Executor.admits_iff {e : Executor T O} {task : Task T O} :
    e.Admits task ↔ (e.tasks.scheduleTask task).2 = .ok () :=
  Heapq.heappush_returns_iff.symm

/-- **A call is all or nothing exactly if it is rejected or admitted**: the
executor does not run, or the new entry can be compared with the entries
above it, up to the first that it is not less than. -/
theorem all_or_nothing_iff (s : Sys T O V) (delay : T) (priority : ℤ) (action : O)
    (args : List O) (kwargs : List (String × O)) :
    AllOrNothing timeoutMax s (s.schedule delay priority action args kwargs).1
        (s.schedule delay priority action args kwargs).2 ↔
      s.executor.status ≠ .running ∨
        s.executor.Admits ⟨s.now + delay, priority, action, args, kwargs, s.nextFuture⟩ := by
  rw [Executor.admits_iff]
  simp only [Sys.schedule, Executor.scheduleDelayed]
  by_cases hst : s.executor.status = .stopped ∨ s.executor.status = .stoppedSync
  · have hnot : s.executor.status ≠ .running := by rcases hst with h | h <;> simp [h]
    simp only [if_pos hst]
    exact iff_of_true ⟨by simp, fun _ => rfl, by simp⟩ (.inl hnot)
  · have hrun : s.executor.status = .running := by
      cases h : s.executor.status <;> simp_all
    rw [or_iff_right (not_not.mpr hrun)]
    simp only [if_neg hst]
    set task : Task T O := ⟨s.now + delay, priority, action, args, kwargs, s.nextFuture⟩
    obtain ⟨⟨q, out⟩, hpush⟩ : ∃ r, s.executor.tasks.scheduleTask task = r := ⟨_, rfl⟩
    have hperm := TaskQueue.scheduleTask_perm hpush
    rw [hpush]
    cases out with
    | ok u =>
      refine iff_of_true ⟨?_, by simp, by simp⟩ rfl
      rintro delay' task' heq
      cases heq
      exact ⟨hperm, fun hord => TaskQueue.push_ordered hord hpush⟩
    | error x =>
      refine iff_of_false (fun h => ?_) (by simp)
      -- the queue has one task more than it had
      have hsame := congrArg (fun e => e.tasks.getTasks.length) (h.unchanged (by simp))
      have hmore := hperm.length_eq
      simp only [List.length_cons] at hsame hmore
      omega

/-- A call at one clock reading with an earlier one of the same priority. -/
def oneCalled : Sys ℤ Callable ℕ × List (Event ℤ Callable ℕ) :=
  outcome (Sys.step 100) (Sys.new 0)
    [(0, .start), (0, .enterRun), (0, .schedule 1 0 ⟨0⟩ [] [])] (by decide)

/-- The second call raises. -/
def secondRaised : Sys ℤ Callable ℕ × List (Event ℤ Callable ℕ) :=
  outcome (Sys.step 100) oneCalled.1 [(0, .schedule 1 0 ⟨1⟩ [] [])] (by decide)

/-- Both are executed. -/
def bothExecuted : Sys ℤ Callable ℕ × List (Event ℤ Callable ℕ) :=
  outcome (Sys.step 100) secondRaised.1
    [(1, .turn 1), (1, .take), (1, .finish (.result 0)), (1, .settle), (1, .take)] (by decide)

/-- **A call that raises can leave its task in the queue**, and the task is
executed: two calls tie, and functions have no order. -/
theorem raised_call_executed :
    ∃ (tr tr' : List (Event ℤ Callable ℕ)) (s s' s'' : Sys ℤ Callable ℕ) (t : Task ℤ Callable),
      Interleaving 100 (Sys.new 0) tr s ∧
      Steps 100 s (some (.scheduleRaised t .typeError)) s' ∧ t ∉ s.queue ∧ t ∈ s'.queue ∧
      Interleaving 100 s' tr' s'' ∧ t ∈ invokedTasks tr' ∧
      ¬ AllOrNothing 100 s s' (.scheduleRaised t .typeError) := by
  have hone : Interleaving 100 (Sys.new 0) oneCalled.2 oneCalled.1 := run_outcome _ _ _ _
  have hboth : Interleaving 100 secondRaised.1 bothExecuted.2 bothExecuted.1 :=
    run_outcome _ _ _ _
  have hinvoked : (⟨1, 0, ⟨1⟩, [], [], 1⟩ : Task ℤ Callable) ∈ invokedTasks bothExecuted.2 := by
    decide
  exact ⟨oneCalled.2, bothExecuted.2, oneCalled.1, secondRaised.1, bothExecuted.1, _, hone,
    ⟨(0, .schedule 1 0 ⟨1⟩ [] []), rfl⟩, by decide, by decide, hboth, hinvoked,
    fun h => h.never _ _ rfl _ _ hboth hinvoked⟩

end PyLwip
