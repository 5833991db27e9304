import PyLwip.Common.Run
import PyLwip.Scheduler.TaskQueue
import Mathlib.Algebra.Order.Group.Multiset
import Mathlib.Algebra.Order.Group.Unbundled.Basic
import Mathlib.Data.Multiset.Filter

/-!
# The task queue is a timed priority queue

What a timed priority queue is for is told by a multiset: `schedule_task`
adds a task, and `pop_tasks_till_timestamp` takes away the tasks that are
due. `TaskQueue` holds that multiset after any calls that raise nothing; a
pop returns what it takes away in the order of time and priority, and
`get_time_till_next_task` tells whether a pop would return anything.
-/

namespace PyLwip

open EventSystem

variable {T O : Type}

/-! ## The abstract queue -/

/-- A call that returned, with what a pop returned. -/
inductive QueueEvent (T O : Type)
  | scheduled (task : Task T O)
  | popped (timestamp : T) (tasks : List (Task T O))

section Abstract

variable [LinearOrder T]

/-- The tasks that are due at a time. -/
def dueAt (timestamp : T) (m : Multiset (Task T O)) : Multiset (Task T O) :=
  m.filter fun t => t.absTime ≤ timestamp

/-- The tasks that are not due yet. -/
def notDueAt (timestamp : T) (m : Multiset (Task T O)) : Multiset (Task T O) :=
  m.filter fun t => timestamp < t.absTime

/-- What a call does to the tasks that are present. -/
def QueueEvent.after (m : Multiset (Task T O)) : QueueEvent T O → Multiset (Task T O)
  | .scheduled task => task ::ₘ m
  | .popped timestamp _ => notDueAt timestamp m

/-- **The tasks that are present** after some calls. -/
def present (tr : List (QueueEvent T O)) : Multiset (Task T O) := tr.foldl QueueEvent.after 0

/-- What a timed pop takes and leaves, as multisets. -/
theorem TaskQueue.PopSpec.due_eq {timestamp : T} {before popped left : List (Task T O)}
    (h : PopSpec timestamp before popped left) :
    (popped : Multiset (Task T O)) = dueAt timestamp before ∧
      (left : Multiset (Task T O)) = notDueAt timestamp before := by
  have hbefore : (before : Multiset (Task T O)) = popped + left := by
    rw [Multiset.coe_add]
    exact Multiset.coe_eq_coe.mpr h.perm.symm
  rw [hbefore, dueAt, notDueAt, Multiset.filter_add, Multiset.filter_add]
  have hpopped : ∀ t ∈ (popped : Multiset (Task T O)), t.absTime ≤ timestamp := h.due
  have hleft : ∀ t ∈ (left : Multiset (Task T O)), timestamp < t.absTime := h.not_due
  constructor
  · rw [Multiset.filter_eq_self.mpr hpopped,
      Multiset.filter_eq_nil.mpr fun t ht => not_le.mpr (hleft t ht), add_zero]
  · rw [Multiset.filter_eq_self.mpr hleft,
      Multiset.filter_eq_nil.mpr fun t ht => not_lt.mpr (hpopped t ht), zero_add]

end Abstract

/-! ## The calls of the queue -/

/-- A call. -/
inductive QueueOp (T O : Type)
  | scheduleTask (task : Task T O)
  | popTasksTillTimestamp (timestamp : T)

section Calls

variable [RichCompare O] [LinearOrder T]

/-- A call of the queue, `none` where a comparison raises. -/
def TaskQueue.step (q : TaskQueue T O) : QueueOp T O →
    Option (TaskQueue T O × Option (QueueEvent T O))
  | .scheduleTask task =>
    match q.scheduleTask task with
    | (q', .ok _) => some (q', some (.scheduled task))
    | (_, .error _) => none
  | .popTasksTillTimestamp timestamp =>
    match q.popTasksTillTimestamp timestamp with
    | (q', .ok tasks) => some (q', some (.popped timestamp tasks))
    | (_, .error _) => none

/-- Calls that raise nothing, one after the other. -/
abbrev QueueRun : TaskQueue T O → List (QueueEvent T O) → TaskQueue T O → Prop :=
  Run (StepOf TaskQueue.step)

/-- **The moves of the queue.** -/
theorem TaskQueue.step_cases {q q' : TaskQueue T O} {ev : Option (QueueEvent T O)}
    (h : StepOf TaskQueue.step q ev q') :
    (∃ task, ev = some (.scheduled task) ∧ q.scheduleTask task = (q', .ok ())) ∨
      ∃ timestamp tasks, ev = some (.popped timestamp tasks) ∧
        q.popTasksTillTimestamp timestamp = (q', .ok tasks) := by
  obtain ⟨op, h⟩ := h
  cases op with
  | scheduleTask task =>
    simp only [step] at h
    split at h
    · next heq =>
      cases h
      exact .inl ⟨task, rfl, heq⟩
    · cases h
  | popTasksTillTimestamp timestamp =>
    simp only [step] at h
    split at h
    · next heq =>
      cases h
      exact .inr ⟨timestamp, _, rfl, heq⟩
    · cases h

/-- **The array is a heap of the tasks that are present.** -/
structure TaskQueue.Represents (q : TaskQueue T O) (m : Multiset (Task T O)) : Prop where
  tasks : (q.getTasks : Multiset (Task T O)) = m
  ordered : Heapq.Ordered Task.key q.queue

variable {q q' : TaskQueue T O} {m : Multiset (Task T O)} {tr : List (QueueEvent T O)}

/-- What a pop of a queue takes, and what it leaves. -/
theorem TaskQueue.Represents.pop (h : q.Represents m) {timestamp : T} {tasks : List (Task T O)}
    (hpop : q.popTasksTillTimestamp timestamp = (q', .ok tasks)) :
    (tasks : Multiset (Task T O)) = dueAt timestamp m ∧
      (tasks.Pairwise fun t u => t.key ≤ u.key) ∧ q'.Represents (notDueAt timestamp m) := by
  obtain ⟨hspec, hsorted, hord⟩ := pop_ordered h.ordered hpop
  rw [← h.tasks]
  exact ⟨hspec.due_eq.1, hsorted, hspec.due_eq.2, hord⟩

/-- **The step lemma**: a call does to the array what it does to the tasks
that are present. -/
theorem TaskQueue.Represents.step (h : q.Represents m) {ev : Option (QueueEvent T O)}
    (hs : StepOf TaskQueue.step q ev q') : q'.Represents (ev.toList.foldl QueueEvent.after m) := by
  rcases step_cases hs with ⟨task, rfl, hpush⟩ | ⟨timestamp, tasks, rfl, hpop⟩
  · refine ⟨?_, push_ordered h.ordered hpush⟩
    rw [Multiset.coe_eq_coe.mpr (scheduleTask_perm hpush), ← Multiset.cons_coe, h.tasks]
    rfl
  · exact (h.pop hpop).2.2

/-- **The run lemma.** -/
theorem represents_of_run (h : QueueRun .new tr q) : q.Represents (present tr) := by
  refine h.invariant (I := fun tr q => q.Represents (present tr))
    ⟨rfl, TaskQueue.new_ordered Task.key⟩ ?_
  intro tr q ev q' _ ih hs
  rw [present, List.foldl_append]
  exact ih.step hs

end Calls

/-! ## The queue is a timed priority queue -/

section Timed

variable [RichCompare O] [AddCommGroup T] [LinearOrder T] [IsOrderedAddMonoid T]
  {q : TaskQueue T O} {tr : List (QueueEvent T O)} {m : Multiset (Task T O)}

omit [RichCompare O] [AddCommGroup T] [IsOrderedAddMonoid T] in
/-- The root of a queue that represents the tasks present. -/
theorem TaskQueue.Represents.root (h : q.Represents m) {root : Task T O}
    (hroot : q.queue[0]? = some root) : root ∈ m ∧ ∀ t ∈ m, root.absTime ≤ t.absTime := by
  obtain ⟨hmem, hleast⟩ := root_least h.ordered hroot
  rw [← h.tasks]
  exact ⟨hmem, fun t ht => Task.absTime_le_of_key_le (hleast t ht)⟩

/-- **`TaskQueue` is a timed priority queue.** After any calls of which none
raised, it holds the tasks that are present; a pop that raises nothing takes
exactly the due ones, in the order of time and priority, and leaves the
others; the time till the next task is that of the least time present; and
it is at most 0 exactly if a pop would return a task. -/
theorem timed_priority_queue (h : QueueRun .new tr q) :
    (q.getTasks : Multiset (Task T O)) = present tr ∧
    (∀ timestamp q' tasks, q.popTasksTillTimestamp timestamp = (q', .ok tasks) →
      (tasks : Multiset (Task T O)) = dueAt timestamp (present tr) ∧
      (tasks.Pairwise fun t u => t.key ≤ u.key) ∧
      (q'.getTasks : Multiset (Task T O)) = notDueAt timestamp (present tr)) ∧
    (∀ timestamp, q.getTimeTillNextTask timestamp = none ↔ present tr = 0) ∧
    (∀ timestamp delay, q.getTimeTillNextTask timestamp = some delay →
      (∃ t ∈ present tr, delay = t.absTime - timestamp) ∧
        ∀ t ∈ present tr, delay ≤ t.absTime - timestamp) ∧
    ∀ timestamp q' tasks, q.popTasksTillTimestamp timestamp = (q', .ok tasks) →
      ((∃ delay, q.getTimeTillNextTask timestamp = some delay ∧ delay ≤ 0) ↔ tasks ≠ []) := by
  have hrep := represents_of_run h
  refine ⟨hrep.tasks, fun timestamp q' tasks hpop => ?_, fun timestamp => ?_,
    fun timestamp delay hdelay => ?_, fun timestamp q' tasks hpop => ?_⟩
  · obtain ⟨hdue, hsorted, hleft⟩ := hrep.pop hpop
    exact ⟨hdue, hsorted, hleft.tasks⟩
  · rw [← hrep.tasks]
    simp [TaskQueue.getTimeTillNextTask, TaskQueue.getTasks]
  · obtain ⟨root, hroot, rfl⟩ := Option.map_eq_some_iff.mp hdelay
    obtain ⟨hmem, hleast⟩ := hrep.root hroot
    exact ⟨⟨root, hmem, rfl⟩, fun t ht => sub_le_sub_right (hleast t ht) timestamp⟩
  · obtain ⟨hdue, -, -⟩ := hrep.pop hpop
    -- nothing is popped exactly if nothing present is due
    have hempty : tasks = [] ↔ ∀ t ∈ present tr, ¬ t.absTime ≤ timestamp := by
      rw [← Multiset.coe_eq_zero, hdue, dueAt, Multiset.filter_eq_nil]
    rw [Ne, hempty]
    constructor
    · rintro ⟨delay, hdelay, hle⟩ hnone
      obtain ⟨root, hroot, rfl⟩ := Option.map_eq_some_iff.mp hdelay
      exact hnone root (hrep.root hroot).1 (sub_nonpos.mp hle)
    · intro hsome
      obtain ⟨t, ht, hle⟩ : ∃ t ∈ present tr, t.absTime ≤ timestamp := by simpa using hsome
      cases hroot : q.queue[0]? with
      | none =>
        have hnil : q.getTasks = [] := by simpa [TaskQueue.getTasks] using hroot
        rw [← hrep.tasks, hnil] at ht
        simp at ht
      | some root =>
        refine ⟨root.absTime - timestamp, by simp [TaskQueue.getTimeTillNextTask, hroot], ?_⟩
        exact sub_nonpos.mpr (((hrep.root hroot).2 t ht).trans hle)

end Timed

/-- A task without arguments. -/
def timedCall (absTime priority : ℤ) (future : ℕ) : Task ℤ Callable :=
  ⟨absTime, priority, ⟨future⟩, [], [], future⟩

/-- Three tasks, of which a first pop took the one that was due, and a second
with an earlier timestamp none. -/
def twoLeft : TaskQueue ℤ Callable × List (QueueEvent ℤ Callable) :=
  outcome TaskQueue.step .new
    [.scheduleTask (timedCall 4 0 0), .scheduleTask (timedCall (-2) 1 1),
      .popTasksTillTimestamp 3, .scheduleTask (timedCall 4 (-1) 2), .popTasksTillTimestamp 1]
    (by decide)

theorem timed_priority_queue_twoLeft :
    (twoLeft.1.popTasksTillTimestamp 5).2 = .ok [timedCall 4 (-1) 2, timedCall 4 0 0] ∧
      ([timedCall 4 (-1) 2, timedCall 4 0 0] : Multiset (Task ℤ Callable)) =
        dueAt 5 (present twoLeft.2) := by
  have hrun : QueueRun .new twoLeft.2 twoLeft.1 := run_outcome _ _ _ _
  exact ⟨by decide, ((timed_priority_queue hrun).2.1 5 _ _ rfl).1⟩

end PyLwip
