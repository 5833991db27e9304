import PyLwip.Scheduler.Task
import Mathlib.Algebra.Order.Group.Int
import Mathlib.Data.List.Pairwise
import Mathlib.Data.List.Perm.Subperm

/-!
# The task queue

`TaskQueue` holds its heap and nothing else. `pop_tasks_till_timestamp`
looks at the root, takes it while its time has come, and collects what it
takes; an exception of `heappop` leaves the loop, and what the loop had
collected is lost with its local variable.

The specification is that of a timed priority queue (`PopSpec`): what is
popped and what is left make up what was there, everything popped is due
and nothing left is, and the popped tasks come in the order of the key the
heap keeps.
-/

namespace PyLwip

/-- `TaskQueue`. -/
structure TaskQueue (T O : Type) where
  queue : Array (Task T O)
deriving DecidableEq

namespace TaskQueue

variable {T O : Type}

/-- `__init__`. -/
def new : TaskQueue T O := ⟨#[]⟩

/-- `empty`. -/
def empty (q : TaskQueue T O) : Bool := q.queue.isEmpty

/-- `get_tasks`. -/
def getTasks (q : TaskQueue T O) : List (Task T O) := q.queue.toList

/-- `get_time_till_next_task`. -/
def getTimeTillNextTask [Sub T] (q : TaskQueue T O) (timestamp : T) : Option T :=
  q.queue[0]?.map fun t => t.absTime - timestamp

@[simp] theorem getTasks_new : (new : TaskQueue T O).getTasks = [] := rfl

theorem new_ordered {κ : Type} [LE κ] (key : Task T O → κ) :
    Heapq.Ordered key (new : TaskQueue T O).queue :=
  fun i _ _ hj => absurd hj (Nat.not_lt_zero i)

theorem empty_iff {q : TaskQueue T O} : q.empty = true ↔ q.getTasks = [] := by
  simp [empty, getTasks]

/-- **The root has the least key** of the queued tasks. -/
theorem root_least {κ : Type} [LinearOrder κ] {key : Task T O → κ} {q : TaskQueue T O}
    {root : Task T O} (o : Heapq.Ordered key q.queue) (h : q.queue[0]? = some root) :
    root ∈ q.getTasks ∧ ∀ t ∈ q.getTasks, key root ≤ key t := by
  obtain ⟨hpos, rfl⟩ := Array.getElem?_eq_some_iff.mp h
  refine ⟨by simp [getTasks], fun t ht => ?_⟩
  obtain ⟨i, hi, rfl⟩ := List.getElem_of_mem ht
  have hi' : i < q.queue.size := by simpa [getTasks] using hi
  exact o.root_le hpos hi'

section Operations

variable [RichCompare O] [LinearOrder T]

/-- `schedule_task`: the queue it leaves behind, and what the push raised. -/
def scheduleTask (q : TaskQueue T O) (task : Task T O) : TaskQueue T O × Except PyError Unit :=
  let r := Heapq.heappush Task.entryLt q.queue task
  (⟨r.1⟩, r.2)

/-- The loop of `pop_tasks_till_timestamp`. Every turn shortens the heap, so
its size is fuel enough. -/
def popLoop (timestamp : T) :
    ℕ → Array (Task T O) → List (Task T O) → Array (Task T O) × Except PyError (List (Task T O))
  | 0, queue, tasks => (queue, .ok tasks)
  | fuel + 1, queue, tasks =>
    if h : 0 < queue.size then
      if queue[0].absTime ≤ timestamp then
        match Heapq.heappop Task.entryLt queue h with
        | (queue', .error e) => (queue', .error e)
        | (queue', .ok _) => popLoop timestamp fuel queue' (tasks ++ [queue[0]])
      else (queue, .ok tasks)
    else (queue, .ok tasks)

/-- `pop_tasks_till_timestamp`. -/
def popTasksTillTimestamp (q : TaskQueue T O) (timestamp : T) :
    TaskQueue T O × Except PyError (List (Task T O)) :=
  let r := popLoop timestamp q.queue.size q.queue []
  (⟨r.1⟩, r.2)

/-! ## What a push and a pop do -/

/-- A push adds the task, also where it raises. -/
theorem scheduleTask_perm {q q' : TaskQueue T O} {task : Task T O} {out : Except PyError Unit}
    (hpush : q.scheduleTask task = (q', out)) : q'.getTasks.Perm (task :: q.getTasks) := by
  obtain ⟨rfl, -⟩ := Prod.mk.inj hpush
  exact Heapq.heappush_perm Task.entryLt q.queue task

/-- A push loses no task. -/
theorem mem_of_scheduleTask {q q' : TaskQueue T O} {task t : Task T O} {out : Except PyError Unit}
    (hpush : q.scheduleTask task = (q', out)) (ht : t ∈ q.getTasks) : t ∈ q'.getTasks :=
  (scheduleTask_perm hpush).mem_iff.mpr (List.mem_cons_of_mem _ ht)

theorem popLoop_subperm {timestamp : T} {fuel : ℕ} {queue : Array (Task T O)}
    {acc : List (Task T O)} :
    (popLoop timestamp fuel queue acc).1.toList.Subperm queue.toList := by
  induction fuel generalizing queue acc with
  | zero => exact .refl _
  | succ fuel ih =>
    rw [popLoop]
    split
    · next hpos =>
      split
      · have hroot : (Heapq.heappop Task.entryLt queue hpos).1.toList.Subperm queue.toList :=
          List.Subperm.cons_self.trans (Heapq.heappop_perm Task.entryLt queue hpos).subperm
        split
        · next queue₁ e heq => rwa [heq] at hroot
        · next queue₁ x heq =>
          rw [heq] at hroot
          exact ih.trans hroot
      · exact .refl _
    · exact .refl _

/-- A pop adds no task, also where it raises. -/
theorem popTasksTillTimestamp_subperm {q q' : TaskQueue T O} {timestamp : T}
    {out : Except PyError (List (Task T O))}
    (hpop : q.popTasksTillTimestamp timestamp = (q', out)) : q'.getTasks.Subperm q.getTasks := by
  obtain ⟨rfl, -⟩ := Prod.mk.inj hpop
  exact popLoop_subperm

/-- **A timed pop**: `popped` are due, `left` are not, and together they are
what was in the queue. -/
structure PopSpec (timestamp : T) (before popped left : List (Task T O)) : Prop where
  perm : (popped ++ left).Perm before
  due : ∀ t ∈ popped, t.absTime ≤ timestamp
  not_due : ∀ t ∈ left, timestamp < t.absTime

variable {κ : Type} [LinearOrder κ] {key : Task T O → κ} {s : Task T O → Prop}

theorem popLoop_spec (hk : Heapq.KeyedOn Task.entryLt key s)
    (hmono : ∀ t u : Task T O, key t ≤ key u → t.absTime ≤ u.absTime)
    {timestamp : T} {fuel : ℕ} {queue queue' : Array (Task T O)} {acc tasks : List (Task T O)}
    (hs : ∀ t ∈ queue, s t) (o : Heapq.Ordered key queue) (hfuel : queue.size ≤ fuel)
    (h : popLoop timestamp fuel queue acc = (queue', .ok tasks)) :
    ∃ popped, tasks = acc ++ popped ∧
      PopSpec timestamp queue.toList popped queue'.toList ∧
      popped.Pairwise (fun t u => key t ≤ key u) ∧ Heapq.Ordered key queue' := by
  induction fuel generalizing queue acc with
  | zero =>
    obtain ⟨rfl, rfl⟩ : queue = queue' ∧ acc = tasks := by simpa [popLoop] using h
    have hnil : queue.toList = [] := by simpa using hfuel
    exact ⟨[], by simp, ⟨by simp, by simp, by simp [hnil]⟩, .nil, o⟩
  | succ fuel ih =>
    rw [popLoop] at h
    split at h
    · next hpos =>
      have hroot : ∀ t ∈ queue, key queue[0] ≤ key t := by
        intro t ht
        obtain ⟨i, hi, rfl⟩ := Array.getElem_of_mem ht
        exact o.root_le hpos hi
      split at h
      · next hdue =>
        have hperm := Heapq.heappop_perm Task.entryLt queue hpos
        have hsize := Heapq.heappop_size Task.entryLt queue hpos
        have hord := fun x => Heapq.heappop_ordered (x := x) (h := hpos) hk hs o
        split at h
        · simp at h
        · next queue₁ x heq =>
          rw [heq] at hperm hsize hord
          have hmem : ∀ t ∈ queue₁, t ∈ queue := fun t ht =>
            Heapq.mem_of_mem_heappop (h := hpos) (by rwa [heq])
          obtain ⟨popped, rfl, hspec, hsorted, hord'⟩ :=
            ih (fun t ht => hs t (hmem t ht)) (hord x rfl) (by simp at hsize; omega) h
          -- what the later turns pop was behind this root
          have hin : ∀ t ∈ popped, t ∈ queue := fun t ht => by
            refine hmem t ?_
            simpa using hspec.perm.mem_iff.mp (List.mem_append_left _ ht)
          refine ⟨queue[0] :: popped, by simp, ⟨?_, ?_, hspec.not_due⟩, ?_, hord'⟩
          · exact ((hspec.perm.cons queue[0]).trans hperm)
          · rintro t (_ | ⟨_, ht⟩)
            · exact hdue
            · exact hspec.due t ht
          · exact hsorted.cons fun t ht => hroot t (hin t ht)
      · next hdue =>
        obtain ⟨rfl, rfl⟩ : queue = queue' ∧ acc = tasks := by simpa using h
        -- the root is not due, and nothing in the heap is before it
        refine ⟨[], by simp, ⟨by simp, by simp, fun t ht => ?_⟩, .nil, o⟩
        exact (not_le.mp hdue).trans_le (hmono _ _ (hroot t (by simpa using ht)))
    · next hpos =>
      obtain ⟨rfl, rfl⟩ : queue = queue' ∧ acc = tasks := by simpa using h
      have hnil : queue.toList = [] := by simpa using hpos
      exact ⟨[], by simp, ⟨by simp, by simp, by simp [hnil]⟩, .nil, o⟩

/-- **The queue pops what is due, in key order**, for any key its
comparisons agree with and its heap is ordered by. -/
theorem popTasksTillTimestamp_spec (hk : Heapq.KeyedOn Task.entryLt key s)
    (hmono : ∀ t u : Task T O, key t ≤ key u → t.absTime ≤ u.absTime)
    {timestamp : T} {q q' : TaskQueue T O} {tasks : List (Task T O)}
    (hs : ∀ t ∈ q.getTasks, s t) (o : Heapq.Ordered key q.queue)
    (h : q.popTasksTillTimestamp timestamp = (q', .ok tasks)) :
    PopSpec timestamp q.getTasks tasks q'.getTasks ∧
      tasks.Pairwise (fun t u => key t ≤ key u) ∧ Heapq.Ordered key q'.queue := by
  obtain ⟨rfl, hloop⟩ := Prod.mk.inj h
  obtain ⟨popped, rfl, hspec, hsorted, hord⟩ :=
    popLoop_spec hk hmono (fun t ht => hs t (by simpa [getTasks] using ht)) o le_rfl
      (Prod.ext rfl hloop)
  exact ⟨hspec, hsorted, hord⟩

/-- A push keeps the order, also where it raises. -/
theorem scheduleTask_ordered (hk : Heapq.KeyedOn Task.entryLt key s) {q q' : TaskQueue T O}
    {task : Task T O} {out : Except PyError Unit} (hs : ∀ t ∈ q.getTasks, s t) (ht : s task)
    (o : Heapq.Ordered key q.queue) (hpush : q.scheduleTask task = (q', out)) :
    Heapq.Ordered key q'.queue := by
  obtain ⟨rfl, -⟩ := Prod.mk.inj hpush
  exact Heapq.heappush_ordered hk (fun t h => hs t (by simpa [getTasks] using h)) ht o

/-- What a pop does to a heap that is ordered by time and priority. -/
theorem pop_ordered {timestamp : T} {q q' : TaskQueue T O} {tasks : List (Task T O)}
    (o : Heapq.Ordered Task.key q.queue)
    (h : q.popTasksTillTimestamp timestamp = (q', .ok tasks)) :
    PopSpec timestamp q.getTasks tasks q'.getTasks ∧
      tasks.Pairwise (fun t u => t.key ≤ u.key) ∧ Heapq.Ordered Task.key q'.queue :=
  popTasksTillTimestamp_spec (Task.entryLt_keyedOn fun _ => True)
    (fun _ _ => Task.absTime_le_of_key_le) (fun _ _ => trivial) o h

/-- What a push does to it. -/
theorem push_ordered {q q' : TaskQueue T O} {task : Task T O} {out : Except PyError Unit}
    (o : Heapq.Ordered Task.key q.queue) (hpush : q.scheduleTask task = (q', out)) :
    Heapq.Ordered Task.key q'.queue :=
  scheduleTask_ordered (Task.entryLt_keyedOn fun _ => True) (fun _ _ => trivial) trivial o hpush

theorem popLoop_returns {queue : Array (Task T O)} (hc : Heapq.Comparable Task.entryLt queue)
    (timestamp : T) (fuel : ℕ) (acc : List (Task T O)) :
    ∃ tasks, (popLoop timestamp fuel queue acc).2 = .ok tasks := by
  induction fuel generalizing queue acc with
  | zero => exact ⟨acc, rfl⟩
  | succ fuel ih =>
    rw [popLoop]
    split
    · next hpos =>
      split
      · obtain ⟨x, hx⟩ := Heapq.heappop_returns hc hpos
        split
        · next heq => rw [heq] at hx; cases hx
        · next queue₁ y heq =>
          have hmem : ∀ t ∈ queue₁, t ∈ queue := fun t ht =>
            Heapq.mem_of_mem_heappop (h := hpos) (by rwa [heq])
          exact ih (fun a ha b hb => hc a (hmem a ha) b (hmem b hb)) _
      · exact ⟨acc, rfl⟩
    · exact ⟨acc, rfl⟩

/-- **A pop raises nothing** where the queued tasks can all be compared. -/
theorem popTasksTillTimestamp_returns {q q' : TaskQueue T O} {timestamp : T} {x : PyError}
    (hc : Heapq.Comparable Task.entryLt q.queue) :
    q.popTasksTillTimestamp timestamp ≠ (q', .error x) := by
  intro h
  obtain ⟨tasks, htasks⟩ := popLoop_returns hc timestamp q.queue.size []
  have hraised := (Prod.mk.inj h).2
  rw [htasks] at hraised
  cases hraised

end Operations

end TaskQueue

end PyLwip
