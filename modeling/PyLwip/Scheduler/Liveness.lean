import PyLwip.Common.Fairness
import PyLwip.Scheduler.Acts
import PyLwip.Scheduler.StopRequest
import PyLwip.Scheduler.WakeUp
import Mathlib.Algebra.Order.Group.Unbundled.Basic

/-!
# What the executor comes to in the end

The scheduler of the operating system lets a thread that can go on move at
some time, and the clock passes every reading. Under no other assumption the
loop ends after a stop, and before one no accepted task is left waiting once
its time has come.

Both are measured by what is left to do. An act of the worker leaves less of
its batch to do, or pops a queued task, or goes to wait; and who waits for a
task that is due, or in a stopped executor, was notified or is woken by its
deadline.
-/

namespace PyLwip

open EventSystem

variable {T O V : Type}

/-! ## What is left to do -/

/-- **The worker can go on** at a clock reading: its thread is started and
has not ended, and if it is in `condition.wait` then it was notified or its
timeout is over. -/
def Worker.Runnable [LE T] (now : T) : Worker T O → Prop
  | .unborn | .returned | .crashed _ => False
  | .waiting deadline notified => notified = true ∨ ∃ τ ∈ deadline, τ ≤ now
  | _ => True

/-- The acts that the worker needs at most for the rest of its batch and the
next turn: a task takes five, from the look at its future to the store of the
counter. -/
def Worker.effort : Worker T O → ℕ
  | .batch rest => 5 * rest.length + 1
  | .waiting _ _ => 1
  | .executing _ rest => 5 * rest.length + 5
  | .settling _ rest => 5 * rest.length + 4
  | .subtracting rest => 5 * rest.length + 3
  | .storing _ rest => 5 * rest.length + 2
  | _ => 0

/-- With a pop for every queued task. -/
def Sys.effort (s : Sys T O V) : ℕ := 6 * s.queue.length + s.worker.effort

namespace Worker

@[simp] theorem effort_notify (w : Worker T O) : w.notify.effort = w.effort := by
  cases w <;> rfl

@[simp] theorem ended_notify (w : Worker T O) : w.notify.ended = w.ended := by
  cases w <;> rfl

theorem effort_of_atTurn {w : Worker T O} (h : w.atTurn = true) : w.effort = 1 := by
  cases w with
  | batch rest => cases rest <;> simp_all [atTurn, effort]
  | waiting => rfl
  | _ => simp [atTurn] at h

/-- A worker that waits is all that can be held up. -/
theorem runnable_of_entered [LE T] {now : T} {w : Worker T O} (hent : w.entered = true)
    (hend : w.ended = false)
    (hwait : ∀ deadline, w = .waiting deadline false → ∃ τ ∈ deadline, τ ≤ now) :
    w.Runnable now := by
  cases w with
  | unborn | launched => simp [entered] at hent
  | returned | crashed => simp [ended] at hend
  | waiting deadline notified =>
    cases notified with
    | true => exact .inl rfl
    | false => exact .inr (hwait deadline rfl)
  | _ => trivial

end Worker

section Steps

variable [RichCompare O] [AddCommGroup T] [LinearOrder T] {timeoutMax r : T}
  {tr : List (Event T O V)} {s s' : Sys T O V} {ev : Option (Event T O V)} {a : Act T O V}

/-- A step leaves the clock no earlier than its own reading. -/
theorem le_now_of_step (h : Sys.step timeoutMax s (r, a) = some (s', ev)) : r ≤ s'.now := by
  have h' : Sys.step timeoutMax ({ s with now := r } : Sys T O V) (r, a) = some (s', ev) := by
    unfold Sys.step at h ⊢
    split at h
    · simpa using h
    · cases h
  exact (transition_of_step h').now_le

/-- **What an act of the worker does**: it leaves less of the batch to do and
the queue as it is, it pops what is due, it goes to wait for what is not, or
the thread crashes. -/
inductive WorkerStep (s : Sys T O V) (ev : Option (Event T O V)) (s' : Sys T O V) : Prop
  | onward (hqueue : s'.queue = s.queue) (hlt : s'.worker.effort < s.worker.effort)
      (hw : ∀ deadline, s'.worker ≠ .waiting deadline false)
  | pop {tasks : List (Task T O)} (hat : s.worker.atTurn = true)
      (hw : s'.worker = .batch tasks)
      (hspec : TaskQueue.PopSpec s'.now s.queue tasks s'.queue)
      (hdue : ∃ root ∈ s.queue, root.absTime ≤ s'.now)
  | wait (hat : s.worker.atTurn = true) (hl : ¬ s.executor.Leaves)
      (hw : s'.worker = .waiting (s.executor.tasks.queue[0]?.map Task.absTime) false)
      (hqueue : s'.queue = s.queue) (hlate : ∀ t ∈ s.queue, s'.now < t.absTime)
  | crash (hend : s'.worker.ended = true)

variable [IsOrderedAddMonoid T]

theorem Transition.workerStep (hs : Transition timeoutMax s ev s')
    (hev : ∀ e ∈ ev, e.ofWorker = true) (hent : s.worker.entered = true) (hc : Conserved tr s) :
    WorkerStep s ev s' := by
  cases hs with
  | start | rejected | accepted | scheduleRaised | cancel | stop => cases hev _ rfl
  | enterRun hr hw => simp [hw, Worker.entered] at hent
  | leave hr hat =>
    refine .onward rfl ?_ (by simp)
    rw [Worker.effort_of_atTurn hat]
    exact Nat.zero_lt_one
  | wait hr hat hl hroot =>
    refine .wait hat hl rfl rfl fun t ht => ?_
    -- no queued task is before the root, which is not due
    cases hget : s.executor.tasks.queue[0]? with
    | none =>
      have hnil : s.queue = [] := by simpa [Sys.queue, TaskQueue.getTasks] using hget
      rw [hnil] at ht
      cases ht
    | some root =>
      have hleast := (hc.root_least (τ := root.absTime) (by rw [hget]; rfl)).2 t ht
      have hlate := (hroot root hget).1
      exact lt_of_lt_of_le (by simpa [sub_nonpos] using hlate) hleast
  | pop hr hp hat hl hroot hdue hpop =>
    have hmem := (TaskQueue.root_least hc.ordered hroot).1
    exact .pop hat rfl (TaskQueue.pop_ordered hc.ordered hpop).1
      ⟨_, hmem, (sub_nonpos.mp hdue).trans hp⟩
  | timeout | popRaised | takeRaised | completeRaised => exact .crash rfl
  | invoke hr hw | skip hr hw | complete hr hw | settleSync hr hw | settle hr hw | load hr hw
  | store hr hw =>
    refine .onward rfl ?_ (by simp)
    simp only [hw, Worker.effort, List.length_cons]
    omega

/-! ## After a stop -/

omit [IsOrderedAddMonoid T] in
/-- Outside `Running` the worker is attentive, whatever a push has raised
before. -/
theorem attentive_or_running {now : T} (h : Interleaving timeoutMax (Sys.new now) tr s) :
    s.executor.status = .running ∨ s.Attentive := by
  refine h.state_invariant (I := fun s => s.executor.status = .running ∨ s.Attentive)
    (.inr (Sys.attentive_of_ne fun deadline hw => by cases hw)) ?_
  intro s ev s' ih hs
  cases hs.transition with
  | scheduleRaised hr hst => exact .inl hst
  | wait hr hw hl hroot =>
    refine .inr fun deadline hwait => ?_
    cases hwait
    exact ⟨hl, rfl⟩
  | accepted | stop => exact .inr (Sys.attentive_of_ne fun deadline => Worker.notify_ne _ deadline)
  | rejected | cancel => exact ih
  | _ => exact .inr (Sys.attentive_of_ne fun deadline hw => by cases hw)

omit [IsOrderedAddMonoid T] in
/-- Another thread leaves as much to do as there was. -/
theorem Stopping.others (h : Stopping s) (hs : Transition timeoutMax s ev s')
    (hev : ¬ ∀ e ∈ ev, e.ofWorker = true) : s'.queue = s.queue ∧ s'.effort = s.effort := by
  cases hs with
  | start hr hw =>
    have := h.entered
    simp [hw, Worker.entered] at this
  | accepted hr hst | scheduleRaised hr hst => exact absurd hst h.status
  | rejected | cancel => exact ⟨rfl, rfl⟩
  | stop => exact ⟨rfl, by simp [Sys.effort, Sys.queue, Executor.stop]⟩
  | _ => exact absurd (by simp [Event.ofWorker]) hev

/-- **The step lemma**: after a stop nothing is queued, nothing raises what is
left to do, and an act of the worker at a reading that the queued tasks are
due at lowers it. -/
theorem Stopping.next (h : Stopping s) (hc : Conserved tr s)
    (hstep : Sys.step timeoutMax s (r, a) = some (s', ev)) :
    s'.worker.ended = true ∨ (∀ t ∈ s'.queue, t ∈ s.queue) ∧ s'.effort ≤ s.effort ∧
      (a.byWorker = true → (∀ t ∈ s.queue, t.absTime ≤ r) → s'.effort < s.effort) := by
  have hs := transition_of_step hstep
  by_cases hev : ∀ e ∈ ev, e.ofWorker = true
  · cases hs.workerStep hev h.entered hc with
    | crash hend => exact .inl hend
    | onward hqueue hlt =>
      refine .inr ⟨fun t ht => hqueue ▸ ht, ?_⟩
      rw [Sys.effort, Sys.effort, hqueue]
      omega
    | wait hat hl hw hqueue hlate =>
      refine .inr ⟨fun t ht => hqueue ▸ ht, ?_, fun _ hdue => ?_⟩
      · rw [Sys.effort, Sys.effort, hqueue, hw, Worker.effort_of_atTurn hat]
        exact le_rfl
      · -- a stopped loop that does not leave has a queued task, which is due
        exfalso
        cases hqueued : s.queue with
        | nil =>
          cases hst : s.executor.status with
          | running => exact h.status hst
          | stopped => exact hl (.inl hst)
          | stoppedSync => exact hl (.inr ⟨hst, .inl hqueued⟩)
        | cons t rest =>
          have hmem : t ∈ s.queue := by simp [hqueued]
          have hle := (hdue t hmem).trans (le_now_of_step hstep)
          exact absurd (hlate t hmem) (not_lt.mpr hle)
    | @pop tasks hat hw hspec hdue =>
      have hlen := hspec.perm.length_eq
      rw [List.length_append] at hlen
      have hpos : 0 < tasks.length := by
        obtain ⟨root, hroot, hle⟩ := hdue
        refine List.length_pos_of_mem (a := root) ?_
        rcases List.mem_append.mp (hspec.perm.mem_iff.mpr hroot) with hin | hleft
        · exact hin
        · exact absurd hle (not_le.mpr (hspec.not_due root hleft))
      have hlt : s'.effort < s.effort := by
        rw [Sys.effort, Sys.effort, hw, Worker.effort_of_atTurn hat, Worker.effort]
        omega
      exact .inr ⟨fun t ht => hspec.perm.mem_iff.mp (List.mem_append_right _ ht), hlt.le,
        fun _ _ => hlt⟩
  · obtain ⟨hqueue, heq⟩ := h.others hs hev
    refine .inr ⟨fun t ht => hqueue ▸ ht, heq.le, fun ha => absurd (fun e he => ?_) hev⟩
    obtain rfl : ev = some e := he
    exact (emitted_of_step hstep ha).ofWorker

omit [IsOrderedAddMonoid T] in
theorem Transition.of_stopRequested {b : Bool}
    (hs : Transition timeoutMax s (some (.stopRequested b)) s') :
    s'.worker = s.worker.notify ∧ s'.executor.status ≠ .running := by
  cases hs with
  | stop =>
    refine ⟨rfl, ?_⟩
    simp only [Executor.stop]
    split <;> simp

/-! ## A queued task -/

/-- **`t` is waited for**: it is queued, and a worker that was not notified
wakes up by its time. -/
def Sys.WaitsFor (s : Sys T O V) (t : Task T O) : Prop :=
  t ∈ s.queue ∧ ∀ deadline, s.worker = .waiting deadline false → ∃ τ ∈ deadline, τ ≤ t.absTime

omit [IsOrderedAddMonoid T] in
/-- What was just accepted is waited for. -/
theorem Sys.WaitsFor.of_accepted {d : T} {t : Task T O}
    (hs : Transition timeoutMax s (some (.accepted d t)) s') : s'.WaitsFor t := by
  cases hs with
  | accepted hr hst htime hfut hpush =>
    exact ⟨(TaskQueue.scheduleTask_perm hpush).mem_iff.mpr List.mem_cons_self,
      fun deadline hw => absurd hw (Worker.notify_ne _ deadline)⟩

omit [IsOrderedAddMonoid T] in
/-- Another thread keeps a queued task and the worker's work. -/
theorem Sys.WaitsFor.others {t : Task T O} (h : s.WaitsFor t) (hent : s.worker.entered = true)
    (hs : Transition timeoutMax s ev s') (hev : ¬ ∀ e ∈ ev, e.ofWorker = true) :
    s'.WaitsFor t ∧ s'.worker.effort = s.worker.effort := by
  cases hs with
  | start hr hw => simp [hw, Worker.entered] at hent
  | rejected | cancel => exact ⟨h, rfl⟩
  | scheduleRaised hr hst htime hfut hpush =>
    exact ⟨⟨TaskQueue.mem_of_scheduleTask hpush h.1, h.2⟩, rfl⟩
  | accepted hr hst htime hfut hpush =>
    exact ⟨⟨TaskQueue.mem_of_scheduleTask hpush h.1,
      fun deadline hw => absurd hw (Worker.notify_ne _ deadline)⟩, Worker.effort_notify _⟩
  | stop =>
    exact ⟨⟨h.1, fun deadline hw => absurd hw (Worker.notify_ne _ deadline)⟩,
      Worker.effort_notify _⟩
  | _ => exact absurd (by simp [Event.ofWorker]) hev

/-- **The step lemma**: a queued task is popped or waited for, and once it is
due an act of the worker pops it or leaves less to do before the next pop. -/
theorem Sys.WaitsFor.next {t : Task T O} (h : s.WaitsFor t) (hent : s.worker.entered = true)
    (hc : Conserved tr s) (hstep : Sys.step timeoutMax s (r, a) = some (s', ev)) :
    s'.worker.ended = true ∨ t ∈ s'.worker.rest ∨ s'.WaitsFor t ∧
      (t.absTime ≤ r → s'.worker.effort ≤ s.worker.effort ∧
        (a.byWorker = true → s'.worker.effort < s.worker.effort)) := by
  have hs := transition_of_step hstep
  have hnow := le_now_of_step hstep
  by_cases hev : ∀ e ∈ ev, e.ofWorker = true
  · cases hs.workerStep hev hent hc with
    | crash hend => exact .inl hend
    | onward hqueue hlt hw =>
      exact .inr (.inr ⟨⟨hqueue ▸ h.1, fun deadline hwait => absurd hwait (hw deadline)⟩,
        fun _ => ⟨hlt.le, fun _ => hlt⟩⟩)
    | wait hat hl hw hqueue hlate =>
      refine .inr (.inr ⟨⟨hqueue ▸ h.1, fun deadline hwait => ?_⟩, fun hdue => ?_⟩)
      · rw [hw] at hwait
        cases hwait
        cases hget : s.executor.tasks.queue[0]? with
        | none =>
          have hnil : s.queue = [] := by simpa [Sys.queue, TaskQueue.getTasks] using hget
          have hin := h.1
          simp [hnil] at hin
        | some root =>
          exact ⟨root.absTime, rfl,
            (hc.root_least (τ := root.absTime) (by rw [hget]; rfl)).2 t h.1⟩
      · exact absurd (hlate t h.1) (not_lt.mpr (hdue.trans hnow))
    | pop hat hw hspec hdue =>
      rcases List.mem_append.mp (hspec.perm.mem_iff.mpr h.1) with hin | hleft
      · exact .inr (.inl (by rw [hw]; exact hin))
      · refine .inr (.inr ⟨⟨hleft, fun deadline hwait => ?_⟩, fun hle => ?_⟩)
        · rw [hw] at hwait
          cases hwait
        · exact absurd (hspec.not_due t hleft) (not_lt.mpr (hle.trans hnow))
  · obtain ⟨hwaits, heq⟩ := h.others hent hs hev
    refine .inr (.inr ⟨hwaits, fun _ => ⟨heq.le, fun ha => absurd (fun e he => ?_) hev⟩⟩)
    obtain rfl : ev = some e := he
    exact (emitted_of_step hstep ha).ofWorker

omit [IsOrderedAddMonoid T] in
/-- **A task of the batch** is taken, or stays in the batch with less of it to
do after every act of the worker. -/
theorem rest_next {t : Task T O} (ht : t ∈ s.worker.rest)
    (hstep : Sys.step timeoutMax s (r, a) = some (s', ev)) :
    (∃ e ∈ ev, e.taken? = some t) ∨ s'.worker.ended = true ∨ t ∈ s'.worker.rest ∧
      s'.worker.effort ≤ s.worker.effort ∧
      (a.byWorker = true → s'.worker.effort < s.worker.effort) := by
  have hother : ∀ e, ev = some e → e.ofWorker = false → ¬ a.byWorker = true := by
    rintro e rfl he ha
    rw [(emitted_of_step hstep ha).ofWorker] at he
    cases he
  cases transition_of_step hstep with
  | start hr hw | enterRun hr hw => simp [hw, Worker.rest] at ht
  | rejected | cancel | scheduleRaised =>
    exact .inr (.inr ⟨ht, le_rfl, fun ha => absurd ha (hother _ rfl rfl)⟩)
  | accepted | stop =>
    exact .inr (.inr ⟨by simpa using ht, by simp, fun ha => absurd ha (hother _ rfl rfl)⟩)
  | leave _ hat | wait _ hat | timeout _ hat | pop _ _ hat | popRaised _ _ hat =>
    rw [Worker.rest_of_atTurn hat] at ht
    cases ht
  | @invoke r task rest hr hw | @skip r task rest hr hw =>
    rw [hw] at ht
    rcases List.mem_cons.mp ht with rfl | ht
    · exact .inl ⟨_, rfl, rfl⟩
    · refine .inr (.inr ⟨ht, ?_⟩)
      simp only [hw, Worker.effort, List.length_cons]
      omega
  | takeRaised | completeRaised => exact .inr (.inl rfl)
  | complete hr hw | settleSync hr hw | settle hr hw | load hr hw | store hr hw =>
    rw [hw] at ht
    refine .inr (.inr ⟨ht, ?_⟩)
    simp only [hw, Worker.effort]
    omega

end Steps

/-! ## Infinite runs -/

/-- **What becomes of an executor in an infinite run** of a system that it is
a part of. From each position to the next it takes a step, at a reading of the
clock, or something else of the system does; `moved` is where its worker is
the one that moves. Every reading is passed, and a worker that can go on for
ever moves. -/
structure Timeline [RichCompare O] [AddCommGroup T] [LinearOrder T] (timeoutMax : T)
    (s : ℕ → Sys T O V) (ev : ℕ → Option (Event T O V)) (clock : ℕ → T) (moved : ℕ → Prop) :
    Prop where
  start : ∃ now, s 0 = Sys.new now
  next : ∀ i, (∃ r a, clock i ≤ r ∧ Sys.step timeoutMax (s i) (r, a) = some (s (i + 1), ev i) ∧
    (moved i → a.byWorker = true)) ∨ ¬ moved i ∧ ev i = none ∧ s (i + 1) = s i
  clock_mono : Monotone clock
  clock_unbounded : ∀ τ, ∃ i, τ ≤ clock i
  fair : WeaklyFair (fun i => (s i).worker.Runnable (clock i)) moved

namespace Timeline

variable [RichCompare O] [AddCommGroup T] [LinearOrder T] {timeoutMax : T} {s : ℕ → Sys T O V}
  {ev : ℕ → Option (Event T O V)} {clock : ℕ → T} {moved : ℕ → Prop} {i : ℕ}

/-- Every position is reached by a finite run. -/
theorem reached (h : Timeline timeoutMax s ev clock moved) (i : ℕ) :
    ∃ now, Interleaving timeoutMax (Sys.new now) (traceTo ev i) (s i) := by
  obtain ⟨now, hnow⟩ := h.start
  refine ⟨now, ?_⟩
  induction i with
  | zero => exact hnow ▸ Run.refl
  | succ i ih =>
    rw [traceTo_succ]
    rcases h.next i with ⟨r, a, -, hstep, -⟩ | ⟨-, hev, heq⟩
    · exact ih.step ⟨_, hstep⟩
    · rw [hev, heq]
      simpa using ih

/-- The tasks are conserved wherever the thread has not crashed. -/
theorem conserved (h : Timeline timeoutMax s ev clock moved)
    (hend : (s i).worker.ended = false) : Conserved (traceTo ev i) (s i) := by
  obtain ⟨now, hrun⟩ := h.reached i
  rcases conserved_or_crashed hrun with hc | ⟨c, hw⟩
  · exact hc
  · simp [hw, Worker.ended] at hend

theorem entered (h : Timeline timeoutMax s ev clock moved)
    (hrun : (s i).executor.status = .running) : (s i).worker.entered = true :=
  have ⟨_, hreached⟩ := h.reached i
  (entered_of_running hreached hrun).1

/-- All of some tasks are due in the end. -/
theorem eventually_due (h : Timeline timeoutMax s ev clock moved) (i : ℕ)
    (tasks : List (Task T O)) : Eventually i fun j => ∀ t ∈ tasks, t.absTime ≤ clock j := by
  induction tasks with
  | nil => exact .now (by simp)
  | cons t tasks ih =>
    obtain ⟨j, hij, hj⟩ := ih
    obtain ⟨k, hk⟩ := h.clock_unbounded t.absTime
    refine ⟨max j k, hij.trans (le_max_left _ _), ?_⟩
    rintro u (_ | ⟨_, hu⟩)
    · exact hk.trans (h.clock_mono (le_max_right _ _))
    · exact (hj u hu).trans (h.clock_mono (le_max_left _ _))

variable [IsOrderedAddMonoid T]

/-- One position after a stop. -/
theorem stopping_next (h : Timeline timeoutMax s ev clock moved) (hs : Stopping (s i)) :
    Eventually i (fun j => (s j).worker.ended = true) ∨
      Stopping (s (i + 1)) ∧ (∀ t ∈ (s (i + 1)).queue, t ∈ (s i).queue) ∧
        (s (i + 1)).effort ≤ (s i).effort ∧
        (moved i → (∀ t ∈ (s i).queue, t.absTime ≤ clock i) →
          (s (i + 1)).effort < (s i).effort) := by
  cases hend : (s i).worker.ended with
  | true => exact .inl (.now hend)
  | false =>
    rcases h.next i with ⟨r, a, hr, hstep, hby⟩ | ⟨hmoved, -, heq⟩
    · rcases hs.next (h.conserved hend) hstep with hend' | ⟨hsub, hle, hlt⟩
      · exact .inl ⟨i + 1, by omega, hend'⟩
      · exact .inr ⟨hs.step (transition_of_step hstep), hsub, hle,
          fun hm hdue => hlt (hby hm) fun t ht => (hdue t ht).trans hr⟩
    · rw [heq]
      exact .inr ⟨hs, fun _ ht => ht, le_rfl, fun hm => absurd hm hmoved⟩

omit [IsOrderedAddMonoid T] in
/-- After a stop a worker that has not ended can go on once everything queued
is due. -/
theorem runnable_of_stopping (h : Timeline timeoutMax s ev clock moved) (hs : Stopping (s i))
    (hdue : ∀ t ∈ (s i).queue, t.absTime ≤ clock i) (hend : (s i).worker.ended = false) :
    (s i).worker.Runnable (clock i) := by
  refine Worker.runnable_of_entered hs.entered hend fun deadline hw => ?_
  obtain ⟨now, hrun⟩ := h.reached i
  obtain ⟨hl, rfl⟩ := (attentive_or_running hrun).resolve_left hs.status deadline hw
  have hc := h.conserved hend
  cases hget : (s i).executor.tasks.queue[0]? with
  | some root =>
    exact ⟨root.absTime, rfl, hdue root (TaskQueue.root_least hc.ordered hget).1⟩
  | none =>
    -- nothing is queued, and then the loop leaves
    have hnil : (s i).executor.tasks.getTasks = [] := by simpa [TaskQueue.getTasks] using hget
    exfalso
    cases hst : (s i).executor.status with
    | running => exact hs.status hst
    | stopped => exact hl (.inl hst)
    | stoppedSync => exact hl (.inr ⟨hst, .inl hnil⟩)

/-- **A stop comes to an end**: a worker that is in its loop when the status is
not `Running` ends its thread, whatever other threads schedule, cancel and stop,
and whatever the tasks do. -/
theorem ended_of_stopping (h : Timeline timeoutMax s ev clock moved) (hs : Stopping (s i)) :
    Eventually i fun j => (s j).worker.ended = true := by
  -- wait until everything is due that is queued; nothing is added meanwhile
  obtain ⟨k, hik, hdue⟩ := h.eventually_due i (s i).queue
  have hkeep : ∀ j, i ≤ j → Eventually i (fun j => (s j).worker.ended = true) ∨
      Stopping (s j) ∧ ∀ t ∈ (s j).queue, t ∈ (s i).queue := by
    intro j hij
    induction j, hij using Nat.le_induction with
    | base => exact .inr ⟨hs, fun _ ht => ht⟩
    | succ j hij ih =>
      rcases ih with hgoal | ⟨hs, hsub⟩
      · exact .inl hgoal
      · rcases h.stopping_next hs with hgoal | ⟨hs', hsub', -⟩
        · exact .inl (hgoal.of_le hij)
        · exact .inr ⟨hs', fun t ht => hsub t (hsub' t ht)⟩
  rcases hkeep k hik with hgoal | ⟨hs, hsub⟩
  · exact hgoal
  refine (Eventually.of_rank (i := k)
    (P := fun j => Stopping (s j) ∧ ∀ t ∈ (s j).queue, t.absTime ≤ clock j)
    (fun j => (s j).effort) ?_ ?_ h.fair ⟨hs, fun t ht => hdue t (hsub t ht)⟩).of_le hik
  · rintro j hkj ⟨hs, hdue⟩
    rcases h.stopping_next hs with hgoal | ⟨hs', hsub', hle, hlt⟩
    · exact .inl hgoal
    · have hmono : clock j ≤ clock (j + 1) := h.clock_mono (Nat.le_succ j)
      exact .inr ⟨⟨hs', fun t ht => (hdue t (hsub' t ht)).trans hmono⟩, hle,
        fun hm => hlt hm hdue⟩
  · rintro j hkj ⟨hs, hdue⟩ hend
    exact h.runnable_of_stopping hs hdue (by simpa using hend)

omit [IsOrderedAddMonoid T] in
/-- As long as only executors are stopped whose worker is not in its loop, the
loop runs. -/
theorem running_of_entered (h : Timeline timeoutMax s ev clock moved)
    (hstop : ∀ i b, ev i = some (.stopRequested b) → (s i).worker.entered = false) (i : ℕ) :
    (s i).worker.entered = true → (s i).executor.status = .running := by
  induction i with
  | zero =>
    obtain ⟨now, hnow⟩ := h.start
    intro hent
    simp [hnow, Sys.new, Worker.entered] at hent
  | succ i ih =>
    rcases h.next i with ⟨r, a, -, hstep, -⟩ | ⟨-, -, heq⟩
    · have hs := transition_of_step hstep
      by_cases hev : ∃ b, ev i = some (.stopRequested b)
      · obtain ⟨b, hb⟩ := hev
        intro hent
        rw [hb] at hs
        rw [hs.of_stopRequested.1, Worker.entered_notify, hstop i b hb] at hent
        cases hent
      · exact hs.running ih fun b hb => hev ⟨b, hb⟩
    · rw [heq]
      exact ih

/-- **When the thread of `run` ends.** In every infinite run in which the clock
passes every reading and a worker that can go on for ever moves, the thread
ends — and `join` returns — if and only if some stop is requested while the
worker is in its loop, or the thread crashes. Whether the stop is synchronous,
what other threads schedule and cancel, and what the tasks do makes no
difference; and a stop that comes before the first block of `run` ends
nothing. -/
theorem thread_ends_iff (h : Timeline timeoutMax s ev clock moved) :
    Eventually 0 (fun j => (s j).worker.ended = true) ↔
      (∃ i b, ev i = some (.stopRequested b) ∧ (s i).worker.entered = true) ∨
        ∃ i c, (s i).worker = .crashed c := by
  constructor
  · rintro ⟨j, -, hend⟩
    by_contra hnot
    rw [not_or] at hnot
    obtain ⟨hstop, hcrash⟩ := hnot
    have hrun := h.running_of_entered (i := j) fun i b hev => by
      by_contra hent
      exact hstop ⟨i, b, hev, by simpa using hent⟩
    cases hw : (s j).worker with
    | returned =>
      obtain ⟨now, hreached⟩ := h.reached j
      exact not_running_of_returned hreached hw (hrun (by rw [hw]; rfl))
    | crashed c => exact hcrash ⟨j, c, hw⟩
    | _ =>
      rw [hw] at hend
      cases hend
  · rintro (⟨i, b, hev, hent⟩ | ⟨i, c, hw⟩)
    · rcases h.next i with ⟨r, a, -, hstep, -⟩ | ⟨-, hnone, -⟩
      · have hs := transition_of_step hstep
        rw [hev] at hs
        obtain ⟨hworker, hst⟩ := hs.of_stopRequested
        have hent' : (s (i + 1)).worker.entered = true := by
          rw [hworker, Worker.entered_notify, hent]
        exact (h.ended_of_stopping ⟨hent', hst⟩).of_le (by omega)
      · simp [hev] at hnone
    · exact ⟨i, Nat.zero_le i, by simp [hw, Worker.ended]⟩

/-- What ends the wait for `t`: it is taken off its batch, or the executor is
stopped or its thread has ended. -/
def Served (s : ℕ → Sys T O V) (ev : ℕ → Option (Event T O V)) (t : Task T O) (j : ℕ) : Prop :=
  (∃ e ∈ ev j, e.taken? = some t) ∨ (s j).executor.status ≠ .running ∨
    (s j).worker.ended = true

variable {t : Task T O}

/-- One position while `t` is queued. -/
theorem waitsFor_next (h : Timeline timeoutMax s ev clock moved) (ht : (s i).WaitsFor t) :
    Eventually i (Served s ev t) ∨ t ∈ (s (i + 1)).worker.rest ∨
      (s (i + 1)).WaitsFor t ∧ (t.absTime ≤ clock i →
        (s (i + 1)).worker.effort ≤ (s i).worker.effort ∧
          (moved i → (s (i + 1)).worker.effort < (s i).worker.effort)) := by
  by_cases hserved : Served s ev t i
  · exact .inl (.now hserved)
  obtain ⟨-, hrun, hend⟩ : _ ∧ (s i).executor.status = .running ∧ (s i).worker.ended = false := by
    simpa [Served, not_or] using hserved
  rcases h.next i with ⟨r, a, hr, hstep, hby⟩ | ⟨hmoved, -, heq⟩
  · rcases ht.next (h.entered hrun) (h.conserved hend) hstep with hend' | hrest | ⟨hwaits, hlt⟩
    · exact .inl ⟨i + 1, by omega, .inr (.inr hend')⟩
    · exact .inr (.inl hrest)
    · exact .inr (.inr ⟨hwaits, fun hdue => (hlt (hdue.trans hr)).imp_right fun h hm => h (hby hm)⟩)
  · rw [heq]
    exact .inr (.inr ⟨ht, fun _ => ⟨le_rfl, fun hm => absurd hm hmoved⟩⟩)

omit [IsOrderedAddMonoid T] in
/-- One position while `t` is in the batch. -/
theorem inBatch_next (h : Timeline timeoutMax s ev clock moved) (ht : t ∈ (s i).worker.rest) :
    Eventually i (Served s ev t) ∨ t ∈ (s (i + 1)).worker.rest ∧
      (s (i + 1)).worker.effort ≤ (s i).worker.effort ∧
      (moved i → (s (i + 1)).worker.effort < (s i).worker.effort) := by
  rcases h.next i with ⟨r, a, hr, hstep, hby⟩ | ⟨hmoved, -, heq⟩
  · rcases rest_next ht hstep with htaken | hend | ⟨hrest, hle, hlt⟩
    · exact .inl (.now (.inl htaken))
    · exact .inl ⟨i + 1, by omega, .inr (.inr hend)⟩
    · exact .inr ⟨hrest, hle, fun hm => hlt (hby hm)⟩
  · rw [heq]
    exact .inr ⟨ht, le_rfl, fun hm => absurd hm hmoved⟩

omit [IsOrderedAddMonoid T] in
/-- **A batch is worked off.** -/
theorem served_of_inBatch (h : Timeline timeoutMax s ev clock moved)
    (ht : t ∈ (s i).worker.rest) : Eventually i (Served s ev t) := by
  refine Eventually.of_rank (P := fun j => t ∈ (s j).worker.rest)
    (fun j => (s j).worker.effort) (fun j _ hj => h.inBatch_next hj) ?_ h.fair ht
  intro j _ hj _
  cases hw : (s j).worker <;> simp_all [Worker.rest, Worker.Runnable]

/-- **A task that is due is popped** and its batch worked off. -/
theorem served_of_due (h : Timeline timeoutMax s ev clock moved) (ht : (s i).WaitsFor t)
    (hdue : t.absTime ≤ clock i) : Eventually i (Served s ev t) := by
  have hpopped : Eventually i fun j => t ∈ (s j).worker.rest ∨ Served s ev t j := by
    refine Eventually.of_rank (P := fun j => (s j).WaitsFor t ∧ t.absTime ≤ clock j)
      (fun j => (s j).worker.effort) ?_ ?_ h.fair ⟨ht, hdue⟩
    · rintro j hij ⟨hwaits, hdue⟩
      rcases h.waitsFor_next hwaits with hserved | hrest | ⟨hwaits', hlt⟩
      · exact .inl (hserved.mono fun _ _ => .inr)
      · exact .inl ⟨j + 1, by omega, .inl hrest⟩
      · have hmono : clock j ≤ clock (j + 1) := h.clock_mono (Nat.le_succ j)
        exact .inr ⟨⟨hwaits', hdue.trans hmono⟩, hlt hdue⟩
    · rintro j hij ⟨hwaits, hdue⟩ hnot
      obtain ⟨-, -, hrun, hend⟩ : _ ∧ _ ∧ (s j).executor.status = .running ∧
          (s j).worker.ended = false := by
        simpa [Served, not_or] using hnot
      refine Worker.runnable_of_entered (h.entered hrun) hend fun deadline hw => ?_
      obtain ⟨τ, hτ, hle⟩ := hwaits.2 deadline hw
      exact ⟨τ, hτ, hle.trans hdue⟩
  exact hpopped.andThen fun j _ hj => hj.elim (fun hrest => h.served_of_inBatch hrest) .now

/-- **What is waited for is served.** -/
theorem served_of_waitsFor (h : Timeline timeoutMax s ev clock moved) (ht : (s i).WaitsFor t) :
    Eventually i (Served s ev t) := by
  -- until its time the task is waited for or popped already
  obtain ⟨k, hik, hdue⟩ := h.eventually_due i [t]
  have hkeep : ∀ j, i ≤ j → Eventually i (Served s ev t) ∨ t ∈ (s j).worker.rest ∨
      (s j).WaitsFor t := by
    intro j hij
    induction j, hij using Nat.le_induction with
    | base => exact .inr (.inr ht)
    | succ j hij ih =>
      rcases ih with hserved | hrest | hwaits
      · exact .inl hserved
      · exact (h.inBatch_next hrest).imp (·.of_le hij) fun h => .inl h.1
      · exact (h.waitsFor_next hwaits).imp (·.of_le hij) (·.imp_right And.left)
  rcases hkeep k hik with hserved | hrest | hwaits
  · exact hserved
  · exact (h.served_of_inBatch hrest).of_le hik
  · exact (h.served_of_due hwaits (hdue t (by simp))).of_le hik

omit [IsOrderedAddMonoid T] in
/-- What was just accepted is waited for. -/
theorem waitsFor_of_accepted (h : Timeline timeoutMax s ev clock moved) {d : T}
    (hacc : ev i = some (.accepted d t)) : (s (i + 1)).WaitsFor t := by
  rcases h.next i with ⟨r, a, -, hstep, -⟩ | ⟨-, hnone, -⟩
  · rw [hacc] at hstep
    exact .of_accepted (transition_of_step hstep)
  · rw [hacc] at hnone
    cases hnone

/-- **No accepted task starves.** In every infinite run in which the clock
passes every reading and a worker that can go on for ever moves, a task whose
`schedule_delayed` returned is in the end taken off its batch — its action
is called, or skipped because its future was cancelled — unless the executor
is stopped or its thread has ended. How many other tasks are scheduled, and
with which priorities, makes no difference, and neither do calls of
`schedule_delayed` that raise. -/
theorem no_starvation (h : Timeline timeoutMax s ev clock moved) {d : T}
    (hacc : ev i = some (.accepted d t)) : Eventually i (Served s ev t) :=
  (h.served_of_waitsFor (h.waitsFor_of_accepted hacc)).of_le (by omega)

end Timeline

/-! ## Runs that come to rest -/

/-- Where a list of labels moves the worker. -/
def movedBy (ls : List (ℤ × Act ℤ Callable ℕ)) (i : ℕ) : Prop :=
  ∃ l ∈ performed (Sys.step 100) (Sys.new 0) ls i, l.2.byWorker = true

/-- Labels that are not before their positions lead through a fair run if they
leave a worker that cannot go on. -/
theorem timeline_of_labels (ls : List (ℤ × Act ℤ Callable ℕ))
    (hclock : ∀ (i : ℕ) (_ : i < ls.length), (i : ℤ) ≤ ls[i].1)
    (hrest : ∀ now, ¬ (states (Sys.step 100) (Sys.new 0) ls ls.length).worker.Runnable now) :
    Timeline 100 (states (Sys.step 100) (Sys.new 0) ls)
      (events (Sys.step 100) (Sys.new 0) ls) (fun i => (i : ℤ)) (movedBy ls) where
  start := ⟨0, rfl⟩
  next i := by
    rcases states_succ (Sys.step 100) (Sys.new 0) ls i with
      ⟨l, hl, hstep⟩ | ⟨hnone, hev, heq⟩
    · have hreads : (i : ℤ) ≤ l.1 := by
        obtain ⟨hi, rfl⟩ := List.getElem?_eq_some_iff.mp (getElem?_of_performed hl)
        exact hclock i hi
      refine .inl ⟨l.1, l.2, hreads, hstep, ?_⟩
      rintro ⟨l', hl', hby⟩
      obtain rfl : l = l' := Option.some.inj (hl.symm.trans hl')
      exact hby
    · refine .inr ⟨?_, hev, heq⟩
      rintro ⟨l, hl, -⟩
      simp [hnone] at hl
  clock_mono _ _ hij := Int.ofNat_le.mpr hij
  clock_unbounded τ := ⟨τ.toNat, Int.self_le_toNat τ⟩
  fair i := by
    refine ⟨max i ls.length, le_max_left _ _, fun hrun => ?_⟩
    simp only [states_of_length_le (le_max_right i ls.length)] at hrun
    exact absurd hrun (hrest _)

/-- A synchronous stop before the one task is due. -/
def stoppedAhead : List (ℤ × Act ℤ Callable ℕ) :=
  [(0, .start), (1, .enterRun), (2, .schedule 7 0 ⟨0⟩ [] []), (3, .stop true), (4, .turn 4),
    (9, .turn 9), (9, .take), (9, .finish (.result 5)), (9, .settle), (9, .load), (10, .store),
    (11, .turn 11)]

theorem thread_ends_stoppedAhead :
    (states (Sys.step 100) (Sys.new 0) stoppedAhead 5).queue.length = 1 ∧
      Eventually 0 fun j =>
        (states (Sys.step 100) (Sys.new 0) stoppedAhead j).worker.ended = true := by
  have hrest : (states (Sys.step 100) (Sys.new 0) stoppedAhead stoppedAhead.length).worker =
      .returned := by decide
  have h := timeline_of_labels stoppedAhead (by decide) (by rw [hrest]; exact fun _ => id)
  exact ⟨by decide, h.thread_ends_iff.mpr (.inl ⟨3, true, by decide, by decide⟩)⟩

/-- Three calls, the first of which the other two overtake. -/
def overtakenCall : List (ℤ × Act ℤ Callable ℕ) :=
  [(0, .start), (1, .enterRun), (2, .schedule 8 0 ⟨0⟩ [] []), (3, .turn 3),
    (4, .schedule 0 0 ⟨1⟩ [] []), (5, .turn 5), (6, .take), (7, .finish (.result 1)), (8, .settle),
    (9, .schedule 1 (-1) ⟨2⟩ [] []), (10, .turn 10), (11, .take), (12, .finish (.result 2)),
    (13, .settle), (14, .take), (15, .finish (.exception .valueError)), (16, .settle),
    (17, .turn 17)]

set_option maxRecDepth 4000 in
theorem no_starvation_overtakenCall :
    Eventually 2 (Timeline.Served (states (Sys.step 100) (Sys.new 0) overtakenCall)
      (events (Sys.step 100) (Sys.new 0) overtakenCall) (⟨10, 0, ⟨0⟩, [], [], 0⟩)) := by
  have hrest : (states (Sys.step 100) (Sys.new 0) overtakenCall overtakenCall.length).worker =
      .waiting none false := by decide
  have h := timeline_of_labels overtakenCall (by decide)
    (by rw [hrest]; simp [Worker.Runnable])
  exact h.no_starvation (d := 8) (by decide)

end PyLwip
