import PyLwip.Common.Reordering
import PyLwip.Scheduler.SoundQueue
import PyLwip.Scheduler.StopRequest

/-!
# `stop`, line by line

`Sys.step` executes a block under the lock as one move. For most blocks
there is no difference: what they read and write is either read and written
under the lock alone, or written by the worker, which is the thread that
executes the block. `stop` is the exception. It is called by another thread
than the worker's, it reads futures that anyone may cancel meanwhile, and it
writes the counter and the status that the worker's `finally` reads and
writes without the lock.

`Locked.step` therefore executes `stop` line by line, one shared access a
move, and between the lines whatever needs no lock. Where each `stop` begins
while no synchronous one is counted down, a run of it is a run of `Sys.step`
in which a cancel of a task that the `stop` under way has counted comes after
this `stop`. That is so of the last stop of every run if it is the first
synchronous one.
-/

namespace PyLwip

open EventSystem

variable {T O V : Type}

/-! ## The lines -/

/-- Where a thread stands in `stop`, in which it holds the lock. -/
inductive StopLine (T O : Type)
  /-- `sum` has still to ask the futures of `todo`. -/
  | counting (todo : List (Task T O)) (count : ℕ)
  /-- `_tasks_to_finish` is assigned next. -/
  | storing (count : ℕ)
  /-- `sync and self._tasks_to_finish` is evaluated next. -/
  | choosing
  /-- `_status` is assigned next. -/
  | assigning (status : Status)
  | notifying
  | releasing

/-- The system, and the thread that is in `stop`, with its argument. -/
structure Locked (T O V : Type) where
  sys : Sys T O V
  stopping : Option (Bool × StopLine T O)

/-- A move of a thread, or the next line of `stop`. -/
inductive LockedAct (T O V : Type)
  | act (a : Act T O V)
  | line

/-- The moves that need no lock. -/
def Act.lockFree : Act T O V → Bool
  | .start | .cancel _ | .take | .finish _ | .settle | .load | .store => true
  | .schedule _ _ _ _ _ | .stop _ | .enterRun | .turn _ => false

namespace Locked

/-- A line of `stop`: what it does, where the thread stands afterwards, and
what an observer sees. -/
def line (sync : Bool) (s : Sys T O V) :
    StopLine T O → Sys T O V × Option (StopLine T O) × Option (Event T O V)
  | .counting [] count => (s, some (.storing count), none)
  | .counting (task :: todo) count =>
    (s, some (.counting todo (if s.isCancelled task.future then count else count + 1)), none)
  | .storing count =>
    ({ s with executor := { s.executor with tasksToFinish := count } }, some .choosing, none)
  | .choosing =>
    (s, some (.assigning
      (if sync ∧ s.executor.tasksToFinish ≠ 0 then .stoppedSync else .stopped)), none)
  | .assigning status =>
    ({ s with executor := { s.executor with status := status } }, some .notifying,
      some (.stopRequested sync))
  | .notifying => ({ s with worker := s.worker.notify }, some .releasing, none)
  | .releasing => (s, none, none)

variable [RichCompare O] [AddCommGroup T] [LinearOrder T]

/-- **A step** of the executor with `stop` executed line by line. Its lines read
no clock. -/
def step (timeoutMax : T) (s : Locked T O V) (l : T × LockedAct T O V) :
    Option (Locked T O V × Option (Event T O V)) :=
  match s.stopping, l.2 with
  | none, .act (.stop sync) => some (⟨s.sys, some (sync, .counting s.sys.queue 0)⟩, none)
  | none, .act a => (s.sys.step timeoutMax (l.1, a)).map fun r => (⟨r.1, none⟩, r.2)
  | some h, .act a =>
    if a.lockFree then (s.sys.step timeoutMax (l.1, a)).map fun r => (⟨r.1, some h⟩, r.2)
    else none
  | some (sync, h), .line =>
    let r := line sync s.sys h
    some (⟨r.1, r.2.1.map fun h => (sync, h)⟩, r.2.2)
  | none, .line => none

/-- **What a step can be**: a move with the lock free, the first line of a
`stop`, a move that needs no lock, or the next line. -/
inductive Moved (timeoutMax : T) (s : Locked T O V) :
    Option (Event T O V) → Locked T O V → Prop
  | free {ev : Option (Event T O V)} {u : Sys T O V} (hstop : s.stopping = none)
      (hs : Steps timeoutMax s.sys ev u) : Moved timeoutMax s ev ⟨u, none⟩
  | acquire {sync : Bool} (hstop : s.stopping = none) :
      Moved timeoutMax s none ⟨s.sys, some (sync, .counting s.sys.queue 0)⟩
  | beside {r : T} {a : Act T O V} {ev : Option (Event T O V)} {u : Sys T O V}
      {h : Bool × StopLine T O} (hstop : s.stopping = some h) (hfree : a.lockFree = true)
      (hs : s.sys.step timeoutMax (r, a) = some (u, ev)) : Moved timeoutMax s ev ⟨u, some h⟩
  | next {sync : Bool} {h : StopLine T O} (hstop : s.stopping = some (sync, h)) :
      Moved timeoutMax s (line sync s.sys h).2.2
        ⟨(line sync s.sys h).1, (line sync s.sys h).2.1.map fun h => (sync, h)⟩

theorem moved_of_step {timeoutMax : T} {s s' : Locked T O V} {l : T × LockedAct T O V}
    {ev : Option (Event T O V)} (h : s.step timeoutMax l = some (s', ev)) :
    Moved timeoutMax s ev s' := by
  obtain ⟨r, m⟩ := l
  unfold step at h
  split at h
  · next hstop hl =>
    cases h
    exact .acquire hstop
  · next a _ hstop hl =>
    obtain ⟨⟨u, o⟩, hs, heq⟩ := Option.map_eq_some_iff.mp h
    cases heq
    exact .free hstop ⟨_, hs⟩
  · next hstop hl =>
    split at h
    · next hfree =>
      obtain ⟨⟨u, o⟩, hs, heq⟩ := Option.map_eq_some_iff.mp h
      cases heq
      exact .beside hstop hfree hs
    · cases h
  · next hstop hl =>
    cases h
    exact .next hstop
  · cases h

end Locked

/-! ## What the two levels share -/

namespace Event

/-- The future that an event is about. -/
def future? : Event T O V → Option ℕ
  | .accepted _ t | .scheduleRaised t _ | .skipped t | .invoked t _ | .completed t _
  | .settled t => some t.future
  | .cancelled n _ => some n
  | _ => none

def isCancel : Event T O V → Bool
  | .cancelled _ _ => true
  | _ => false

end Event

/-- The same events, each future's in their order, and all but the cancels in
their order. -/
abbrev SameButCancels : List (Event T O V) → List (Event T O V) → Prop :=
  SameOrder Event.isCancel Event.future?

/-- The worker's `finally` does not decrement the counter. -/
structure Sys.Quiet (s : Sys T O V) : Prop where
  status : s.executor.status ≠ .stoppedSync
  owed : s.worker.owed = 0

instance (s : Sys T O V) : Decidable s.Quiet :=
  decidable_of_iff (s.executor.status ≠ .stoppedSync ∧ s.worker.owed = 0)
    ⟨fun h => ⟨h.1, h.2⟩, fun h => ⟨h.status, h.owed⟩⟩

/-- A `stop` that begins finds the worker quiet. -/
def Locked.StopsQuietly (s s' : Locked T O V) : Prop :=
  s.stopping.isNone = true → s'.stopping.isSome = true → s.sys.Quiet

instance (s s' : Locked T O V) : Decidable (s.StopsQuietly s') :=
  inferInstanceAs (Decidable (_ → _ → _))

/-- The futures once those of `late` are cancelled. -/
def withdrawn (late : List ℕ) (f : ℕ → Future V) (n : ℕ) : Future V :=
  if n ∈ late then .cancelled else f n

theorem withdrawn_of_not_mem {late : List ℕ} {f : ℕ → Future V} {n : ℕ} (h : n ∉ late) :
    withdrawn late f n = f n :=
  if_neg h

theorem withdrawn_update {late : List ℕ} {f : ℕ → Future V} {n : ℕ} (x : Future V)
    (h : n ∉ late) :
    withdrawn late (Function.update f n x) = Function.update (withdrawn late f) n x := by
  funext m
  by_cases hm : m = n
  · subst hm
    simp [withdrawn, h]
  · simp [withdrawn, Function.update_of_ne hm]

theorem withdrawn_append (late : List ℕ) (f : ℕ → Future V) (n : ℕ) :
    withdrawn (late ++ [n]) f = Function.update (withdrawn late f) n .cancelled := by
  funext m
  by_cases hm : m = n
  · subst hm
    simp [withdrawn]
  · simp [withdrawn, hm]

/-! ## Counting -/

section Counting

variable [LinearOrder T] {tr : List (Event T O V)} {a s : Sys T O V}
  {counted todo : List (Task T O)} {late : List ℕ} {n : ℕ} {r : T} {w : Worker T O}

/-- **While `stop` counts**, and until it assigns the status, the system of the
lines is that of the steps after the cancels in `late`, which are of
futures counted before. -/
structure Counts (counted todo : List (Task T O)) (late : List ℕ) (a s : Sys T O V) : Prop where
  quiet : a.Quiet
  queue : a.queue = counted ++ todo
  mem_counted : ∀ n ∈ late, ∃ t ∈ counted, t.future = n
  now : a.now ≤ s.now
  tasks : s.executor.tasks = a.executor.tasks
  status : s.executor.status = a.executor.status
  future : s.future = withdrawn late a.future
  nextFuture : s.nextFuture = a.nextFuture
  worker : s.worker = a.worker

namespace Counts

theorem not_mem_late (h : Counts counted todo late a s) (hn : ∀ t ∈ counted, t.future ≠ n) :
    n ∉ late := by
  intro hmem
  obtain ⟨t, ht, heq⟩ := h.mem_counted n hmem
  exact hn t ht heq

theorem future_eq (h : Counts counted todo late a s) (hn : ∀ t ∈ counted, t.future ≠ n) :
    s.future n = a.future n := by
  rw [h.future, withdrawn_of_not_mem (h.not_mem_late hn)]

/-- A move that touches no future. -/
theorem move (h : Counts counted todo late a s) (hw : w.owed = 0) :
    Counts counted todo late { a with now := r, worker := w } { s with now := r, worker := w } :=
  { h with quiet := ⟨h.quiet.status, hw⟩, now := le_rfl, worker := rfl }

/-- A move that sets a future not counted so far. -/
theorem set (h : Counts counted todo late a s) (hn : ∀ t ∈ counted, t.future ≠ n)
    (hw : w.owed = 0) (x : Future V) :
    Counts counted todo late
      { a with now := r, future := Function.update a.future n x, worker := w }
      { s with now := r, future := Function.update s.future n x, worker := w } :=
  { h with
    quiet := ⟨h.quiet.status, hw⟩
    now := le_rfl
    future := by rw [withdrawn_update x (h.not_mem_late hn), h.future]
    worker := rfl }

/-- A cancel of a future counted already: it is still to come. -/
theorem defer (h : Counts counted todo late a s) (hn : ∃ t ∈ counted, t.future = n)
    (hr : s.now ≤ r) :
    Counts counted todo (late ++ [n]) a
      { s with now := r, future := Function.update s.future n .cancelled } :=
  { h with
    mem_counted := fun m hm => by
      rcases List.mem_append.mp hm with hm | hm
      · exact h.mem_counted m hm
      · exact List.mem_singleton.mp hm ▸ hn
    now := h.now.trans hr
    future := by rw [withdrawn_append, h.future] }

/-- The next future is none of those that were asked. -/
theorem ne_of_counted {t : Task T O} (h : Counts counted (t :: todo) late a s)
    (hq : QueueSound tr a) : ∀ t' ∈ counted, t'.future ≠ t.future := by
  intro t' ht'
  have hnd := hq.nodup
  rw [h.queue, List.map_append] at hnd
  exact (List.nodup_append.mp hnd).2.2 _ (List.mem_map_of_mem ht') _ (by simp)

/-- The next future is asked. -/
theorem count {t : Task T O} (h : Counts counted (t :: todo) late a s) :
    Counts (counted ++ [t]) todo late a s :=
  { h with
    queue := by rw [h.queue, List.append_assoc, List.singleton_append]
    mem_counted := fun n hn => by
      obtain ⟨u, hu, heq⟩ := h.mem_counted n hn
      exact ⟨u, List.mem_append_left _ hu, heq⟩ }

end Counts

end Counting

section Refinement

variable [RichCompare O] [AddCommGroup T] [LinearOrder T] {timeoutMax : T}
  {tr tr' : List (Event T O V)} {s₀ a a' s u : Sys T O V} {ev : Option (Event T O V)}
  {counted todo : List (Task T O)} {late late' : List ℕ}

/-- What a step does where the cancels in `late` are still to come: it is taken
at once, or it is a cancel and comes later too. -/
inductive Follows (timeoutMax : T) (late : List ℕ) (a : Sys T O V) :
    Option (Event T O V) → List ℕ → Sys T O V → Prop
  | atOnce {a' : Sys T O V} {ev : Option (Event T O V)} (hs : Steps timeoutMax a ev a')
      (hown : ∀ e ∈ ev, ∀ n ∈ late, e.future? ≠ some n) : Follows timeoutMax late a ev late a'
  | later {n : ℕ} : Follows timeoutMax late a (some (.cancelled n true)) (late ++ [n]) a

/-- While another thread counts, the steps follow a move, and leave the futures
that were counted as they were. -/
structure FollowsCounting (timeoutMax : T) (counted todo : List (Task T O)) (late : List ℕ)
    (a s : Sys T O V) (ev : Option (Event T O V)) (u : Sys T O V) (late' : List ℕ)
    (a' : Sys T O V) : Prop where
  follows : Follows timeoutMax late a ev late' a'
  counts : Counts counted todo late' a' u
  future : ∀ t ∈ counted, a'.future t.future = a.future t.future
  executor : u.executor = s.executor

namespace Counts

theorem follow_move (h : Counts counted todo late a s) {r : T} {m : Act T O V}
    {w : Worker T O} (hw : w.owed = 0)
    (hs : a.step timeoutMax (r, m) = some ({ a with now := r, worker := w }, ev))
    (hown : ∀ e ∈ ev, ∀ n ∈ late, e.future? ≠ some n) :
    FollowsCounting timeoutMax counted todo late a s ev { s with now := r, worker := w } late
      { a with now := r, worker := w } where
  follows := .atOnce ⟨_, hs⟩ hown
  counts := h.move hw
  future _ _ := rfl
  executor := rfl

theorem follow_set (h : Counts counted todo late a s) {r : T} {m : Act T O V}
    {w : Worker T O} {e : Event T O V} {n : ℕ} {x : Future V} (hw : w.owed = 0)
    (hn : ∀ t ∈ counted, t.future ≠ n) (he : e.future? = some n)
    (hs : a.step timeoutMax (r, m) =
      some ({ a with now := r, future := Function.update a.future n x, worker := w }, some e)) :
    FollowsCounting timeoutMax counted todo late a s (some e)
      { s with now := r, future := Function.update s.future n x, worker := w } late
      { a with now := r, future := Function.update a.future n x, worker := w } where
  follows := .atOnce ⟨_, hs⟩ fun e' he' n' hn' hown => by
    obtain rfl := Option.some.inj he'
    obtain rfl := Option.some.inj (he.symm.trans hown)
    exact h.not_mem_late hn hn'
  counts := h.set hn hw x
  future t ht := Function.update_of_ne (hn t ht) _ _
  executor := rfl

theorem take (h : Counts counted todo late a s) {r : T} {task : Task T O}
    {rest : List (Task T O)} (hr : a.now ≤ r) (hw : a.worker = .batch (task :: rest))
    (hn : ∀ t ∈ counted, t.future ≠ task.future) :
    ∃ a', FollowsCounting timeoutMax counted todo late a s
      (some (({ s with now := r } : Sys T O V).take task rest).2)
      (({ s with now := r } : Sys T O V).take task rest).1 late a' := by
  have hfut : s.future task.future = a.future task.future := h.future_eq hn
  cases hf : a.future task.future with
  | pending =>
    simp only [Sys.take, hfut, hf, Future.setRunningOrNotifyCancel]
    refine ⟨_, h.follow_set rfl hn (by rfl) (m := .take) ?_⟩
    simp [Sys.step, Sys.act, Sys.take, hr, hw, hf, Future.setRunningOrNotifyCancel]
  | cancelled =>
    simp only [Sys.take, hfut, hf, Future.setRunningOrNotifyCancel]
    refine ⟨_, h.follow_set rfl hn (by rfl) (m := .take) ?_⟩
    simp [Sys.step, Sys.act, Sys.take, hr, hw, hf, Future.setRunningOrNotifyCancel]
  | running | cancelledAndNotified | finished o =>
    simp only [Sys.take, hfut, hf, Future.setRunningOrNotifyCancel]
    refine ⟨_, h.follow_move rfl (m := .take) ?_ (by simp [Event.future?])⟩
    simp [Sys.step, Sys.act, Sys.take, hr, hw, hf, Future.setRunningOrNotifyCancel]

theorem finish (h : Counts counted todo late a s) {r : T} {o : Outcome V} {task : Task T O}
    {rest : List (Task T O)} (hr : a.now ≤ r) (hw : a.worker = .executing task rest)
    (hn : ∀ t ∈ counted, t.future ≠ task.future) :
    ∃ a', FollowsCounting timeoutMax counted todo late a s
      (some (({ s with now := r } : Sys T O V).finish o task rest).2)
      (({ s with now := r } : Sys T O V).finish o task rest).1 late a' := by
  have hfut : s.future task.future = a.future task.future := h.future_eq hn
  cases hset : (a.future task.future).set o with
  | ok x =>
    simp only [Sys.finish, hfut, hset]
    refine ⟨_, h.follow_set rfl hn (by rfl) (m := .finish o) ?_⟩
    simp [Sys.step, Sys.act, Sys.finish, hr, hw, hset]
  | error x =>
    simp only [Sys.finish, hfut, hset]
    refine ⟨_, h.follow_move rfl (m := .finish o) ?_ (by simp [Event.future?])⟩
    simp [Sys.step, Sys.act, Sys.finish, hr, hw, hset]

/-- A cancel of a future counted already is still to come; any other is done. -/
theorem cancel (h : Counts counted todo late a s) {r : T} {n : ℕ} (hr : s.now ≤ r)
    (hlt : n < s.nextFuture)
    (hwaiting : ∀ t ∈ counted, a.future t.future = .pending ∨ a.future t.future = .cancelled) :
    ∃ late' a', FollowsCounting timeoutMax counted todo late a s
      (some (.cancelled n (s.future n).cancel.2))
      { s with now := r, future := Function.update s.future n (s.future n).cancel.1 } late' a' := by
  by_cases hn : ∃ t ∈ counted, t.future = n
  · have hcancel : (s.future n).cancel = (.cancelled, true) := by
      obtain ⟨t, ht, rfl⟩ := hn
      rw [h.future, withdrawn]
      split
      · rfl
      · rcases hwaiting t ht with hf | hf <;> simp [hf, Future.cancel]
    rw [hcancel]
    exact ⟨late ++ [n], a, .later, h.defer hn hr, fun _ _ => rfl, rfl⟩
  · have hne : ∀ t ∈ counted, t.future ≠ n := fun t ht heq => hn ⟨t, ht, heq⟩
    have hstep : a.step timeoutMax (r, .cancel n) = some
        ({ a with
          now := r, future := Function.update a.future n (a.future n).cancel.1
          worker := a.worker }, some (.cancelled n (a.future n).cancel.2)) := by
      simp [Sys.step, Sys.act, h.now.trans hr, ← h.nextFuture, hlt]
    have hset := h.follow_set h.quiet.owed hne rfl hstep
    rw [← h.worker] at hset
    rw [h.future_eq hne]
    exact ⟨late, _, hset⟩

/-- The `finally` of a task that has ended. -/
theorem settle {now : T} (h : Counts counted todo late a s)
    (ha : Interleaving timeoutMax (Sys.new now) tr a) {r : T}
    {task : Task T O} {rest : List (Task T O)} (hr : a.now ≤ r)
    (hw : a.worker = .settling task rest)
    (hwaiting : ∀ t ∈ counted, a.future t.future = .pending ∨ a.future t.future = .cancelled) :
    ∃ a', FollowsCounting timeoutMax counted todo late a s (some (.settled task))
      { s with now := r, worker := .batch rest } late a' := by
  have hstep : a.step timeoutMax (r, .settle) =
      some ({ a with now := r, worker := .batch rest }, some (.settled task)) := by
    simp [Sys.step, Sys.act, hr, hw, h.quiet.status]
  refine ⟨_, h.follow_move rfl hstep ?_⟩
  obtain ⟨o, hmem⟩ := completed_of_settled (ha.step ⟨_, hstep⟩) (t := task) (by simp)
  have hfinished := (queueSound_of_run ha).completed task o (by simpa using hmem)
  intro e he n hn hown
  obtain rfl := Option.some.inj he
  obtain ⟨t, ht, rfl⟩ := h.mem_counted n hn
  obtain heq : task.future = t.future := by simpa [Event.future?] using hown
  rw [heq] at hfinished
  rcases hwaiting t ht with hf | hf <;> simp [hf] at hfinished

end Counts

/-- **A move that needs no lock**, while another thread counts: the steps
follow. -/
theorem Counts.beside {now : T} (h : Counts counted todo late a s)
    (ha : Interleaving timeoutMax (Sys.new now) tr a) {r : T} {m : Act T O V}
    (hfree : m.lockFree = true) (hs : s.step timeoutMax (r, m) = some (u, ev)) :
    ∃ late' a', FollowsCounting timeoutMax counted todo late a s ev u late' a' := by
  have hq := queueSound_of_run ha
  have hqueued : ∀ t ∈ counted, t ∈ a.queue := fun t ht => by
    rw [h.queue]
    exact List.mem_append_left _ ht
  have hwaiting : ∀ t ∈ counted, a.future t.future = .pending ∨ a.future t.future = .cancelled :=
    fun t ht => hq.waiting t (hqueued t ht)
  unfold Sys.step at hs
  split at hs
  · next hr =>
    have hra : a.now ≤ r := h.now.trans hr
    cases m with
    | schedule | stop | enterRun | turn => cases hfree
    | start =>
      simp only [Sys.act] at hs
      split at hs
      · next hw =>
        cases hs
        refine ⟨late, _, h.follow_move rfl (m := .start) ?_ (by simp [Event.future?])⟩
        simp [Sys.step, Sys.act, hra, ← h.worker, show s.worker = .unborn from hw]
      · cases hs
    | cancel n =>
      simp only [Sys.act] at hs
      split at hs
      · next hlt =>
        cases hs
        exact h.cancel hr hlt hwaiting
      · cases hs
    | take =>
      simp only [Sys.act] at hs
      split at hs
      · next task rest hw =>
        cases hs
        have hw : a.worker = .batch (task :: rest) := h.worker ▸ hw
        exact ⟨late, h.take hra hw fun t ht =>
          hq.apart t (hqueued t ht) task (by simp [hw, Worker.rest])⟩
      · cases hs
    | finish o =>
      simp only [Sys.act] at hs
      split at hs
      · next task rest hw =>
        cases hs
        have hw : a.worker = .executing task rest := h.worker ▸ hw
        exact ⟨late, h.finish hra hw fun t ht =>
          hq.apart t (hqueued t ht) task (by simp [hw, Worker.current])⟩
      · cases hs
    | settle =>
      simp only [Sys.act] at hs
      split at hs
      · next task rest hw =>
        have hst : s.executor.status ≠ .stoppedSync := h.status ▸ h.quiet.status
        simp only [if_neg hst] at hs
        cases hs
        exact ⟨late, h.settle ha hra (h.worker ▸ hw) hwaiting⟩
      · cases hs
    | load =>
      simp only [Sys.act] at hs
      split at hs
      · next rest hw =>
        have howed := h.quiet.owed
        rw [← h.worker, show s.worker = .subtracting rest from hw] at howed
        cases howed
      · cases hs
    | store =>
      simp only [Sys.act] at hs
      split at hs
      · next value rest hw =>
        have howed := h.quiet.owed
        rw [← h.worker, show s.worker = .storing value rest from hw] at howed
        cases howed
      · cases hs
  · cases hs

/-! ## The status is assigned -/

/-- The cancels that are still to come. -/
abbrev cancels (late : List ℕ) : List (Event T O V) := late.map fun n => .cancelled n true

theorem withdrawn_of_run (hlt : ∀ n ∈ late, n < a.nextFuture)
    (hwaiting : ∀ n ∈ late, a.future n = .pending ∨ a.future n = .cancelled) :
    Interleaving timeoutMax a (cancels late) { a with future := withdrawn late a.future } := by
  induction late using List.reverseRecOn with
  | nil =>
    have hnil : withdrawn [] a.future = a.future := funext fun n => withdrawn_of_not_mem (by simp)
    rw [hnil]
    exact .refl
  | append_singleton late n ih =>
    have hrun := ih (fun m hm => hlt m (List.mem_append_left _ hm))
      fun m hm => hwaiting m (List.mem_append_left _ hm)
    have hcancel : (withdrawn late a.future n).cancel = (.cancelled, true) := by
      rw [withdrawn]
      split
      · rfl
      · rcases hwaiting n (by simp) with hf | hf <;> simp [hf, Future.cancel]
    have hstep : Steps timeoutMax { a with future := withdrawn late a.future }
        (some (.cancelled n true))
        { a with future := Function.update (withdrawn late a.future) n .cancelled } :=
      ⟨(a.now, .cancel n), by simp [Sys.step, Sys.act, hlt n (by simp), hcancel]⟩
    rw [cancels, List.map_append, withdrawn_append]
    exact hrun.step hstep

/-- **The assignment of the status** is where `stop` takes place; after it come
the cancels that the count has not seen. -/
theorem Counts.assign (h : Counts a.queue [] late a s) (hq : QueueSound tr a)
    (hcount : s.executor.tasksToFinish = a.executor.countUncancelled a.isCancelled)
    (sync : Bool) : Interleaving timeoutMax a (.stopRequested sync :: cancels late)
      { s with
        worker := s.worker.notify
        executor :=
          { s.executor with status := (a.executor.stop a.isCancelled sync).status } } := by
  have hstop : Steps timeoutMax a (some (.stopRequested sync))
      { a with
        now := s.now, executor := a.executor.stop a.isCancelled sync
        worker := a.worker.notify } :=
    ⟨(s.now, .stop sync), by
      simp only [Sys.step, h.now, if_true, Sys.act]
      rfl⟩
  have hlt : ∀ n ∈ late, n < a.nextFuture := by
    intro n hn
    obtain ⟨t, ht, rfl⟩ := h.mem_counted n hn
    exact hq.lt t ht
  have hwaiting : ∀ n ∈ late, a.future n = .pending ∨ a.future n = .cancelled := by
    intro n hn
    obtain ⟨t, ht, rfl⟩ := h.mem_counted n hn
    exact hq.waiting t ht
  have hexecutor : ({ s.executor with status := (a.executor.stop a.isCancelled sync).status } :
      Executor T O) = a.executor.stop a.isCancelled sync := by
    simp only [h.tasks, hcount]
    rfl
  rw [hexecutor, h.worker, h.future, h.nextFuture]
  exact (Run.single hstop).trans (withdrawn_of_run hlt hwaiting)

/-! ## Every line -/

/-- **How the two systems are related** at each line: while a thread counts, the
cancels in `late` are missing in the system of the steps; from the assignment
of the status on there are none. -/
inductive Refines (late : List ℕ) (a s : Sys T O V) : Option (Bool × StopLine T O) → Prop
  | free (hlate : late = []) (heq : a = s) : Refines late a s none
  | counting {sync : Bool} {counted todo : List (Task T O)} {count : ℕ}
      (h : Counts counted todo late a s)
      (hcount : count = counted.countP fun t => !a.isCancelled t.future) :
      Refines late a s (some (sync, .counting todo count))
  | storing {sync : Bool} {count : ℕ} (h : Counts a.queue [] late a s)
      (hcount : count = a.executor.countUncancelled a.isCancelled) :
      Refines late a s (some (sync, .storing count))
  | choosing {sync : Bool} (h : Counts a.queue [] late a s)
      (hcount : s.executor.tasksToFinish = a.executor.countUncancelled a.isCancelled) :
      Refines late a s (some (sync, .choosing))
  | assigning {sync : Bool} {status : Status} (h : Counts a.queue [] late a s)
      (hcount : s.executor.tasksToFinish = a.executor.countUncancelled a.isCancelled)
      (hstatus : status = (a.executor.stop a.isCancelled sync).status) :
      Refines late a s (some (sync, .assigning status))
  | notifying {sync : Bool} (hlate : late = []) (heq : a = { s with worker := s.worker.notify }) :
      Refines late a s (some (sync, .notifying))
  | releasing {sync : Bool} (hlate : late = []) (heq : a = s) :
      Refines late a s (some (sync, .releasing))

/-- What the steps do for a move of the other system. -/
structure Simulated (timeoutMax : T) (late : List ℕ) (a : Sys T O V) (ev : Option (Event T O V))
    (s' : Locked T O V) (late' : List ℕ) (tr' : List (Event T O V)) (a' : Sys T O V) : Prop where
  run : Interleaving timeoutMax a tr' a'
  refines : Refines late' a' s'.sys s'.stopping
  order : SameButCancels (cancels late ++ ev.toList) (tr' ++ cancels late')

/-- A notified worker does not go on without the lock. -/
theorem step_notify {r : T} {m : Act T O V} (hfree : m.lockFree = true)
    (hs : s.step timeoutMax (r, m) = some (u, ev)) :
    ({ s with worker := s.worker.notify } : Sys T O V).step timeoutMax (r, m) =
      some ({ u with worker := u.worker.notify }, ev) := by
  unfold Sys.step at hs ⊢
  split at hs
  · next hr =>
    rw [if_pos hr]
    cases m with
    | schedule | stop | enterRun | turn => cases hfree
    | start =>
      simp only [Sys.act] at hs
      split at hs
      · next hw =>
        cases hs
        simp [Sys.act, show s.worker = .unborn from hw, Worker.notify]
      · cases hs
    | cancel n =>
      simp only [Sys.act] at hs
      split at hs
      · next hlt =>
        cases hs
        simp [Sys.act, show n < s.nextFuture from hlt]
      · cases hs
    | take =>
      simp only [Sys.act] at hs
      split at hs
      · next task rest hw =>
        obtain ⟨rfl, rfl⟩ := Prod.mk.inj (Option.some.inj hs)
        simp only [Sys.act, show s.worker = .batch (task :: rest) from hw, Worker.notify, Sys.take]
        split <;> rfl
      · cases hs
    | finish o =>
      simp only [Sys.act] at hs
      split at hs
      · next task rest hw =>
        obtain ⟨rfl, rfl⟩ := Prod.mk.inj (Option.some.inj hs)
        simp only [Sys.act, show s.worker = .executing task rest from hw, Worker.notify, Sys.finish]
        split <;> rfl
      · cases hs
    | settle =>
      simp only [Sys.act] at hs
      split at hs
      · next task rest hw =>
        simp only [Sys.act, show s.worker = .settling task rest from hw, Worker.notify]
        split at hs
        · next hst =>
          cases hs
          simp [show s.executor.status = .stoppedSync from hst]
        · next hst =>
          cases hs
          simp [show s.executor.status ≠ .stoppedSync from hst]
      · cases hs
    | load =>
      simp only [Sys.act] at hs
      split at hs
      · next rest hw =>
        cases hs
        simp [Sys.act, show s.worker = .subtracting rest from hw, Worker.notify]
      · cases hs
    | store =>
      simp only [Sys.act] at hs
      split at hs
      · next value rest hw =>
        cases hs
        simp [Sys.act, show s.worker = .storing value rest from hw, Worker.notify]
      · cases hs
  · cases hs

theorem Follows.order (h : Follows timeoutMax late a ev late' a') :
    ∃ tr', Interleaving timeoutMax a tr' a' ∧
      SameButCancels (cancels late ++ ev.toList) (tr' ++ cancels late') := by
  cases h with
  | atOnce hs hown =>
    refine ⟨ev.toList, Run.single hs, .wait (by simp [Event.isCancel]) ?_⟩
    intro e he e' he' n hn hn'
    obtain ⟨m, hm, rfl⟩ := List.mem_map.mp he
    obtain rfl := Option.some.inj hn
    exact hown e' (by simpa using he') m hm hn'
  | later => exact ⟨[], .refl, by simpa using SameOrder.refl _⟩

/-- What is counted does not change. -/
theorem FollowsCounting.count (h : FollowsCounting timeoutMax counted todo late a s ev u late' a') :
    (counted.countP fun t => !a'.isCancelled t.future) =
      counted.countP fun t => !a.isCancelled t.future :=
  List.countP_congr fun t ht => by simp [Sys.isCancelled, h.future t ht]

theorem FollowsCounting.countUncancelled
    (h : FollowsCounting timeoutMax a.queue [] late a s ev u late' a') :
    a'.queue = a.queue ∧ a'.executor.countUncancelled a'.isCancelled =
      a.executor.countUncancelled a.isCancelled := by
  have hqueue : a'.queue = a.queue := by simpa using h.counts.queue
  refine ⟨hqueue, ?_⟩
  calc a'.executor.countUncancelled a'.isCancelled
      = a'.queue.countP fun t => !a'.isCancelled t.future := rfl
    _ = a.queue.countP fun t => !a.isCancelled t.future := by rw [hqueue, h.count]

/-- **A move that needs no lock**, while another thread is in `stop`. -/
theorem Refines.beside {now : T} {h : Bool × StopLine T O} (href : Refines late a s (some h))
    (ha : Interleaving timeoutMax (Sys.new now) tr a) {r : T} {m : Act T O V}
    (hfree : m.lockFree = true) (hs : s.step timeoutMax (r, m) = some (u, ev)) :
    ∃ late' tr' a', Simulated timeoutMax late a ev ⟨u, some h⟩ late' tr' a' := by
  cases href with
  | @counting sync counted todo count h hcount =>
    obtain ⟨late', a', hfollow⟩ := h.beside ha hfree hs
    obtain ⟨tr', hrun, horder⟩ := hfollow.follows.order
    exact ⟨late', tr', a', hrun, .counting hfollow.counts (hfollow.count ▸ hcount), horder⟩
  | storing h hcount =>
    obtain ⟨late', a', hfollow⟩ := h.beside ha hfree hs
    obtain ⟨tr', hrun, horder⟩ := hfollow.follows.order
    obtain ⟨hqueue, hsame⟩ := hfollow.countUncancelled
    exact ⟨late', tr', a', hrun, .storing (hqueue ▸ hfollow.counts) (hsame ▸ hcount), horder⟩
  | choosing h hcount =>
    obtain ⟨late', a', hfollow⟩ := h.beside ha hfree hs
    obtain ⟨tr', hrun, horder⟩ := hfollow.follows.order
    obtain ⟨hqueue, hsame⟩ := hfollow.countUncancelled
    exact ⟨late', tr', a', hrun, .choosing (hqueue ▸ hfollow.counts)
      (by rw [hfollow.executor, hsame, hcount]), horder⟩
  | assigning h hcount hstatus =>
    obtain ⟨late', a', hfollow⟩ := h.beside ha hfree hs
    obtain ⟨tr', hrun, horder⟩ := hfollow.follows.order
    obtain ⟨hqueue, hsame⟩ := hfollow.countUncancelled
    exact ⟨late', tr', a', hrun, .assigning (hqueue ▸ hfollow.counts)
      (by rw [hfollow.executor, hsame, hcount]) (by simp only [hstatus, Executor.stop, hsame]),
      horder⟩
  | notifying hlate heq =>
    subst hlate heq
    exact ⟨[], ev.toList, _, Run.single ⟨_, step_notify hfree hs⟩, .notifying rfl rfl,
      by simpa using SameOrder.refl _⟩
  | releasing hlate heq =>
    subst hlate heq
    exact ⟨[], ev.toList, _, Run.single ⟨_, hs⟩, .releasing rfl rfl,
      by simpa using SameOrder.refl _⟩

/-- **The next line** of `stop`. -/
theorem Refines.next {sync : Bool} {h : StopLine T O}
    (href : Refines late a s (some (sync, h))) (hq : QueueSound tr a) :
    ∃ late' tr' a', Simulated timeoutMax late a (Locked.line sync s h).2.2
      ⟨(Locked.line sync s h).1, (Locked.line sync s h).2.1.map fun h => (sync, h)⟩
      late' tr' a' := by
  have hsame : SameButCancels (cancels late ++ (none : Option (Event T O V)).toList)
      ([] ++ cancels late) := by simpa using SameOrder.refl _
  cases href with
  | @counting _ counted todo count h hcount =>
    cases todo with
    | nil =>
      have hqueue : counted = a.queue := by simpa using h.queue.symm
      subst hqueue
      exact ⟨late, [], a, .refl, .storing h hcount, hsame⟩
    | cons t todo =>
      have hn := h.ne_of_counted hq
      have hask : s.isCancelled t.future = a.isCancelled t.future := by
        rw [Sys.isCancelled, h.future_eq hn, Sys.isCancelled]
      refine ⟨late, [], a, .refl, .counting h.count ?_, hsame⟩
      cases hcan : a.isCancelled t.future <;> simp [hask, hcount, hcan]
  | storing h hcount =>
    exact ⟨late, [], a, .refl, .choosing { h with } (by simp [Locked.line, hcount]), hsame⟩
  | choosing h hcount =>
    refine ⟨late, [], a, .refl, .assigning h hcount ?_, hsame⟩
    simp [Executor.stop, hcount]
  | assigning h hcount hstatus =>
    refine ⟨[], .stopRequested sync :: cancels late, _, h.assign hq hcount sync,
      .notifying rfl (by rw [hstatus]; rfl), ?_⟩
    have hwait : SameButCancels (cancels late ++ [(.stopRequested sync : Event T O V)])
        ([.stopRequested sync] ++ cancels late) :=
      .wait (by simp [Event.isCancel]) (by simp [Event.future?])
    simpa [Locked.line] using hwait
  | notifying hlate heq => exact ⟨late, [], a, .refl, .releasing hlate heq, hsame⟩
  | releasing hlate heq => exact ⟨late, [], a, .refl, .free hlate heq, hsame⟩

/-! ## Every run -/

theorem Sys.Quiet.step (h : s.Quiet) (hs : Transition timeoutMax s ev u)
    (hsync : ev ≠ some (.stopRequested true)) : u.Quiet := by
  cases hs with
  | @stop r sync =>
    cases sync with
    | true => exact absurd rfl hsync
    | false => exact ⟨by simp [Executor.stop], by simpa using h.owed⟩
  | accepted => exact ⟨h.status, by simpa using h.owed⟩
  | rejected | scheduleRaised | cancel => exact ⟨h.status, h.owed⟩
  | enterRun | leave => exact ⟨by simp [Executor.enterRun], rfl⟩
  | settleSync _ _ hst => exact absurd hst h.status
  | load _ hw | store _ hw =>
    have howed := h.owed
    rw [hw] at howed
    cases howed
  | _ => exact ⟨h.status, rfl⟩

/-- Before the first synchronous stop the worker is quiet. -/
theorem quiet_of_run {now : T} (h : Interleaving timeoutMax (Sys.new now) tr s)
    (hsync : .stopRequested true ∉ tr) : s.Quiet := by
  refine h.invariant (I := fun tr s => .stopRequested true ∉ tr → s.Quiet)
    (fun _ => ⟨by simp [Sys.new, Executor.new], rfl⟩) ?_ hsync
  intro tr s ev s' _ ih hs hsync
  refine (ih fun hmem => hsync (List.mem_append_left _ hmem)).step hs.transition ?_
  rintro rfl
  exact hsync (by simp)

/-- The steps of the executor with `stop` executed line by line, each `stop`
begun where the worker is quiet. -/
abbrev LockedSteps (timeoutMax : T) :
    Locked T O V → Option (Event T O V) → Locked T O V → Prop :=
  fun s ev s' => StepOf (Locked.step timeoutMax) s ev s' ∧ s.StopsQuietly s'

/-- **The step lemma.** -/
theorem Refines.step {now : T} {s s' : Locked T O V} (href : Refines late a s.sys s.stopping)
    (ha : Interleaving timeoutMax (Sys.new now) tr a) (hs : LockedSteps timeoutMax s ev s') :
    ∃ late' tr' a', Simulated timeoutMax late a ev s' late' tr' a' := by
  obtain ⟨⟨l, hl⟩, hquiet⟩ := hs
  cases Locked.moved_of_step hl with
  | free hstop hs =>
    rw [hstop] at href
    cases href with
    | free hlate heq =>
      subst hlate heq
      exact ⟨[], ev.toList, _, Run.single hs, .free rfl rfl, by simpa using SameOrder.refl _⟩
  | acquire hstop =>
    rw [hstop] at href
    cases href with
    | free hlate heq =>
      subst hlate heq
      have hcounts : Counts [] s.sys.queue [] s.sys s.sys := {
        quiet := hquiet (by simp [hstop]) rfl
        queue := rfl
        mem_counted := by simp
        now := le_rfl
        tasks := rfl
        status := rfl
        future := funext fun n => (withdrawn_of_not_mem (by simp)).symm
        nextFuture := rfl
        worker := rfl }
      exact ⟨[], [], s.sys, .refl, .counting hcounts rfl, by simpa using SameOrder.refl _⟩
  | beside hstop hfree hs =>
    rw [hstop] at href
    exact href.beside ha hfree hs
  | next hstop =>
    rw [hstop] at href
    exact href.next (queueSound_of_run ha)

/-- **The run lemma.** -/
theorem refines_of_run {now : T} {tr₀ tr : List (Event T O V)} {s : Locked T O V}
    (h₀ : Interleaving timeoutMax (Sys.new now) tr₀ s₀)
    (h : Run (LockedSteps timeoutMax) ⟨s₀, none⟩ tr s) :
    ∃ late tr' a, Interleaving timeoutMax s₀ tr' a ∧ Refines late a s.sys s.stopping ∧
      SameButCancels tr (tr' ++ cancels late) := by
  refine h.invariant (I := fun tr s => ∃ late tr' a, Interleaving timeoutMax s₀ tr' a ∧
    Refines late a s.sys s.stopping ∧ SameButCancels tr (tr' ++ cancels late))
    ⟨[], [], s₀, .refl, .free rfl rfl, .refl _⟩ ?_
  rintro tr s ev s' - ⟨late, tr₁, a, hrun, href, horder⟩ hs
  obtain ⟨late', tr₂, a', hsim⟩ := href.step (h₀.trans hrun) hs
  refine ⟨late', tr₁ ++ tr₂, a', hrun.trans hsim.run, hsim.refines, ?_⟩
  have hlast := horder.append (SameOrder.refl ev.toList)
  rw [List.append_assoc] at hlast ⊢
  exact hlast.trans ((SameOrder.refl tr₁).append hsim.order)

omit [RichCompare O] [AddCommGroup T] in
/-- With the lock free nothing is missing. -/
theorem Refines.eq_of_free (h : Refines late a s none) : late = [] ∧ a = s := by
  cases h with
  | free hlate heq => exact ⟨hlate, heq⟩

/-- **`stop` takes place at once.** Let `stop` be executed line by line, with
the cancels of other threads and the moves of the worker between its lines,
and each call find a worker that is not in the `finally` of a synchronous
stop. A run that ends with the lock free is then one of the steps, in which
`stop` is a single move: to the same state and with the same events, where
at most the cancels are elsewhere. Whether anything raises makes no
difference. -/
theorem stop_atomic {now : T} {tr₀ tr : List (Event T O V)} {s : Locked T O V}
    (h₀ : Interleaving timeoutMax (Sys.new now) tr₀ s₀)
    (h : Run (LockedSteps timeoutMax) ⟨s₀, none⟩ tr s) (hfree : s.stopping = none) :
    ∃ tr', Interleaving timeoutMax s₀ tr' s.sys ∧ SameButCancels tr tr' := by
  obtain ⟨late, tr', a, hrun, href, horder⟩ := refines_of_run h₀ h
  rw [hfree] at href
  obtain ⟨rfl, rfl⟩ := href.eq_of_free
  exact ⟨tr', hrun, by simpa using horder⟩

/-! ## One synchronous stop -/

/-- No stop is requested after a synchronous one. -/
def EndsBySync (tr : List (Event T O V)) : Prop :=
  ∀ tr₁ sync tr₂, tr = tr₁ ++ .stopRequested sync :: tr₂ → .stopRequested true ∉ tr₁

omit [RichCompare O] [AddCommGroup T] [LinearOrder T] in
theorem EndsBySync.left (h : EndsBySync (tr ++ tr')) : EndsBySync tr := by
  rintro tr₁ sync tr₂ rfl
  exact h tr₁ sync (tr₂ ++ tr') (by simp)

/-- A thread is in `stop` and has not assigned the status. -/
def Locked.Requesting (s : Locked T O V) : Prop :=
  match s.stopping with
  | some (_, .counting _ _) | some (_, .storing _) | some (_, .choosing)
  | some (_, .assigning _) => True
  | _ => False

/-- It goes on until it does. -/
theorem Locked.Moved.requesting {s s' : Locked T O V} (hs : Locked.Moved timeoutMax s ev s')
    (h : s.Requesting) : s'.Requesting ∨ ∃ sync, ev = some (.stopRequested sync) := by
  cases hs with
  | free hstop | acquire hstop => simp [Locked.Requesting, hstop] at h
  | beside hstop hfree hs =>
    refine .inl ?_
    simpa [Locked.Requesting, hstop] using h
  | @next sync line hstop =>
    cases line with
    | counting todo count => cases todo <;> exact .inl trivial
    | storing | choosing => exact .inl trivial
    | assigning status => exact .inr ⟨sync, rfl⟩
    | notifying | releasing => simp [Locked.Requesting, hstop] at h

/-- A stop is begun by its first line. -/
theorem Locked.Moved.begun {s s' : Locked T O V} (hs : Locked.Moved timeoutMax s ev s')
    (hnone : s.stopping = none) (hsome : s'.stopping.isSome = true) : s'.Requesting := by
  cases hs with
  | free => cases hsome
  | acquire => trivial
  | beside hstop | next hstop =>
    rw [hnone] at hstop
    cases hstop

/-- Before the first synchronous stop the worker is quiet when the lock is free. -/
theorem quiet_of_lockedSteps {now : T} {s : Locked T O V}
    (h : Run (LockedSteps timeoutMax) ⟨Sys.new now, none⟩ tr s) (hfree : s.stopping = none)
    (hsync : .stopRequested true ∉ tr) : s.sys.Quiet := by
  obtain ⟨late, tr', a, hrun, href, horder⟩ := refines_of_run .refl h
  rw [hfree] at href
  obtain ⟨rfl, rfl⟩ := href.eq_of_free
  -- the same stops were requested in the run of the steps
  have hperm := horder.perm fun e he => by cases e <;> simp_all [Event.isCancel, Event.future?]
  exact quiet_of_run hrun fun hmem =>
    hsync (hperm.mem_iff.mpr (List.mem_append_left _ hmem))

/-- Where no stop follows a synchronous one, every stop finds the worker quiet. -/
theorem lockedSteps_of_run {now : T} {s : Locked T O V}
    (h : Run (StepOf (Locked.step timeoutMax)) ⟨Sys.new now, none⟩ tr s) (hsync : EndsBySync tr)
    (hreq : s.Requesting → .stopRequested true ∉ tr) :
    Run (LockedSteps timeoutMax) ⟨Sys.new now, none⟩ tr s := by
  refine h.invariant (I := fun tr s => EndsBySync tr → (s.Requesting → .stopRequested true ∉ tr) →
    Run (LockedSteps timeoutMax) ⟨Sys.new now, none⟩ tr s) (fun _ _ => .refl) ?_ hsync hreq
  rintro tr s ev s' - ih ⟨l, hl⟩ hsync hreq
  have hmoved := Locked.moved_of_step hl
  have hbefore : s.Requesting → .stopRequested true ∉ tr := by
    intro h hmem
    rcases hmoved.requesting h with h' | ⟨sync, rfl⟩
    · exact hreq h' (List.mem_append_left _ hmem)
    · exact hsync tr sync [] rfl hmem
  have hrun := ih hsync.left hbefore
  refine hrun.step ⟨⟨l, hl⟩, fun hnone hsome => ?_⟩
  have hfree : s.stopping = none := Option.isNone_iff_eq_none.mp hnone
  refine quiet_of_lockedSteps hrun hfree fun hmem => ?_
  exact hreq (hmoved.begun hfree hsome) (List.mem_append_left _ hmem)

/-- **One synchronous stop takes place at once.** In a run from a new executor
in which no stop is requested after a synchronous one, every `stop` finds the
worker quiet. So what the steps do with `stop` as a single move, the executor
does with `stop` line by line. -/
theorem stop_once_atomic {now : T} {s : Locked T O V}
    (h : Run (StepOf (Locked.step timeoutMax)) ⟨Sys.new now, none⟩ tr s) (hsync : EndsBySync tr)
    (hfree : s.stopping = none) :
    ∃ tr', Interleaving timeoutMax (Sys.new now) tr' s.sys ∧ SameButCancels tr tr' := by
  have hquiet := lockedSteps_of_run h hsync (by simp [Locked.Requesting, hfree])
  obtain ⟨late, tr', a, hrun, href, horder⟩ := refines_of_run .refl hquiet
  rw [hfree] at href
  obtain ⟨rfl, rfl⟩ := href.eq_of_free
  exact ⟨tr', hrun, by simpa using horder⟩

end Refinement

/-! ## Cancels between the lines -/

/-- One task is executed and two are queued when `stop` is called. The first
of the two is cancelled after its future was asked, the second before, and
the executed one ends before the status is assigned. -/
def cancelledBetween : Locked ℤ Callable ℕ × List (Event ℤ Callable ℕ) :=
  outcome (guarded (Locked.step 100) Locked.StopsQuietly) ⟨Sys.new 0, none⟩
    [(0, .act .start), (0, .act .enterRun), (0, .act (.schedule 0 0 ⟨0⟩ [] [])),
      (1, .act (.turn 1)), (1, .act .take), (2, .act (.schedule 0 0 ⟨1⟩ [] [])),
      (2, .act (.schedule 0 0 ⟨2⟩ [] [])), (3, .act (.stop true)), (3, .line),
      (4, .act (.cancel 1)), (4, .act (.cancel 2)), (4, .line), (4, .line),
      (5, .act (.finish (.result 7))), (5, .line), (5, .act .settle), (5, .line), (5, .line),
      (5, .line), (5, .line)] (by decide)

theorem stop_atomic_cancelledBetween :
    cancelledBetween.1.sys.executor.tasksToFinish = 1 ∧
      (∀ t ∈ cancelledBetween.1.sys.queue, cancelledBetween.1.sys.isCancelled t.future = true) ∧
      ∃ tr', Interleaving 100 (Sys.new 0) tr' cancelledBetween.1.sys ∧
        SameButCancels cancelledBetween.2 tr' := by
  have hrun : Run (LockedSteps 100) ⟨Sys.new 0, none⟩ cancelledBetween.2 cancelledBetween.1 :=
    run_guarded_outcome _ _ _ _ _
  exact ⟨by decide, by decide, stop_atomic .refl hrun (by decide)⟩

end PyLwip
