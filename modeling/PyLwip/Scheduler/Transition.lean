import PyLwip.Common.Run
import PyLwip.Scheduler.Executor

/-!
# What one step of the executor can do

`Transition` lists the moves of `Sys.step` with their guards and effects,
and `transition_of_step` says that there are no others. Every invariant of
the executor is proved by cases on it; nothing after this file unfolds
`step`.
-/

namespace PyLwip

open EventSystem

variable {T O V : Type}

/-- The loop of `run` leaves at its next turn. -/
def Executor.Leaves (e : Executor T O) : Prop :=
  e.status = .stopped ∨
    e.status = .stoppedSync ∧ (e.tasks.getTasks = [] ∨ e.tasksToFinish = 0)

/-- The worker is about to take the lock for a turn of the loop. -/
def Worker.atTurn : Worker T O → Bool
  | .batch [] | .waiting _ _ => true
  | _ => false

theorem Worker.rest_of_atTurn {w : Worker T O} (h : w.atTurn = true) : w.rest = [] := by
  cases w with
  | batch r => cases r <;> simp_all [atTurn, rest]
  | executing | settling | subtracting | storing => simp [atTurn] at h
  | _ => rfl

theorem Worker.current_of_atTurn {w : Worker T O} (h : w.atTurn = true) : w.current = [] := by
  cases w with
  | executing => simp [atTurn] at h
  | _ => rfl

@[simp] theorem Worker.rest_notify (w : Worker T O) : w.notify.rest = w.rest := by
  cases w <;> rfl

@[simp] theorem Worker.current_notify (w : Worker T O) : w.notify.current = w.current := by
  cases w <;> rfl

namespace Executor

variable [LinearOrder T] [AddCommGroup T]

/-- The turns of the loop: it leaves, or there is nothing to wait for, or
the root of the heap is due, or it is not. -/
theorem waitForTaskToProcess_cases (now : T) (e : Executor T O) :
    (e.Leaves ∧ e.waitForTaskToProcess now = ({ e with status := .stopped }, .leave)) ∨
    (¬ e.Leaves ∧ e.tasks.queue[0]? = none ∧ e.waitForTaskToProcess now = (e, .wait none)) ∨
    (¬ e.Leaves ∧ ∃ root, e.tasks.queue[0]? = some root ∧ root.absTime - now ≤ 0 ∧
      e.waitForTaskToProcess now = (e, .process)) ∨
    (¬ e.Leaves ∧ ∃ root, e.tasks.queue[0]? = some root ∧ ¬ root.absTime - now ≤ 0 ∧
      e.waitForTaskToProcess now = (e, .wait (some (root.absTime - now)))) := by
  unfold waitForTaskToProcess
  by_cases hst : e.status = .stopped
  · refine .inl ⟨.inl hst, ?_⟩
    rw [if_pos hst]
    cases e
    simp_all
  rw [if_neg hst]
  by_cases hsync : (e.tasks.empty = true ∨ e.tasksToFinish = 0) ∧ e.status = .stoppedSync
  · refine .inl ⟨.inr ⟨hsync.2, hsync.1.imp_left TaskQueue.empty_iff.mp⟩, ?_⟩
    rw [if_pos hsync]
  have hgo : ¬ e.Leaves := by
    rintro (h | ⟨h, h'⟩)
    · exact hst h
    · exact hsync ⟨h'.imp_left TaskQueue.empty_iff.mpr, h⟩
  rw [if_neg hsync, TaskQueue.getTimeTillNextTask]
  cases hroot : e.tasks.queue[0]? with
  | none => exact .inr (.inl ⟨hgo, rfl, rfl⟩)
  | some root =>
    by_cases hdue : root.absTime - now ≤ 0
    · exact .inr (.inr (.inl ⟨hgo, root, rfl, hdue, by simp [hdue]⟩))
    · exact .inr (.inr (.inr ⟨hgo, root, rfl, hdue, by simp [hdue]⟩))

end Executor

/-- **The moves of the system**, at the clock reading `r`. -/
inductive Transition [RichCompare O] [AddCommGroup T] [LinearOrder T] (timeoutMax : T)
    (s : Sys T O V) : Option (Event T O V) → Sys T O V → Prop
  | start {r : T} (hr : s.now ≤ r) (hw : s.worker = .unborn) :
      Transition timeoutMax s (some .launched) { s with now := r, worker := .launched }
  | rejected {r : T} (hr : s.now ≤ r) (hst : s.executor.status ≠ .running) :
      Transition timeoutMax s (some .rejected) { s with now := r }
  | accepted {r delay : T} {task : Task T O} {q : TaskQueue T O} (hr : s.now ≤ r)
      (hst : s.executor.status = .running) (htime : task.absTime = r + delay)
      (hfut : task.future = s.nextFuture)
      (hpush : s.executor.tasks.scheduleTask task = (q, .ok ())) :
      Transition timeoutMax s (some (.accepted delay task))
        { s with
          now := r, executor := { s.executor with tasks := q },
          nextFuture := s.nextFuture + 1, worker := s.worker.notify }
  | scheduleRaised {r delay : T} {task : Task T O} {q : TaskQueue T O} {x : PyError}
      (hr : s.now ≤ r) (hst : s.executor.status = .running)
      (htime : task.absTime = r + delay) (hfut : task.future = s.nextFuture)
      (hpush : s.executor.tasks.scheduleTask task = (q, .error x)) :
      Transition timeoutMax s (some (.scheduleRaised task x))
        { s with
          now := r, executor := { s.executor with tasks := q },
          nextFuture := s.nextFuture + 1 }
  | cancel {r : T} {n : ℕ} (hr : s.now ≤ r) (hn : n < s.nextFuture) :
      Transition timeoutMax s (some (.cancelled n (s.future n).cancel.2))
        { s with now := r, future := Function.update s.future n (s.future n).cancel.1 }
  | stop {r : T} {sync : Bool} (hr : s.now ≤ r) :
      Transition timeoutMax s (some (.stopRequested sync))
        { s with
          now := r, executor := s.executor.stop s.isCancelled sync, worker := s.worker.notify }
  | enterRun {r : T} (hr : s.now ≤ r) (hw : s.worker = .launched) :
      Transition timeoutMax s (some .entered)
        { s with now := r, executor := s.executor.enterRun, worker := .batch [] }
  | leave {r : T} (hr : s.now ≤ r) (hw : s.worker.atTurn = true) (hl : s.executor.Leaves) :
      Transition timeoutMax s (some .returned)
        { s with now := r, executor := { s.executor with status := .stopped }, worker := .returned }
  | wait {r : T} (hr : s.now ≤ r) (hw : s.worker.atTurn = true) (hl : ¬ s.executor.Leaves)
      (hroot : ∀ t, s.executor.tasks.queue[0]? = some t →
        ¬ t.absTime - r ≤ 0 ∧ ¬ timeoutMax < t.absTime - r) :
      Transition timeoutMax s none
        { s with
          now := r
          worker := .waiting (s.executor.tasks.queue[0]?.map Task.absTime) false }
  | timeout {r : T} {root : Task T O} (hr : s.now ≤ r) (hw : s.worker.atTurn = true)
      (hl : ¬ s.executor.Leaves) (hroot : s.executor.tasks.queue[0]? = some root)
      (hdue : ¬ root.absTime - r ≤ 0) (hmax : timeoutMax < root.absTime - r) :
      Transition timeoutMax s (some (.crashed .timeout))
        { s with now := r, worker := .crashed .timeout }
  | pop {r p : T} {root : Task T O} {q : TaskQueue T O} {tasks : List (Task T O)}
      (hr : s.now ≤ r) (hp : r ≤ p) (hw : s.worker.atTurn = true) (hl : ¬ s.executor.Leaves)
      (hroot : s.executor.tasks.queue[0]? = some root) (hdue : root.absTime - r ≤ 0)
      (hpop : s.executor.tasks.popTasksTillTimestamp p = (q, .ok tasks)) :
      Transition timeoutMax s (some (.popped tasks))
        { s with now := p, executor := { s.executor with tasks := q }, worker := .batch tasks }
  | popRaised {r p : T} {q : TaskQueue T O} {x : PyError} (hr : s.now ≤ r) (hp : r ≤ p)
      (hw : s.worker.atTurn = true) (hl : ¬ s.executor.Leaves)
      (hpop : s.executor.tasks.popTasksTillTimestamp p = (q, .error x)) :
      Transition timeoutMax s (some (.crashed (.comparison x)))
        { s with
          now := p, executor := { s.executor with tasks := q },
          worker := .crashed (.comparison x) }
  | invoke {r : T} {task : Task T O} {rest : List (Task T O)} (hr : s.now ≤ r)
      (hw : s.worker = .batch (task :: rest)) (hf : s.future task.future = .pending) :
      Transition timeoutMax s (some (.invoked task r))
        { s with
          now := r, future := Function.update s.future task.future .running,
          worker := .executing task rest }
  | skip {r : T} {task : Task T O} {rest : List (Task T O)} (hr : s.now ≤ r)
      (hw : s.worker = .batch (task :: rest)) (hf : s.future task.future = .cancelled) :
      Transition timeoutMax s (some (.skipped task))
        { s with
          now := r, future := Function.update s.future task.future .cancelledAndNotified,
          worker := .batch rest }
  | takeRaised {r : T} {task : Task T O} {rest : List (Task T O)} {x : PyError} (hr : s.now ≤ r)
      (hw : s.worker = .batch (task :: rest)) (hp : s.future task.future ≠ .pending)
      (hc : s.future task.future ≠ .cancelled) :
      Transition timeoutMax s (some (.crashed (.future x)))
        { s with now := r, worker := .crashed (.future x) }
  | complete {r : T} {o : Outcome V} {task : Task T O} {rest : List (Task T O)} (hr : s.now ≤ r)
      (hw : s.worker = .executing task rest) :
      Transition timeoutMax s (some (.completed task o))
        { s with
          now := r, future := Function.update s.future task.future (.finished o),
          worker := .settling task rest }
  | completeRaised {r : T} {task : Task T O} {rest : List (Task T O)} {x : PyError}
      (hr : s.now ≤ r) (hw : s.worker = .executing task rest)
      (hf : s.future task.future ≠ .running) :
      Transition timeoutMax s (some (.crashed (.future x)))
        { s with now := r, worker := .crashed (.future x) }
  | settleSync {r : T} {task : Task T O} {rest : List (Task T O)} (hr : s.now ≤ r)
      (hw : s.worker = .settling task rest) (hst : s.executor.status = .stoppedSync) :
      Transition timeoutMax s (some (.settled task))
        { s with now := r, worker := .subtracting rest }
  | settle {r : T} {task : Task T O} {rest : List (Task T O)} (hr : s.now ≤ r)
      (hw : s.worker = .settling task rest) (hst : s.executor.status ≠ .stoppedSync) :
      Transition timeoutMax s (some (.settled task)) { s with now := r, worker := .batch rest }
  | load {r : T} {rest : List (Task T O)} (hr : s.now ≤ r) (hw : s.worker = .subtracting rest) :
      Transition timeoutMax s none
        { s with now := r, worker := .storing (s.executor.tasksToFinish - 1) rest }
  | store {r : T} {value : ℤ} {rest : List (Task T O)} (hr : s.now ≤ r)
      (hw : s.worker = .storing value rest) :
      Transition timeoutMax s none
        { s with
          now := r, executor := { s.executor with tasksToFinish := value }
          worker := .batch rest }

section Inversion

variable [RichCompare O] [AddCommGroup T] [LinearOrder T] {timeoutMax : T}

theorem transition_of_schedule {s : Sys T O V} {r delay : T} {priority : ℤ} {action : O}
    {args : List O} {kwargs : List (String × O)} (hr : s.now ≤ r) :
    Transition timeoutMax s
      (some (({ s with now := r } : Sys T O V).schedule delay priority action args kwargs).2)
      (({ s with now := r } : Sys T O V).schedule delay priority action args kwargs).1 := by
  simp only [Sys.schedule, Executor.scheduleDelayed]
  by_cases hst : s.executor.status = .stopped ∨ s.executor.status = .stoppedSync
  · simp only [if_pos hst]
    exact .rejected hr (by rcases hst with h | h <;> simp [h])
  · have hrun : s.executor.status = .running := by
      cases h : s.executor.status <;> simp_all
    simp only [if_neg hst]
    cases hpush : s.executor.tasks.scheduleTask
        ⟨r + delay, priority, action, args, kwargs, s.nextFuture⟩ with
    | mk q out =>
      cases out with
      | ok u => exact .accepted hr hrun rfl rfl hpush
      | error x => exact .scheduleRaised hr hrun rfl rfl hpush

theorem transition_of_turn {s : Sys T O V} {r p : T} (hr : s.now ≤ r) (hp : r ≤ p)
    (hw : s.worker.atTurn = true) :
    Transition timeoutMax s (({ s with now := r } : Sys T O V).turn timeoutMax p).2
      (({ s with now := r } : Sys T O V).turn timeoutMax p).1 := by
  simp only [Sys.turn]
  rcases s.executor.waitForTaskToProcess_cases r with
    ⟨hl, h⟩ | ⟨hl, hroot, h⟩ | ⟨hl, root, hroot, hdue, h⟩ | ⟨hl, root, hroot, hdue, h⟩
  · rw [h]
    exact .leave hr hw hl
  · rw [h]
    have hwait : Transition timeoutMax s _ _ := .wait hr hw hl (by simp [hroot])
    rwa [hroot] at hwait
  · rw [h]
    simp only [Executor.popExpiredTasks]
    cases hpop : s.executor.tasks.popTasksTillTimestamp p with
    | mk q out =>
      cases out with
      | ok tasks => exact .pop hr hp hw hl hroot hdue hpop
      | error x => exact .popRaised hr hp hw hl hpop
  · rw [h]
    by_cases hmax : timeoutMax < root.absTime - r
    · simp only [if_pos hmax]
      exact .timeout hr hw hl hroot hdue hmax
    · simp only [if_neg hmax]
      have hwait : Transition timeoutMax s _ _ := .wait hr hw hl fun t ht => by
        obtain rfl : root = t := Option.some.inj (hroot.symm.trans ht)
        exact ⟨hdue, hmax⟩
      rw [hroot] at hwait
      simpa using hwait

theorem transition_of_take {s : Sys T O V} {r : T} {task : Task T O} {rest : List (Task T O)}
    (hr : s.now ≤ r) (hw : s.worker = .batch (task :: rest)) :
    Transition timeoutMax s (some (({ s with now := r } : Sys T O V).take task rest).2)
      (({ s with now := r } : Sys T O V).take task rest).1 := by
  simp only [Sys.take]
  cases hf : s.future task.future with
  | pending => exact .invoke hr hw hf
  | cancelled => exact .skip hr hw hf
  | running | cancelledAndNotified | finished o =>
    exact .takeRaised hr hw (by simp [hf]) (by simp [hf])

theorem transition_of_finish {s : Sys T O V} {r : T} {o : Outcome V} {task : Task T O}
    {rest : List (Task T O)} (hr : s.now ≤ r) (hw : s.worker = .executing task rest) :
    Transition timeoutMax s (some (({ s with now := r } : Sys T O V).finish o task rest).2)
      (({ s with now := r } : Sys T O V).finish o task rest).1 := by
  simp only [Sys.finish]
  cases hf : s.future task.future with
  | pending | running => exact .complete hr hw
  | cancelled | cancelledAndNotified | finished o =>
    exact .completeRaised hr hw (by simp [hf])

/-- **There are no other moves.** -/
theorem transition_of_step {s s' : Sys T O V} {l : T × Act T O V} {ev : Option (Event T O V)}
    (h : Sys.step timeoutMax s l = some (s', ev)) : Transition timeoutMax s ev s' := by
  obtain ⟨r, a⟩ := l
  unfold Sys.step at h
  split at h
  · next hr =>
    cases a with
    | start =>
      simp only [Sys.act] at h
      split at h
      · next hw => cases h; exact .start hr hw
      · cases h
    | schedule => cases h; exact transition_of_schedule hr
    | cancel n =>
      simp only [Sys.act] at h
      split at h
      · next hn => cases h; exact .cancel hr hn
      · cases h
    | stop sync => cases h; exact .stop hr
    | enterRun =>
      simp only [Sys.act] at h
      split at h
      · next hw => cases h; exact .enterRun hr hw
      · cases h
    | turn p =>
      simp only [Sys.act] at h
      split at h
      · next hp =>
        have hturn : ∀ {w}, s.worker = w → w.atTurn = true →
            some (({ s with now := r } : Sys T O V).turn timeoutMax p) = some (s', ev) →
            Transition timeoutMax s ev s' := fun hw hat h => by
          obtain ⟨rfl, rfl⟩ := Prod.mk.inj (Option.some.inj h)
          exact transition_of_turn hr hp (hw ▸ hat)
        split at h
        · next hw => exact hturn hw rfl h
        · next hw => exact hturn hw rfl h
        · cases h
      · cases h
    | take =>
      simp only [Sys.act] at h
      split at h
      · next hw => cases h; exact transition_of_take hr hw
      · cases h
    | finish o =>
      simp only [Sys.act] at h
      split at h
      · next hw => cases h; exact transition_of_finish hr hw
      · cases h
    | settle =>
      simp only [Sys.act] at h
      split at h
      · next hw =>
        split at h
        · next hst => cases h; exact .settleSync hr hw hst
        · next hst => cases h; exact .settle hr hw hst
      · cases h
    | load =>
      simp only [Sys.act] at h
      split at h
      · next hw => cases h; exact .load hr hw
      · cases h
    | store =>
      simp only [Sys.act] at h
      split at h
      · next hw => cases h; exact .store hr hw
      · cases h
  · cases h

/-- **An action ends by the worker's `finish`** alone, and with its outcome. -/
theorem finish_of_completed {s s' : Sys T O V} {r : T} {a : Act T O V} {t : Task T O}
    {o : Outcome V} (h : Sys.step timeoutMax s (r, a) = some (s', some (.completed t o))) :
    a = .finish o ∧ ∃ rest, s.worker = .executing t rest := by
  obtain ⟨rest, hw⟩ : ∃ rest, s.worker = .executing t rest := by
    cases transition_of_step h with
    | complete hr hw => exact ⟨_, hw⟩
  refine ⟨?_, rest, hw⟩
  unfold Sys.step at h
  split at h
  · -- a worker that executes has no other move, and the callers emit something else
    cases a with
    | finish o' =>
      simp only [Sys.act, hw, Option.some.injEq, Sys.finish] at h
      split at h <;> cases h
      rfl
    | schedule =>
      simp only [Sys.act, Sys.schedule, Executor.scheduleDelayed, Option.some.injEq] at h
      split at h
      · cases h
      · cases h
      · cases h
    | cancel n =>
      simp only [Sys.act] at h
      split at h <;> cases h
    | stop => cases h
    | turn p =>
      simp only [Sys.act, hw] at h
      split at h <;> cases h
    | start | enterRun | take | settle | load | store => simp [Sys.act, hw] at h
  · cases h

/-- **A turn of the loop returns exactly where the loop leaves.** -/
theorem returned_iff_of_turn {s s' : Sys T O V} {r p : T} {ev : Option (Event T O V)}
    (h : Sys.step timeoutMax s (r, .turn p) = some (s', ev)) :
    s.worker.atTurn = true ∧
      (ev = some .returned ∧ s'.worker = .returned ↔ s.executor.Leaves) := by
  have hturn : s.worker.atTurn = true ∧
      ({ s with now := r } : Sys T O V).turn timeoutMax p = (s', ev) := by
    unfold Sys.step at h
    split at h
    · simp only [Sys.act] at h
      split at h
      · split at h
        · next hw => exact ⟨by simp [show s.worker = _ from hw, Worker.atTurn], Option.some.inj h⟩
        · next hw => exact ⟨by simp [show s.worker = _ from hw, Worker.atTurn], Option.some.inj h⟩
        · cases h
      · cases h
    · cases h
  obtain ⟨hat, heq⟩ := hturn
  refine ⟨hat, ?_⟩
  simp only [Sys.turn] at heq
  rcases s.executor.waitForTaskToProcess_cases r with
    ⟨hl, hwait⟩ | ⟨hl, -, hwait⟩ | ⟨hl, root, -, -, hwait⟩ | ⟨hl, root, -, -, hwait⟩
  · rw [hwait] at heq
    obtain ⟨rfl, rfl⟩ := Prod.mk.inj heq
    simp [hl]
  · rw [hwait] at heq
    obtain ⟨rfl, rfl⟩ := Prod.mk.inj heq
    simp [hl]
  · -- the pop returns or raises
    rw [hwait] at heq
    simp only at heq
    split at heq <;>
    · obtain ⟨rfl, rfl⟩ := Prod.mk.inj heq
      simp [hl]
  · -- the timeout is refused, or the worker waits
    rw [hwait] at heq
    simp only at heq
    split at heq <;>
    · obtain ⟨rfl, rfl⟩ := Prod.mk.inj heq
      simp [hl]

end Inversion

/-- The clock does not go back. -/
theorem Transition.now_le [RichCompare O] [AddCommGroup T] [LinearOrder T] {timeoutMax : T}
    {s s' : Sys T O V} {ev : Option (Event T O V)} (hs : Transition timeoutMax s ev s') :
    s.now ≤ s'.now := by
  cases hs with
  | pop hr hp | popRaised hr hp => exact hr.trans hp
  | _ => assumption

/-- The steps of the executor. -/
abbrev Steps [RichCompare O] [AddCommGroup T] [LinearOrder T] (timeoutMax : T) :
    Sys T O V → Option (Event T O V) → Sys T O V → Prop :=
  StepOf (Sys.step timeoutMax)

/-- An interleaving of the executor's threads from `s` on. -/
abbrev Interleaving [RichCompare O] [AddCommGroup T] [LinearOrder T] (timeoutMax : T) :
    Sys T O V → List (Event T O V) → Sys T O V → Prop :=
  Run (Steps timeoutMax)

theorem Steps.transition [RichCompare O] [AddCommGroup T] [LinearOrder T] {timeoutMax : T}
    {s s' : Sys T O V} {ev : Option (Event T O V)} (h : Steps timeoutMax s ev s') :
    Transition timeoutMax s ev s' :=
  let ⟨_, hl⟩ := h
  transition_of_step hl

end PyLwip
