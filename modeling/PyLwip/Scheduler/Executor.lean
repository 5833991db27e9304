import PyLwip.Scheduler.TaskQueue

/-!
# The single-thread executor

`Executor` is the object: its queue, its status and the counter
`_tasks_to_finish`. The functions on it are the bodies the code runs while
it holds the condition's lock. `Sys` is the object with everything that
acts on it: the futures, the worker thread that executes `run`, and the
last clock reading.

`step` is one move of one thread at one clock reading. Code that holds the
lock is one move; so is a call of a future's method, which has a lock of
its own. The worker runs its batch with the lock released, so there every
access of the shared fields is a move: the read of the status in `finally`,
the read of the counter, and the write of the decremented value. Which
thread moves next, how long an action takes and what it returns or raises
is the label's choice, so that the runs of `step` are all interleavings.
-/

namespace PyLwip

variable {T O V : Type}

/-! ## Futures -/

/-- What an action left behind: its value or the exception it raised. -/
inductive Outcome (V : Type)
  | result (value : V)
  | exception (error : PyError)
deriving DecidableEq

/-- The states of `concurrent.futures.Future`. -/
inductive Future (V : Type)
  | pending
  | running
  | cancelled
  | cancelledAndNotified
  | finished (outcome : Outcome V)
deriving DecidableEq

namespace Future

/-- `cancelled()`. -/
def isCancelled : Future V → Bool
  | .cancelled | .cancelledAndNotified => true
  | _ => false

/-- `done()`. -/
def isDone : Future V → Bool
  | .cancelled | .cancelledAndNotified | .finished _ => true
  | _ => false

/-- `cancel()`: the future afterwards, and the value returned. -/
def cancel : Future V → Future V × Bool
  | .pending => (.cancelled, true)
  | .running => (.running, false)
  | .cancelled => (.cancelled, true)
  | .cancelledAndNotified => (.cancelledAndNotified, true)
  | .finished o => (.finished o, false)

/-- `set_running_or_notify_cancel()`. -/
def setRunningOrNotifyCancel : Future V → Except PyError (Future V × Bool)
  | .pending => .ok (.running, true)
  | .cancelled => .ok (.cancelledAndNotified, false)
  | _ => .error .runtimeError

/-- `set_result()` and `set_exception()`. -/
def set (o : Outcome V) : Future V → Except PyError (Future V)
  | .cancelled | .cancelledAndNotified | .finished _ => .error .invalidStateError
  | _ => .ok (.finished o)

end Future

/-! ## The executor -/

/-- `_statuses`. -/
inductive Status
  | running
  | stopped
  | stoppedSync
deriving DecidableEq

/-- The fields of `SingleThreadExecutor` other than the lock and the clock. -/
structure Executor (T O : Type) where
  tasks : TaskQueue T O
  status : Status
  tasksToFinish : ℤ

/-- What `schedule_delayed` did: it raised `Stopped`, a comparison raised in
the push, or it returned the task's future. -/
inductive Scheduled (T O : Type)
  | rejected
  | raised (task : Task T O) (error : PyError)
  | accepted (task : Task T O)

/-- What one turn of the loop in `_wait_for_task_to_process` comes to:
return `False`, return `True`, or wait, with no timeout if `delay` is
`none`. -/
inductive Turn (T : Type)
  | leave
  | process
  | wait (delay : Option T)
deriving DecidableEq

namespace Executor

/-- `__init__`. -/
def new : Executor T O := ⟨.new, .stopped, 0⟩

/-- The first block of `run`. -/
def enterRun (e : Executor T O) : Executor T O :=
  { e with tasksToFinish := 0, status := .running }

/-- The queued tasks that `stop` counts. -/
def countUncancelled (cancelled : ℕ → Bool) (e : Executor T O) : ℕ :=
  e.tasks.getTasks.countP fun t => !cancelled t.future

/-- `stop`. -/
def stop (cancelled : ℕ → Bool) (sync : Bool) (e : Executor T O) : Executor T O :=
  { e with
    tasksToFinish := e.countUncancelled cancelled
    status := if sync ∧ e.countUncancelled cancelled ≠ 0 then .stoppedSync else .stopped }

section Operations

variable [RichCompare O] [LinearOrder T]

/-- `schedule_delayed` at the clock reading `now`, with `future` the fresh
`Future()`. -/
def scheduleDelayed [Add T] (now : T) (future : ℕ) (delay : T) (priority : ℤ) (action : O)
    (args : List O) (kwargs : List (String × O)) (e : Executor T O) :
    Executor T O × Scheduled T O :=
  if e.status = .stopped ∨ e.status = .stoppedSync then (e, .rejected)
  else
    let task : Task T O := ⟨now + delay, priority, action, args, kwargs, future⟩
    match e.tasks.scheduleTask task with
    | (tasks, .ok _) => ({ e with tasks := tasks }, .accepted task)
    | (tasks, .error x) => ({ e with tasks := tasks }, .raised task x)

/-- One turn of the loop in `_wait_for_task_to_process`. -/
def waitForTaskToProcess [AddGroup T] (now : T) (e : Executor T O) : Executor T O × Turn T :=
  if e.status = .stopped then (e, .leave)
  else if (e.tasks.empty = true ∨ e.tasksToFinish = 0) ∧ e.status = .stoppedSync then
    ({ e with status := .stopped }, .leave)
  else
    match e.tasks.getTimeTillNextTask now with
    | none => (e, .wait none)
    | some delay => if delay ≤ 0 then (e, .process) else (e, .wait (some delay))

/-- The locked part of `_process_expired_tasks`. -/
def popExpiredTasks (now : T) (e : Executor T O) :
    Executor T O × Except PyError (List (Task T O)) :=
  let r := e.tasks.popTasksTillTimestamp now
  ({ e with tasks := r.1 }, r.2)

end Operations

end Executor

/-! ## The worker thread -/

/-- How `run` can end by an exception: a comparison in a pop, a timeout that
`Condition.wait` refuses, a future in an unexpected state. -/
inductive Crash
  | comparison (error : PyError)
  | timeout
  | future (error : PyError)
deriving DecidableEq

/-- Where the worker thread stands. `batch` is before the next task of the
batch, and with an empty rest before the lock is taken again for the next
turn of `run`. -/
inductive Worker (T O : Type)
  /-- The thread is not started. -/
  | unborn
  /-- `Thread.start` was called and `run` has not taken the lock yet. -/
  | launched
  | batch (rest : List (Task T O))
  /-- In `condition.wait`, with the deadline of its timeout. -/
  | waiting (deadline : Option T) (notified : Bool)
  /-- The action of `task` is running. -/
  | executing (task : Task T O) (rest : List (Task T O))
  /-- The future is set; `finally` has not read the status yet. -/
  | settling (task : Task T O) (rest : List (Task T O))
  /-- `finally` has read `StoppedSync`. -/
  | subtracting (rest : List (Task T O))
  /-- The counter is read, the decremented `value` not yet stored. -/
  | storing (value : ℤ) (rest : List (Task T O))
  | returned
  | crashed (cause : Crash)
deriving DecidableEq

namespace Worker

/-- The unprocessed rest of the current batch. -/
def rest : Worker T O → List (Task T O)
  | .batch r | .executing _ r | .settling _ r | .subtracting r | .storing _ r => r
  | _ => []

/-- The task whose action is running. -/
def current : Worker T O → List (Task T O)
  | .executing t _ => [t]
  | _ => []

/-- What a `notify` of the condition does to the worker. -/
def notify : Worker T O → Worker T O
  | .waiting d _ => .waiting d true
  | w => w

end Worker

/-! ## The system -/

/-- What an observer sees of a run. -/
inductive Event (T O V : Type)
  | launched
  | entered
  | accepted (delay : T) (task : Task T O)
  | rejected
  | scheduleRaised (task : Task T O) (error : PyError)
  | cancelled (future : ℕ) (returned : Bool)
  | stopRequested (sync : Bool)
  | popped (tasks : List (Task T O))
  | skipped (task : Task T O)
  | invoked (task : Task T O) (time : T)
  | completed (task : Task T O) (outcome : Outcome V)
  | settled (task : Task T O)
  | returned
  | crashed (cause : Crash)
deriving DecidableEq

/-- The executor, the futures of its tasks by identity, the worker thread,
and the last clock reading. -/
structure Sys (T O V : Type) where
  executor : Executor T O
  future : ℕ → Future V
  nextFuture : ℕ
  worker : Worker T O
  now : T

/-- A move of one thread. The first four are any thread's; the others are
the worker's. -/
inductive Act (T O V : Type)
  | start
  | schedule (delay : T) (priority : ℤ) (action : O) (args : List O) (kwargs : List (String × O))
  | cancel (future : ℕ)
  | stop (sync : Bool)
  /-- The first block of `run`. -/
  | enterRun
  /-- A turn of `_wait_for_task_to_process`; `popTime` is the reading that
  `_process_expired_tasks` takes after it. -/
  | turn (popTime : T)
  /-- The next task of the batch: `set_running_or_notify_cancel`, and the
  call of the action unless the future is cancelled. -/
  | take
  /-- The action returns or raises, and its future is set. -/
  | finish (outcome : Outcome V)
  /-- `finally` reads the status. -/
  | settle
  | load
  | store

namespace Sys

/-- A new executor, its thread not started. -/
def new (now : T) : Sys T O V := ⟨.new, fun _ => .pending, 0, .unborn, now⟩

/-- `cancelled()` of the future with the identity `n`. -/
def isCancelled (s : Sys T O V) (n : ℕ) : Bool := (s.future n).isCancelled

/-- The queued tasks. -/
def queue (s : Sys T O V) : List (Task T O) := s.executor.tasks.getTasks

variable [RichCompare O] [AddCommGroup T] [LinearOrder T]

/-- A client's call of `schedule_delayed`. The notify is issued after the
push, so a push that raises wakes nobody. -/
def schedule (delay : T) (priority : ℤ) (action : O) (args : List O) (kwargs : List (String × O))
    (s : Sys T O V) : Sys T O V × Event T O V :=
  match s.executor.scheduleDelayed s.now s.nextFuture delay priority action args kwargs with
  | (_, .rejected) => (s, .rejected)
  | (e, .raised task x) =>
    ({ s with executor := e, nextFuture := s.nextFuture + 1 }, .scheduleRaised task x)
  | (e, .accepted task) =>
    ({ s with executor := e, nextFuture := s.nextFuture + 1, worker := s.worker.notify },
      .accepted delay task)

/-- A turn of `run`'s loop, up to the release of the lock. -/
def turn (timeoutMax popTime : T) (s : Sys T O V) : Sys T O V × Option (Event T O V) :=
  match s.executor.waitForTaskToProcess s.now with
  | (e, .leave) => ({ s with executor := e, worker := .returned }, some .returned)
  | (e, .wait none) => ({ s with executor := e, worker := .waiting none false }, none)
  | (e, .wait (some delay)) =>
    if timeoutMax < delay then
      ({ s with executor := e, worker := .crashed .timeout }, some (.crashed .timeout))
    else
      ({ s with executor := e, worker := .waiting (some (s.now + delay)) false }, none)
  | (e, .process) =>
    match e.popExpiredTasks popTime with
    | (e', .ok tasks) =>
      ({ s with executor := e', worker := .batch tasks, now := popTime }, some (.popped tasks))
    | (e', .error x) =>
      ({ s with executor := e', worker := .crashed (.comparison x), now := popTime },
        some (.crashed (.comparison x)))

/-- The start of `_process_task`. -/
def take (task : Task T O) (rest : List (Task T O)) (s : Sys T O V) :
    Sys T O V × Event T O V :=
  match (s.future task.future).setRunningOrNotifyCancel with
  | .error x => ({ s with worker := .crashed (.future x) }, .crashed (.future x))
  | .ok (f, true) =>
    ({ s with future := Function.update s.future task.future f, worker := .executing task rest },
      .invoked task s.now)
  | .ok (f, false) =>
    ({ s with future := Function.update s.future task.future f, worker := .batch rest },
      .skipped task)

/-- The end of the action of `_process_task`. -/
def finish (outcome : Outcome V) (task : Task T O) (rest : List (Task T O)) (s : Sys T O V) :
    Sys T O V × Event T O V :=
  match (s.future task.future).set outcome with
  | .error x => ({ s with worker := .crashed (.future x) }, .crashed (.future x))
  | .ok f =>
    ({ s with future := Function.update s.future task.future f, worker := .settling task rest },
      .completed task outcome)

/-- A move, `none` where it is not enabled. -/
def act (timeoutMax : T) (s : Sys T O V) :
    Act T O V → Option (Sys T O V × Option (Event T O V))
  | .start =>
    match s.worker with
    | .unborn => some ({ s with worker := .launched }, some .launched)
    | _ => none
  | .schedule delay priority action args kwargs =>
    let r := s.schedule delay priority action args kwargs
    some (r.1, some r.2)
  | .cancel n =>
    if n < s.nextFuture then
      let r := (s.future n).cancel
      some ({ s with future := Function.update s.future n r.1 }, some (.cancelled n r.2))
    else none
  | .stop sync =>
    some ({ s with
      executor := s.executor.stop s.isCancelled sync, worker := s.worker.notify },
      some (.stopRequested sync))
  | .enterRun =>
    match s.worker with
    | .launched => some ({ s with executor := s.executor.enterRun, worker := .batch [] },
        some .entered)
    | _ => none
  | .turn popTime =>
    if s.now ≤ popTime then
      match s.worker with
      | .batch [] | .waiting _ _ => some (s.turn timeoutMax popTime)
      | _ => none
    else none
  | .take =>
    match s.worker with
    | .batch (task :: rest) =>
      let r := s.take task rest
      some (r.1, some r.2)
    | _ => none
  | .finish outcome =>
    match s.worker with
    | .executing task rest =>
      let r := s.finish outcome task rest
      some (r.1, some r.2)
    | _ => none
  | .settle =>
    match s.worker with
    | .settling task rest =>
      if s.executor.status = .stoppedSync then
        some ({ s with worker := .subtracting rest }, some (.settled task))
      else some ({ s with worker := .batch rest }, some (.settled task))
    | _ => none
  | .load =>
    match s.worker with
    | .subtracting rest =>
      some ({ s with worker := .storing (s.executor.tasksToFinish - 1) rest }, none)
    | _ => none
  | .store =>
    match s.worker with
    | .storing value rest =>
      some ({ s with
        executor := { s.executor with tasksToFinish := value }, worker := .batch rest }, none)
    | _ => none

/-- **A step**: a move at a clock reading, which is never less than the
last. -/
def step (timeoutMax : T) (s : Sys T O V) (l : T × Act T O V) :
    Option (Sys T O V × Option (Event T O V)) :=
  if s.now ≤ l.1 then act timeoutMax { s with now := l.1 } l.2 else none

end Sys

end PyLwip
