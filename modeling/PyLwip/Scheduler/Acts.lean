import PyLwip.Scheduler.Order

/-!
# The acts of an executor's worker and of its callers

A step of the executor is an act of the worker or of another thread. What it
emits says which: a call of `schedule_delayed` emits what became of it, and
an action starts by the worker's `take` and ends by its `finish`.
-/

namespace PyLwip

variable {T V : Type}

/-- The moves of a worker. -/
def Act.byWorker {O : Type} : Act T O V → Bool
  | .enterRun | .turn _ | .take | .finish _ | .settle | .load | .store => true
  | _ => false

/-- The thread of a worker has ended, and `join` returns. -/
def Worker.ended {O : Type} : Worker T O → Bool
  | .returned | .crashed _ => true
  | _ => false

/-- A worker whose thread has ended does not begin again. -/
theorem Transition.ended {O : Type} [RichCompare O] [AddCommGroup T] [LinearOrder T]
    {timeoutMax : T} {s s' : Sys T O V} {ev : Option (Event T O V)}
    (hs : Transition timeoutMax s ev s') (h : s.worker.ended = true) : s'.worker.ended = true := by
  cases hs with
  | rejected | cancel | scheduleRaised => exact h
  | accepted | stop => cases hb : s.worker <;> simp_all [Worker.notify, Worker.ended]
  | leave | timeout | popRaised | takeRaised | completeRaised => rfl
  | wait _ hw | pop _ _ hw => cases hb : s.worker <;> simp_all [Worker.atTurn, Worker.ended]
  | start _ hw | enterRun _ hw | invoke _ hw | skip _ hw | complete _ hw | settleSync _ hw
  | settle _ hw | load _ hw | store _ hw =>
    simp [hw, Worker.ended] at h

/-! ## What they emit -/

namespace Event

variable {O : Type}

/-- The end of a call of `schedule_delayed`. -/
def isCall : Event T O V → Bool
  | .accepted _ _ | .rejected | .scheduleRaised _ _ => true
  | _ => false

theorem invoked?_of_isCall {e : Event T O V} (h : e.isCall = true) : e.invoked? = none := by
  cases e <;> simp_all [isCall, invoked?]

/-- An event of a worker's move. -/
def ofWorker : Event T O V → Bool
  | .entered | .popped _ | .skipped _ | .invoked _ _ | .completed _ _ | .settled _ | .returned
  | .crashed _ => true
  | _ => false

/-- The end of a call of `schedule_delayed` with these arguments. -/
structure Calls (e : Event T O V) (delay : T) (action : O) (args : List O) : Prop where
  isCall : e.isCall = true
  delay : ∀ d ∈ e.delay?, d = delay
  pushed : ∀ t ∈ e.pushed?, t.priority = 0 ∧ t.action = action ∧ t.args = args

/-- An event of the worker's move `a`: an action starts by `take` alone, and
ends by `finish` alone and with its outcome. -/
structure EmittedBy (e : Event T O V) (a : Act T O V) : Prop where
  ofWorker : e.ofWorker = true
  invoked : a ≠ .take → e.invoked? = none
  completed : ∀ t o, e = .completed t o → a = .finish o

end Event

section Acts

variable {O : Type} [RichCompare O] [AddCommGroup T] [LinearOrder T] {timeoutMax r : T}
  {s s' : Sys T O V} {ev : Option (Event T O V)}

/-- What a call of `schedule_delayed` comes to. -/
theorem calls_of_step {delay : T} {action : O} {args : List O}
    (h : Sys.step timeoutMax s (r, .schedule delay 0 action args []) = some (s', ev)) :
    ∃ e, ev = some e ∧ e.Calls delay action args := by
  unfold Sys.step at h
  split at h
  · simp only [Sys.act, Sys.schedule, Executor.scheduleDelayed, Option.some.injEq,
      Prod.mk.injEq] at h
    obtain ⟨-, rfl⟩ := h
    refine ⟨_, rfl, ?_⟩
    by_cases hst : s.executor.status = .stopped ∨ s.executor.status = .stoppedSync
    · simp only [if_pos hst]
      exact ⟨rfl, by simp [Event.delay?], by simp [Event.pushed?]⟩
    · simp only [if_neg hst]
      cases hpush : s.executor.tasks.scheduleTask ⟨r + delay, 0, action, args, [], s.nextFuture⟩
        with
      | mk q out =>
        cases out with
        | ok => exact ⟨rfl, by simp [Event.delay?], by simp [Event.pushed?]⟩
        | error x => exact ⟨rfl, by simp [Event.delay?], by simp [Event.pushed?]⟩
  · cases h

theorem emitted_of_turn {p : T} {e : Event T O V} (h : (s.turn timeoutMax p).2 = some e) :
    e.EmittedBy (.turn p) := by
  unfold Sys.turn at h
  split at h
  · obtain rfl := Option.some.inj h
    exact ⟨rfl, fun _ => rfl, by simp⟩
  · cases h
  · split at h
    · obtain rfl := Option.some.inj h
      exact ⟨rfl, fun _ => rfl, by simp⟩
    · cases h
  · split at h
    · obtain rfl := Option.some.inj h
      exact ⟨rfl, fun _ => rfl, by simp⟩
    · obtain rfl := Option.some.inj h
      exact ⟨rfl, fun _ => rfl, by simp⟩

omit [RichCompare O] [AddCommGroup T] [LinearOrder T] in
theorem emitted_of_take {task : Task T O} {rest : List (Task T O)} :
    (s.take task rest).2.EmittedBy .take := by
  unfold Sys.take
  split <;> exact ⟨rfl, fun h => absurd rfl h, by simp⟩

omit [RichCompare O] [AddCommGroup T] [LinearOrder T] in
theorem emitted_of_finish {o : Outcome V} {task : Task T O} {rest : List (Task T O)} :
    (s.finish o task rest).2.EmittedBy (.finish o) := by
  unfold Sys.finish
  split
  · exact ⟨rfl, fun _ => rfl, by simp⟩
  · exact ⟨rfl, fun _ => rfl, by simp⟩

/-- **What a worker's move emits.** -/
theorem emitted_of_act {a : Act T O V} {e : Event T O V}
    (h : Sys.act timeoutMax s a = some (s', some e)) (ha : a.byWorker = true) :
    e.EmittedBy a := by
  cases a with
  | start | schedule | cancel | stop => cases ha
  | enterRun =>
    simp only [Sys.act] at h
    split at h
    · cases h
      exact ⟨rfl, fun _ => rfl, by simp⟩
    · cases h
  | settle =>
    simp only [Sys.act] at h
    split at h
    · split at h <;>
      · cases h
        exact ⟨rfl, fun _ => rfl, by simp⟩
    · cases h
  | load | store =>
    simp only [Sys.act] at h
    split at h <;> cases h
  | turn p =>
    simp only [Sys.act] at h
    split at h
    · split at h
      · exact emitted_of_turn (congrArg Prod.snd (Option.some.inj h))
      · exact emitted_of_turn (congrArg Prod.snd (Option.some.inj h))
      · cases h
    · cases h
  | take =>
    simp only [Sys.act] at h
    split at h
    · cases h
      exact emitted_of_take
    · cases h
  | finish o =>
    simp only [Sys.act] at h
    split at h
    · cases h
      exact emitted_of_finish
    · cases h

theorem emitted_of_step {a : Act T O V} {e : Event T O V}
    (h : Sys.step timeoutMax s (r, a) = some (s', some e)) (ha : a.byWorker = true) :
    e.EmittedBy a := by
  unfold Sys.step at h
  split at h
  · exact emitted_of_act h ha
  · cases h

/-- The moves that always emit, and what. -/
theorem emits_of_step {a : Act T O V} (h : Sys.step timeoutMax s (r, a) = some (s', ev)) :
    match a with
    | .start => ev = some .launched
    | .cancel m => ∃ b, ev = some (.cancelled m b)
    | .stop sync => ev = some (.stopRequested sync)
    | .take | .finish _ => ∃ e, ev = some e
    | _ => True := by
  unfold Sys.step at h
  split at h
  · cases a with
    | start | take | finish o =>
      simp only [Sys.act] at h
      split at h
      · cases h
        simp
      · cases h
    | cancel m =>
      simp only [Sys.act] at h
      split at h
      · cases h
        exact ⟨_, rfl⟩
      · cases h
    | stop sync =>
      cases h
      rfl
    | _ => trivial
  · cases h

/-- A fresh future is numbered by the counter, which never goes back. -/
theorem Transition.nextFuture (hs : Transition timeoutMax s ev s') :
    s.nextFuture ≤ s'.nextFuture ∧
      ∀ t, ev.bind Event.accepted? = some t → t.future = s.nextFuture ∧
        s'.nextFuture = s.nextFuture + 1 := by
  cases hs with
  | accepted hr hst htime hfut =>
    refine ⟨Nat.le_succ _, fun t ht => ?_⟩
    cases ht
    exact ⟨hfut, rfl⟩
  | scheduleRaised => exact ⟨Nat.le_succ _, fun t ht => by cases ht⟩
  | _ => exact ⟨le_rfl, fun t ht => by cases ht⟩

end Acts

end PyLwip
