import PyLwip.Scheduler.Transition
import Mathlib.Data.List.Perm.Basic
import Mathlib.Data.List.Nodup

/-!
# No task is lost or duplicated

A pushed task is in the queue, in the rest of the batch, being executed, or
finished, and moves only forward: `Conserved` says so of a trace and the
state it leads to, together with what each place says about the task's
future. It survives everything but a comparison that raises in a pop, which
loses the tasks the pop had collected.
-/

namespace PyLwip

open EventSystem

variable {T O V : Type}

theorem Future.cancel_of_ne_pending {f : Future V} (h : f ≠ .pending) : f.cancel.1 = f := by
  cases f <;> simp_all [Future.cancel]

theorem Future.isCancelled_of_cancel {f : Future V} (h : f.cancel.2 = true) :
    f.cancel.1.isCancelled = true := by
  cases f <;> simp_all [Future.cancel, Future.isCancelled]

/-! ## What a trace says about tasks -/

namespace Event

/-- The task a push put into the queue; a push that raises leaves it there
too. -/
def pushed? : Event T O V → Option (Task T O)
  | .accepted _ t | .scheduleRaised t _ => some t
  | _ => none

/-- The task `schedule_delayed` returned a future for. -/
def accepted? : Event T O V → Option (Task T O)
  | .accepted _ t => some t
  | _ => none

/-- The task whose action was called. -/
def invoked? : Event T O V → Option (Task T O)
  | .invoked t _ => some t
  | _ => none

/-- The task whose action ended. -/
def completed? : Event T O V → Option (Task T O)
  | .completed t _ => some t
  | _ => none

/-- The task that is finished: skipped, or its action ended. -/
def finished? : Event T O V → Option (Task T O)
  | .skipped t | .completed t _ => some t
  | _ => none

/-- A comparison raised in a pop, and the worker's loop with it. -/
def popRaised : Event T O V → Bool
  | .crashed (.comparison _) => true
  | _ => false

/-- A comparison raised in a push. -/
def pushRaised : Event T O V → Bool
  | .scheduleRaised _ _ => true
  | _ => false

/-- An event that moves no task and cancels none. -/
def Neutral (e : Event T O V) : Prop :=
  e.pushed? = none ∧ e.invoked? = none ∧ e.finished? = none ∧ ∀ n, e ≠ .cancelled n true

theorem neutral_some {e : Event T O V} (hp : e.pushed? = none) (hi : e.invoked? = none)
    (hf : e.finished? = none) (hc : ∀ n, e ≠ .cancelled n true) : ∀ e' ∈ some e, e'.Neutral := by
  intro e' he
  obtain rfl : e = e' := by simpa using he
  exact ⟨hp, hi, hf, hc⟩

end Event

/-- The tasks that `f` reads off a trace, in order. -/
def seen (f : Event T O V → Option (Task T O)) (tr : List (Event T O V)) : List (Task T O) :=
  tr.filterMap f

@[simp] theorem seen_nil (f : Event T O V → Option (Task T O)) : seen f [] = [] := rfl

@[simp] theorem seen_snoc (f : Event T O V → Option (Task T O)) (tr : List (Event T O V))
    (e : Event T O V) : seen f (tr ++ [e]) = seen f tr ++ (f e).toList := by
  cases h : f e <;> simp [seen, h]

theorem seen_append (f : Event T O V → Option (Task T O)) (tr tr' : List (Event T O V)) :
    seen f (tr ++ tr') = seen f tr ++ seen f tr' :=
  List.filterMap_append

theorem mem_seen {f : Event T O V → Option (Task T O)} {tr : List (Event T O V)} {t : Task T O} :
    t ∈ seen f tr ↔ ∃ e ∈ tr, f e = some t :=
  List.mem_filterMap

abbrev pushedTasks (tr : List (Event T O V)) : List (Task T O) := seen Event.pushed? tr

abbrev acceptedTasks (tr : List (Event T O V)) : List (Task T O) := seen Event.accepted? tr

abbrev invokedTasks (tr : List (Event T O V)) : List (Task T O) := seen Event.invoked? tr

abbrev completedTasks (tr : List (Event T O V)) : List (Task T O) := seen Event.completed? tr

abbrev finishedTasks (tr : List (Event T O V)) : List (Task T O) := seen Event.finished? tr

/-- No comparison raised in a pop. -/
def PopsReturn (tr : List (Event T O V)) : Prop := ∀ e ∈ tr, e.popRaised = false

theorem PopsReturn.left {tr tr' : List (Event T O V)} (h : PopsReturn (tr ++ tr')) :
    PopsReturn tr := fun e he => h e (List.mem_append_left _ he)

theorem PopsReturn.ne_crashed {tr : List (Event T O V)} {ev : Option (Event T O V)}
    (h : PopsReturn (tr ++ ev.toList)) (x : PyError) : ev ≠ some (.crashed (.comparison x)) := by
  rintro rfl
  exact absurd (h (.crashed (.comparison x)) (by simp)) (by simp [Event.popRaised])

/-- No comparison raised in a push. -/
def PushesReturn (tr : List (Event T O V)) : Prop := ∀ e ∈ tr, e.pushRaised = false

theorem PushesReturn.left {tr tr' : List (Event T O V)} (h : PushesReturn (tr ++ tr')) :
    PushesReturn tr := fun e he => h e (List.mem_append_left _ he)

theorem PushesReturn.ne_raised {tr : List (Event T O V)} {ev : Option (Event T O V)}
    (h : PushesReturn (tr ++ ev.toList)) (t : Task T O) (x : PyError) :
    ev ≠ some (.scheduleRaised t x) := by
  rintro rfl
  exact absurd (h (.scheduleRaised t x) (by simp)) (by simp [Event.pushRaised])

/-- No comparison of the heap raised, in a push or in a pop. -/
def NoComparisonRaises (tr : List (Event T O V)) : Prop := PopsReturn tr ∧ PushesReturn tr

theorem NoComparisonRaises.left {tr tr' : List (Event T O V)}
    (h : NoComparisonRaises (tr ++ tr')) : NoComparisonRaises tr :=
  ⟨h.1.left, h.2.left⟩

instance (tr : List (Event T O V)) : Decidable (NoComparisonRaises tr) :=
  inferInstanceAs (Decidable ((∀ e ∈ tr, e.popRaised = false) ∧ ∀ e ∈ tr, e.pushRaised = false))

theorem pushedTasks_eq_accepted {tr : List (Event T O V)} (h : PushesReturn tr) :
    pushedTasks tr = acceptedTasks tr := by
  refine List.filterMap_congr fun e he => ?_
  cases e with
  | scheduleRaised t x => exact absurd (h _ he) (by simp [Event.pushRaised])
  | _ => rfl

theorem mem_finishedTasks {tr : List (Event T O V)} {t : Task T O} :
    t ∈ finishedTasks tr ↔ .skipped t ∈ tr ∨ ∃ o, .completed t o ∈ tr := by
  rw [mem_seen]
  constructor
  · rintro ⟨e, he, hf⟩
    cases e <;> simp only [Event.finished?, Option.some.injEq, reduceCtorEq] at hf
    · exact .inl (hf ▸ he)
    · exact .inr ⟨_, hf ▸ he⟩
  · rintro (h | ⟨o, h⟩)
    · exact ⟨_, h, rfl⟩
    · exact ⟨_, h, rfl⟩

theorem mem_acceptedTasks {tr : List (Event T O V)} {t : Task T O} :
    t ∈ acceptedTasks tr ↔ ∃ d, .accepted d t ∈ tr := by
  rw [mem_seen]
  constructor
  · rintro ⟨e, he, hf⟩
    cases e <;> simp only [Event.accepted?, Option.some.injEq, reduceCtorEq] at hf
    exact ⟨_, hf ▸ he⟩
  · rintro ⟨d, h⟩
    exact ⟨_, h, rfl⟩

theorem mem_invokedTasks {tr : List (Event T O V)} {t : Task T O} :
    t ∈ invokedTasks tr ↔ ∃ r, .invoked t r ∈ tr := by
  rw [mem_seen]
  constructor
  · rintro ⟨e, he, hf⟩
    cases e <;> simp only [Event.invoked?, Option.some.injEq, reduceCtorEq] at hf
    exact ⟨_, hf ▸ he⟩
  · rintro ⟨r, h⟩
    exact ⟨_, h, rfl⟩

theorem mem_completedTasks {tr : List (Event T O V)} {t : Task T O} :
    t ∈ completedTasks tr ↔ ∃ o, .completed t o ∈ tr := by
  rw [mem_seen]
  constructor
  · rintro ⟨e, he, hf⟩
    cases e <;> simp only [Event.completed?, Option.some.injEq, reduceCtorEq] at hf
    exact ⟨_, hf ▸ he⟩
  · rintro ⟨o, h⟩
    exact ⟨_, h, rfl⟩

theorem completedTasks_sublist (tr : List (Event T O V)) :
    (completedTasks tr).Sublist (finishedTasks tr) := by
  induction tr with
  | nil => exact .slnil
  | cons e tr ih =>
    cases e with
    | skipped t => exact ih.cons _
    | completed t o => exact ih.cons_cons _
    | _ => exact ih

/-! ## The invariant -/

/-- The places of the tasks, one after the other. -/
def places (tr : List (Event T O V)) (s : Sys T O V) : List (Task T O) :=
  s.queue ++ s.worker.rest ++ s.worker.current ++ finishedTasks tr

/-- **Every pushed task is in one place**, its future is what that place
says, and what was invoked is being executed or has ended. -/
structure Conserved [LinearOrder T] (tr : List (Event T O V)) (s : Sys T O V) : Prop where
  ordered : Heapq.Ordered Task.key s.executor.tasks.queue
  places : (places tr s).Perm (pushedTasks tr)
  numbered : (pushedTasks tr).map Task.future = List.range s.nextFuture
  invoked : (invokedTasks tr).Perm (s.worker.current ++ completedTasks tr)
  fresh : ∀ n, s.nextFuture ≤ n → s.future n = .pending
  waiting : ∀ t ∈ s.queue ++ s.worker.rest,
    s.future t.future = .pending ∨ s.future t.future = .cancelled
  running : ∀ t ∈ s.worker.current, s.future t.future = .running
  skipped : ∀ t, .skipped t ∈ tr → s.future t.future = .cancelledAndNotified
  completed : ∀ t o, .completed t o ∈ tr → s.future t.future = .finished o
  cancelled : ∀ n, .cancelled n true ∈ tr → s.isCancelled n = true

namespace Conserved

open scoped List

variable [LinearOrder T] {tr : List (Event T O V)} {s s' : Sys T O V}

theorem init (now : T) : Conserved ([] : List (Event T O V)) (Sys.new now) where
  ordered := TaskQueue.new_ordered Task.key
  places := by simp [PyLwip.places, Sys.new, Sys.queue, Executor.new, Worker.rest, Worker.current]
  numbered := rfl
  invoked := .refl _
  fresh _ _ := rfl
  waiting := by simp [Sys.new, Sys.queue, Executor.new, Worker.rest]
  running := by simp [Sys.new, Worker.current]
  skipped := by simp
  completed := by simp
  cancelled := by simp

/-- The futures of the tasks in all places are distinct. -/
theorem nodup (h : Conserved tr s) : ((PyLwip.places tr s).map Task.future).Nodup := by
  rw [(h.places.map Task.future).nodup_iff, h.numbered]
  exact List.nodup_range

theorem future_lt (h : Conserved tr s) {t : Task T O} (ht : t ∈ PyLwip.places tr s) :
    t.future < s.nextFuture := by
  have : t.future ∈ (pushedTasks tr).map Task.future :=
    List.mem_map_of_mem (h.places.mem_iff.mp ht)
  rw [h.numbered] at this
  simpa using this

/-- A step that moves no task and touches no future. -/
theorem frame (h : Conserved tr s) {ev : Option (Event T O V)}
    (hq : s'.executor.tasks = s.executor.tasks) (hf : s'.future = s.future)
    (hn : s'.nextFuture = s.nextFuture) (hr : s'.worker.rest = s.worker.rest)
    (hc : s'.worker.current = s.worker.current) (hev : ∀ e ∈ ev, e.Neutral) :
    Conserved (tr ++ ev.toList) s' := by
  have hqueue : s'.queue = s.queue := by rw [Sys.queue, Sys.queue, hq]
  cases ev with
  | none =>
    simp only [Option.toList_none, List.append_nil]
    exact ⟨hq ▸ h.ordered, by simpa [PyLwip.places, hqueue, hr, hc] using h.places,
      hn ▸ h.numbered, hc ▸ h.invoked, by simpa [hn, hf] using h.fresh,
      by simpa [hqueue, hr, hf] using h.waiting, by simpa [hc, hf] using h.running,
      hf ▸ h.skipped, hf ▸ h.completed, by simpa [Sys.isCancelled, hf] using h.cancelled⟩
  | some e =>
    obtain ⟨hp, hi, hfin, hcan⟩ := hev e rfl
    have hcomp : e.completed? = none := by cases e <;> simp_all [Event.finished?, Event.completed?]
    have hskip : ∀ t, e ≠ .skipped t := by rintro t rfl; simp [Event.finished?] at hfin
    have hend : ∀ t o, e ≠ .completed t o := by rintro t o rfl; simp [Event.finished?] at hfin
    constructor
    · exact hq ▸ h.ordered
    · simpa [PyLwip.places, hp, hfin, hqueue, hr, hc] using h.places
    · simpa [hp, hn] using h.numbered
    · simpa [hi, hcomp, hc] using h.invoked
    · simpa [hn, hf] using h.fresh
    · simpa [hqueue, hr, hf] using h.waiting
    · simpa [hc, hf] using h.running
    · intro t ht
      rcases List.mem_append.mp ht with ht | ht
      · exact hf ▸ h.skipped t ht
      · exact absurd (by simpa using ht) (hskip t).symm
    · intro t o ht
      rcases List.mem_append.mp ht with ht | ht
      · exact hf ▸ h.completed t o ht
      · exact absurd (by simpa using ht) (hend t o).symm
    · intro n hcn
      rcases List.mem_append.mp hcn with hcn | hcn
      · simpa [Sys.isCancelled, hf] using h.cancelled n hcn
      · exact absurd (by simpa using hcn) (hcan n).symm

theorem isCancelled_update {f : ℕ → Future V} {n m : ℕ} {x : Future V}
    (hm : (f m).isCancelled = true) (hx : (f n).isCancelled = true → x.isCancelled = true) :
    (Function.update f n x m).isCancelled = true := by
  by_cases heq : m = n
  · subst heq; simpa using hx hm
  · simpa [Function.update_of_ne heq] using hm

/-- A push, whether or not a comparison raised in it. -/
theorem push [RichCompare O] (h : Conserved tr s) {task : Task T O} {e : Event T O V}
    {q : TaskQueue T O} {out : Except PyError Unit} (hfut : task.future = s.nextFuture)
    (hpush : s.executor.tasks.scheduleTask task = (q, out))
    (he : (∃ d, e = .accepted d task) ∨ ∃ x, e = .scheduleRaised task x)
    (hq : s'.executor.tasks = q) (hf : s'.future = s.future)
    (hn : s'.nextFuture = s.nextFuture + 1) (hr : s'.worker.rest = s.worker.rest)
    (hc : s'.worker.current = s.worker.current) : Conserved (tr ++ [e]) s' := by
  have hperm : s'.queue.Perm (task :: s.queue) := by
    rw [Sys.queue, hq]
    exact TaskQueue.scheduleTask_perm hpush
  have hpushed : e.pushed? = some task := by rcases he with ⟨d, rfl⟩ | ⟨x, rfl⟩ <;> rfl
  have hinv : e.invoked? = none := by rcases he with ⟨d, rfl⟩ | ⟨x, rfl⟩ <;> rfl
  have hfin : e.finished? = none := by rcases he with ⟨d, rfl⟩ | ⟨x, rfl⟩ <;> rfl
  have hcomp : e.completed? = none := by rcases he with ⟨d, rfl⟩ | ⟨x, rfl⟩ <;> rfl
  -- a push is neither of the events that say what became of a task
  have hmem : ∀ e' : Event T O V, e'.pushed? = none → e' ∈ tr ++ [e] → e' ∈ tr := by
    intro e' hnone h'
    rcases List.mem_append.mp h' with h' | h'
    · exact h'
    · rw [List.mem_singleton.mp h', hpushed] at hnone; cases hnone
  constructor
  · exact hq ▸ TaskQueue.push_ordered h.ordered hpush
  · simp only [PyLwip.places, seen_snoc, hr, hc, hpushed, hfin, Option.toList_none,
      Option.toList_some, List.append_nil]
    refine .trans ?_ (List.perm_append_singleton _ _).symm
    refine .trans ?_ (h.places.cons task)
    exact ((hperm.append_right _).append_right _).append_right _
  · simp [hpushed, List.range_succ, hn, ← h.numbered, hfut]
  · simpa [hinv, hcomp, hc] using h.invoked
  · intro n hle
    exact hf ▸ h.fresh n (by omega)
  · intro t ht
    have ht' : t = task ∨ t ∈ s.queue ++ s.worker.rest := by
      rcases List.mem_append.mp ht with ht | ht
      · rcases List.mem_cons.mp (hperm.mem_iff.mp ht) with rfl | ht
        · exact .inl rfl
        · exact .inr (List.mem_append_left _ ht)
      · exact .inr (List.mem_append_right _ (hr ▸ ht))
    rcases ht' with rfl | ht'
    · exact .inl (hf ▸ h.fresh _ hfut.ge)
    · exact hf ▸ h.waiting t ht'
  · simpa [hc, hf] using h.running
  · exact fun t ht => hf ▸ h.skipped t (hmem _ rfl ht)
  · exact fun t o ht => hf ▸ h.completed t o (hmem _ rfl ht)
  · intro n hcn
    simpa [Sys.isCancelled, hf] using h.cancelled n (hmem _ rfl hcn)

/-- A call of `Future.cancel`. -/
theorem cancel (h : Conserved tr s) {n : ℕ} (hlt : n < s.nextFuture)
    (hex : s'.executor = s.executor)
    (hf : s'.future = Function.update s.future n (s.future n).cancel.1)
    (hn : s'.nextFuture = s.nextFuture) (hw : s'.worker = s.worker) :
    Conserved (tr ++ [.cancelled n (s.future n).cancel.2]) s' := by
  have hqueue : s'.queue = s.queue := by rw [Sys.queue, Sys.queue, hex]
  -- a future that is neither pending nor cancelled is left alone
  have hkeep : ∀ m, s.future m ≠ .pending → s'.future m = s.future m := by
    intro m hm
    rw [hf]
    by_cases heq : m = n
    · subst heq
      rw [Function.update_self, Future.cancel_of_ne_pending hm]
    · exact Function.update_of_ne heq _ _
  have hcan : ∀ m, s.isCancelled m = true → s'.isCancelled m = true := by
    intro m hm
    have hne : s.future m ≠ .pending := by
      rintro hp
      simp [Sys.isCancelled, hp, Future.isCancelled] at hm
    rwa [Sys.isCancelled, hkeep m hne]
  constructor
  · exact hex ▸ h.ordered
  · simpa [PyLwip.places, hqueue, hw, Event.pushed?, Event.finished?] using h.places
  · simpa [Event.pushed?, hn] using h.numbered
  · simpa [Event.invoked?, Event.completed?, hw] using h.invoked
  · intro m hm
    rw [hf, Function.update_of_ne (by omega)]
    exact h.fresh m (by omega)
  · intro t ht
    rw [hqueue, hw] at ht
    rw [hf]
    by_cases heq : t.future = n
    · rw [← heq, Function.update_self]
      rcases h.waiting t ht with hp | hp <;> simp [hp, Future.cancel]
    · rw [Function.update_of_ne heq]
      exact h.waiting t ht
  · intro t ht
    rw [hw] at ht
    rw [hkeep _ (by simp [h.running t ht])]
    exact h.running t ht
  · intro t ht
    have ht' : .skipped t ∈ tr := by simpa using ht
    rw [hkeep _ (by simp [h.skipped t ht'])]
    exact h.skipped t ht'
  · intro t o ht
    have ht' : .completed t o ∈ tr := by simpa using ht
    rw [hkeep _ (by simp [h.completed t o ht'])]
    exact h.completed t o ht'
  · intro m hm
    rcases List.mem_append.mp hm with hm | hm
    · exact hcan m (h.cancelled m hm)
    · obtain ⟨rfl, hret⟩ := Event.cancelled.inj (List.mem_singleton.mp hm)
      rw [Sys.isCancelled, hf, Function.update_self]
      exact Future.isCancelled_of_cancel hret.symm

/-- A pop that returns. -/
theorem pop [RichCompare O] (h : Conserved tr s) {p : T} {q : TaskQueue T O}
    {tasks : List (Task T O)}
    (hpop : s.executor.tasks.popTasksTillTimestamp p = (q, .ok tasks))
    (hat : s.worker.atTurn = true) (hq : s'.executor.tasks = q) (hf : s'.future = s.future)
    (hn : s'.nextFuture = s.nextFuture) (hw : s'.worker = .batch tasks) :
    Conserved (tr ++ [.popped tasks]) s' := by
  obtain ⟨hspec, -, hord⟩ := TaskQueue.pop_ordered h.ordered hpop
  have hperm : (s'.queue ++ tasks).Perm s.queue := by
    rw [Sys.queue, hq]
    exact List.perm_append_comm.trans hspec.perm
  have hrest : s.worker.rest = [] := Worker.rest_of_atTurn hat
  have hcur : s.worker.current = [] := Worker.current_of_atTurn hat
  constructor
  · exact hq ▸ hord
  · have := h.places
    simp only [PyLwip.places, hrest, hcur, List.append_nil] at this
    simp only [PyLwip.places, seen_snoc, hw, Worker.rest, Worker.current, Event.pushed?,
      Event.finished?, Option.toList_none, List.append_nil]
    exact (hperm.append_right _).trans this
  · simpa [Event.pushed?, hn] using h.numbered
  · have := h.invoked
    rw [hcur] at this
    simpa [Event.invoked?, Event.completed?, hw, Worker.current] using this
  · simpa [hn, hf] using h.fresh
  · intro t ht
    rw [hw] at ht
    exact hf ▸ h.waiting t (List.mem_append_left _ (hperm.mem_iff.mp ht))
  · simp [hw, Worker.current]
  · exact fun t ht => hf ▸ h.skipped t (by simpa using ht)
  · exact fun t o ht => hf ▸ h.completed t o (by simpa using ht)
  · intro n hcn
    simpa [Sys.isCancelled, hf] using h.cancelled n (by simpa using hcn)

/-- **The worker takes a task one place further**: its future becomes `f`,
and the tasks of the other places keep theirs. -/
theorem advance (rest : List (Task T O)) (h : Conserved tr s) {task : Task T O}
    {e : Event T O V} {f : Future V}
    (hp : (PyLwip.places tr s).Perm (task :: (s.queue ++ rest ++ finishedTasks tr)))
    (hsub : ∀ t ∈ rest, t ∈ s.worker.rest)
    (hcan : (s.future task.future).isCancelled = true → f.isCancelled = true)
    (hq : s'.executor.tasks = s.executor.tasks)
    (hf : s'.future = Function.update s.future task.future f)
    (hn : s'.nextFuture = s.nextFuture) (hrest : s'.worker.rest = rest)
    (hpush : e.pushed? = none) (hcancel : ∀ n, e ≠ .cancelled n true)
    (hcur : ∀ t ∈ s'.worker.current, t = task ∧ f = .running)
    (hplace : [task] = s'.worker.current ++ e.finished?.toList)
    (hinv : (invokedTasks tr ++ e.invoked?.toList).Perm
      (s'.worker.current ++ (completedTasks tr ++ e.completed?.toList)))
    (hskip : ∀ t, e = .skipped t → t = task ∧ f = .cancelledAndNotified)
    (hcomp : ∀ t o, e = .completed t o → t = task ∧ f = .finished o) :
    Conserved (tr ++ [e]) s' := by
  have hqueue : s'.queue = s.queue := by rw [Sys.queue, Sys.queue, hq]
  -- the tasks of the other places have other futures
  have hnd := (hp.map Task.future).nodup_iff.mp h.nodup
  rw [List.map_cons, List.nodup_cons] at hnd
  have hkeep : ∀ t ∈ s.queue ++ rest ++ finishedTasks tr,
      s'.future t.future = s.future t.future := fun t ht => by
    have hne : t.future ≠ task.future := fun heq => hnd.1 (heq ▸ List.mem_map_of_mem ht)
    rw [hf, Function.update_of_ne hne]
  have hself : s'.future task.future = f := by rw [hf, Function.update_self]
  constructor
  · exact hq ▸ h.ordered
  · simp only [PyLwip.places, seen_snoc, hqueue, hrest, hpush, Option.toList_none, List.append_nil]
    refine .trans ?_ (hp.symm.trans h.places)
    calc s.queue ++ rest ++ s'.worker.current ++ (finishedTasks tr ++ e.finished?.toList)
        _ ~ s.queue ++ rest ++ (s'.worker.current ++ e.finished?.toList) ++ finishedTasks tr := by
          simp only [List.append_assoc]
          exact ((List.perm_append_comm.append_left _).append_left _).append_left _
        _ = s.queue ++ rest ++ [task] ++ finishedTasks tr := by rw [← hplace]
        _ ~ task :: (s.queue ++ rest ++ finishedTasks tr) := by
          simpa using @List.perm_middle _ task (s.queue ++ rest) (finishedTasks tr)
  · simpa [hpush, hn] using h.numbered
  · simpa using hinv
  · intro n hle
    have hlt : task.future < s.nextFuture := h.future_lt (hp.mem_iff.mpr (by simp))
    rw [hf, Function.update_of_ne (by omega)]
    exact h.fresh n (by omega)
  · intro t ht
    rw [hqueue, hrest] at ht
    rw [hkeep t (List.mem_append_left _ ht)]
    refine h.waiting t ?_
    rcases List.mem_append.mp ht with ht | ht
    · exact List.mem_append_left _ ht
    · exact List.mem_append_right _ (hsub t ht)
  · intro t ht
    obtain ⟨rfl, rfl⟩ := hcur t ht
    exact hself
  · intro t ht
    rcases List.mem_append.mp ht with ht | ht
    · rw [hkeep t (List.mem_append_right _ (mem_finishedTasks.mpr (.inl ht)))]
      exact h.skipped t ht
    · obtain ⟨rfl, rfl⟩ := hskip t (List.mem_singleton.mp ht).symm
      exact hself
  · intro t o ht
    rcases List.mem_append.mp ht with ht | ht
    · rw [hkeep t (List.mem_append_right _ (mem_finishedTasks.mpr (.inr ⟨o, ht⟩)))]
      exact h.completed t o ht
    · obtain ⟨rfl, rfl⟩ := hcomp t o (List.mem_singleton.mp ht).symm
      exact hself
  · intro n hcn
    rcases List.mem_append.mp hcn with hcn | hcn
    · rw [Sys.isCancelled, hf]
      exact isCancelled_update (h.cancelled n hcn) hcan
    · exact absurd (List.mem_singleton.mp hcn).symm (hcancel n)

/-- The task that is taken next can be taken: its future was cancelled, if it
is not pending. -/
theorem take_returns (h : Conserved tr s) {task : Task T O} {rest : List (Task T O)}
    (hw : s.worker = .batch (task :: rest)) (hp : s.future task.future ≠ .pending) :
    s.future task.future = .cancelled := by
  have hrest : task ∈ s.worker.rest := by simp [hw, Worker.rest]
  exact (h.waiting task (List.mem_append_right _ hrest)).resolve_left hp

/-- The result of the executed task can be set. -/
theorem finish_returns (h : Conserved tr s) {task : Task T O} {rest : List (Task T O)}
    (hw : s.worker = .executing task rest) : s.future task.future = .running :=
  h.running task (by simp [hw, Worker.current])

theorem places_nodup (h : Conserved tr s) : (PyLwip.places tr s).Nodup := h.nodup.of_map

/-- An action that was called belongs to a future that is running or
finished. -/
theorem future_of_invoked (h : Conserved tr s) {t : Task T O} (ht : t ∈ invokedTasks tr) :
    s.future t.future = .running ∨ ∃ o, s.future t.future = .finished o := by
  rcases List.mem_append.mp (h.invoked.mem_iff.mp ht) with ht | ht
  · exact .inl (h.running t ht)
  · obtain ⟨o, ho⟩ := mem_completedTasks.mp ht
    exact .inr ⟨o, h.completed t o ho⟩

theorem not_cancelled_of_invoked (h : Conserved tr s) {t : Task T O}
    (ht : t ∈ invokedTasks tr) : s.isCancelled t.future = false := by
  rcases h.future_of_invoked ht with hf | ⟨o, hf⟩ <;>
    simp [Sys.isCancelled, hf, Future.isCancelled]

theorem invoked_of_completed (h : Conserved tr s) {t : Task T O} {o : Outcome V}
    (ht : .completed t o ∈ tr) : t ∈ invokedTasks tr :=
  h.invoked.mem_iff.mpr (List.mem_append_right _ (mem_completedTasks.mpr ⟨o, ht⟩))

theorem future_lt_of_invoked (h : Conserved tr s) {t : Task T O} (ht : t ∈ invokedTasks tr) :
    t.future < s.nextFuture := by
  refine h.future_lt ?_
  rw [PyLwip.places, List.append_assoc]
  refine List.mem_append_right _ ?_
  rcases List.mem_append.mp (h.invoked.mem_iff.mp ht) with ht | ht
  · exact List.mem_append_left _ ht
  · exact List.mem_append_right _ ((completedTasks_sublist tr).subset ht)

/-- An action is called at most once. -/
theorem invoked_nodup (h : Conserved tr s) : (invokedTasks tr).Nodup := by
  refine h.invoked.nodup_iff.mpr ?_
  have hnd := h.places_nodup
  rw [PyLwip.places, List.append_assoc] at hnd
  exact (List.nodup_append.mp hnd).2.1.sublist
    ((List.Sublist.refl _).append (completedTasks_sublist tr))

/-- What was executed was executed once. -/
theorem count_invoked_of_completed [DecidableEq O] (h : Conserved tr s) {t : Task T O}
    (ht : t ∈ completedTasks tr) : (invokedTasks tr).count t = 1 := by
  obtain ⟨o, ho⟩ := mem_completedTasks.mp ht
  exact List.count_eq_one_of_mem h.invoked_nodup (h.invoked_of_completed ho)

end Conserved

/-! ## Every step keeps it -/

section Steps

variable [RichCompare O] [AddCommGroup T] [LinearOrder T] {timeoutMax : T}
  {tr : List (Event T O V)} {s s' : Sys T O V} {ev : Option (Event T O V)}

/-- **The step lemma**: a step conserves the tasks, unless a comparison
raises in a pop. -/
theorem Conserved.step (h : Conserved tr s) (hs : Transition timeoutMax s ev s')
    (hcmp : ∀ x, ev ≠ some (.crashed (.comparison x))) : Conserved (tr ++ ev.toList) s' := by
  cases hs with
  | start hr hw =>
    exact h.frame rfl rfl rfl (by simp [hw, Worker.rest]) (by simp [hw, Worker.current])
      (Event.neutral_some rfl rfl rfl (by simp))
  | rejected =>
    exact h.frame rfl rfl rfl rfl rfl
      (Event.neutral_some rfl rfl rfl (by simp))
  | accepted hr hst htime hfut hpush =>
    exact h.push hfut hpush (.inl ⟨_, rfl⟩) rfl rfl rfl (by simp) (by simp)
  | scheduleRaised hr hst htime hfut hpush =>
    exact h.push hfut hpush (.inr ⟨_, rfl⟩) rfl rfl rfl rfl rfl
  | cancel hr hn => exact h.cancel hn rfl rfl rfl rfl
  | stop =>
    exact h.frame rfl rfl rfl (by simp) (by simp)
      (Event.neutral_some rfl rfl rfl (by simp))
  | enterRun hr hw =>
    exact h.frame rfl rfl rfl (by simp [hw, Worker.rest]) (by simp [hw, Worker.current])
      (Event.neutral_some rfl rfl rfl (by simp))
  | leave hr hw =>
    exact h.frame rfl rfl rfl (by rw [Worker.rest_of_atTurn hw]; rfl)
      (by rw [Worker.current_of_atTurn hw]; rfl)
      (Event.neutral_some rfl rfl rfl (by simp))
  | wait hr hw =>
    exact h.frame rfl rfl rfl (by rw [Worker.rest_of_atTurn hw]; rfl)
      (by rw [Worker.current_of_atTurn hw]; rfl) (by simp)
  | timeout hr hw =>
    exact h.frame rfl rfl rfl (by rw [Worker.rest_of_atTurn hw]; rfl)
      (by rw [Worker.current_of_atTurn hw]; rfl)
      (Event.neutral_some rfl rfl rfl (by simp))
  | pop hr hp hw hl hroot hdue hpop => exact h.pop hpop hw rfl rfl rfl rfl
  | popRaised => exact absurd rfl (hcmp _)
  | @invoke r task rest hr hw hf =>
    refine h.advance (f := .running) rest ?_ ?_ (by simp [hf, Future.isCancelled]) rfl
      rfl rfl rfl rfl (by simp) (by simp [Worker.current]) rfl ?_ (by simp) (by simp)
    · simp only [PyLwip.places, hw, Worker.rest, Worker.current, List.append_nil]
      simp
    · simp +contextual [hw, Worker.rest]
    · have := h.invoked
      simp only [hw, Worker.current, List.nil_append] at this
      simpa [Event.invoked?, Event.completed?, Worker.current] using
        (this.append_right [task]).trans (List.perm_append_singleton _ _)
  | @skip r task rest hr hw hf =>
    refine h.advance (f := .cancelledAndNotified) rest ?_ ?_
      (by simp [Future.isCancelled]) rfl rfl rfl rfl rfl (by simp) (by simp [Worker.current]) rfl ?_
      (by simp) (by simp)
    · simp only [PyLwip.places, hw, Worker.rest, Worker.current, List.append_nil]
      simp
    · simp +contextual [hw, Worker.rest]
    · simpa [hw, Event.invoked?, Event.completed?, Worker.current] using h.invoked
  | takeRaised hr hw hp hc => exact absurd (h.take_returns hw hp) hc
  | @complete r o task rest hr hw =>
    refine h.advance (f := .finished o) rest ?_ ?_
      (by simp [h.finish_returns hw, Future.isCancelled])
      rfl rfl rfl rfl rfl (by simp) (by simp [Worker.current]) rfl ?_ (by simp) (by simp)
    · simp only [PyLwip.places, hw, Worker.rest, Worker.current]
      simpa using @List.perm_middle _ task (s.queue ++ rest) (finishedTasks tr)
    · simp [hw, Worker.rest]
    · have := h.invoked
      simp only [hw, Worker.current] at this
      simpa [Event.invoked?, Event.completed?, Worker.current] using
        this.trans (List.perm_append_singleton _ _).symm
  | completeRaised hr hw hf => exact absurd (h.finish_returns hw) hf
  | settleSync hr hw =>
    exact h.frame rfl rfl rfl (by simp [hw, Worker.rest]) (by simp [hw, Worker.current])
      (Event.neutral_some rfl rfl rfl (by simp))
  | settle hr hw =>
    exact h.frame rfl rfl rfl (by simp [hw, Worker.rest]) (by simp [hw, Worker.current])
      (Event.neutral_some rfl rfl rfl (by simp))
  | load hr hw =>
    exact h.frame rfl rfl rfl (by simp [hw, Worker.rest]) (by simp [hw, Worker.current]) (by simp)
  | store hr hw =>
    exact h.frame rfl rfl rfl (by simp [hw, Worker.rest]) (by simp [hw, Worker.current]) (by simp)

/-- **The run lemma**: tasks are conserved along every interleaving in which
the pops return. -/
theorem conserved_of_run {now : T} (h : Interleaving timeoutMax (Sys.new now) tr s)
    (hpops : PopsReturn tr) : Conserved tr s := by
  refine h.invariant (I := fun tr s => PopsReturn tr → Conserved tr s) (fun _ => .init now) ?_ hpops
  intro tr t o u _ ih hs hpops
  exact (ih hpops.left).step hs.transition hpops.ne_crashed

/-! ## What it comes to -/

/-- **Tasks are conserved.** Each accepted task is in exactly one place; its
action is called at most once, and not once its future was cancelled; and a
finished task's future is cancelled and its action never called, or holds
what its action returned or raised: a task is completed with an outcome where
it is being executed and its action ends with this outcome. -/
theorem tasks_conserved {now : T} (h : Interleaving timeoutMax (Sys.new now) tr s)
    (hq : NoComparisonRaises tr) :
    (∀ t, t ∈ acceptedTasks tr ↔
      t ∈ s.queue ++ s.worker.rest ++ s.worker.current ++ finishedTasks tr) ∧
    (s.queue ++ s.worker.rest ++ s.worker.current ++ finishedTasks tr).Nodup ∧
    (invokedTasks tr).Nodup ∧
    (∀ t ∈ invokedTasks tr, .cancelled t.future true ∉ tr) ∧
    (∀ t ∈ finishedTasks tr,
      (s.isCancelled t.future = true ∧ t ∉ invokedTasks tr) ∨
      (t ∈ invokedTasks tr ∧ ∃ o, .completed t o ∈ tr ∧ s.future t.future = .finished o)) ∧
    (∀ t o, .completed t o ∈ tr → s.future t.future = .finished o) ∧
    (∀ pre t o post, tr = pre ++ .completed t o :: post →
      ∃ s₁ s₂ r rest, Interleaving timeoutMax (Sys.new now) pre s₁ ∧
        s₁.worker = .executing t rest ∧
        Sys.step timeoutMax s₁ (r, .finish o) = some (s₂, some (.completed t o)) ∧
        Interleaving timeoutMax s₂ post s) := by
  have hc := conserved_of_run h hq.1
  have hplaces := hc.places
  rw [pushedTasks_eq_accepted hq.2] at hplaces
  refine ⟨fun t => hplaces.mem_iff.symm, hc.places_nodup, hc.invoked_nodup, ?_, ?_,
    hc.completed, ?_⟩
  · intro t ht hcan
    have := hc.cancelled _ hcan
    rw [hc.not_cancelled_of_invoked ht] at this
    cases this
  · intro t ht
    rcases mem_finishedTasks.mp ht with hskip | ⟨o, ho⟩
    · have hcan : s.isCancelled t.future = true := by
        rw [Sys.isCancelled, hc.skipped t hskip]
        rfl
      refine .inl ⟨hcan, fun hinv => ?_⟩
      rw [hc.not_cancelled_of_invoked hinv] at hcan
      cases hcan
    · exact .inr ⟨hc.invoked_of_completed ho, o, ho, hc.completed t o ho⟩
  · rintro pre t o post rfl
    obtain ⟨s₁, s₂, hpre, ⟨⟨r, a⟩, hstep⟩, hpost⟩ := h.split
    obtain ⟨rfl, rest, hw⟩ := finish_of_completed hstep
    exact ⟨s₁, s₂, r, rest, hpre, hw, hstep, hpost⟩

/-- Two calls of different priority, the second cancelled while the first
is running. -/
def cancelledBehind : List (ℤ × Act ℤ Callable ℕ) :=
  [(0, .start), (0, .enterRun), (0, .schedule 0 0 ⟨0⟩ [] []), (0, .schedule 0 1 ⟨1⟩ [] []),
    (1, .turn 1), (1, .take), (1, .cancel 1), (1, .finish (.result 7)), (2, .settle), (2, .take)]

/-- Where it leads. -/
def cancelledBehindEnd : Sys ℤ Callable ℕ × List (Event ℤ Callable ℕ) :=
  outcome (Sys.step 100) (Sys.new 0) cancelledBehind (by decide)

theorem tasks_conserved_cancelledBehind :
    ∃ tr s, Interleaving 100 (Sys.new 0 : Sys ℤ Callable ℕ) tr s ∧
      .cancelled 1 true ∈ tr ∧ (acceptedTasks tr).length = 2 ∧
      (∀ t ∈ finishedTasks tr,
        (s.isCancelled t.future = true ∧ t ∉ invokedTasks tr) ∨
        (t ∈ invokedTasks tr ∧ ∃ o, .completed t o ∈ tr ∧ s.future t.future = .finished o)) := by
  have hrun : Interleaving 100 (Sys.new 0) cancelledBehindEnd.2 cancelledBehindEnd.1 :=
    run_outcome _ _ _ _
  exact ⟨_, _, hrun, by decide, by decide, (tasks_conserved hrun (by decide)).2.2.2.2.1⟩

end Steps

end PyLwip
