import PyLwip.Scheduler.Order

/-!
# What a synchronous stop drains

`stop(sync=True)` counts the queued tasks whose futures are not cancelled,
and the loop of `run` leaves when the count is down to zero. What takes one
off the count is the `finally` of *any* task, also of a task that was popped
before the stop and never counted. So the loop leaves with tasks still
queued where the popped tasks use the count up.

`Draining` says what the steps after the stop keep: where the tasks are that
were there at the stop, that the queue is what no pop has taken from it, and
what the counter has come to. `Drainable` is the condition on the state at
the stop under which nothing is left behind: of the queued tasks that come
after any given time there are none, or more than there are unfinished tasks
that were already popped.
-/

namespace PyLwip

open EventSystem

variable {T O V : Type}

/-! ## What the stop finds -/

namespace Worker

/-- The popped tasks whose `finally` has not run. -/
def unsettled : Worker T O → List (Task T O)
  | .batch r | .subtracting r | .storing _ r => r
  | .executing t r | .settling t r => t :: r
  | _ => []

/-- What the worker has still to take off the counter for a task that is
settled. -/
def owed : Worker T O → ℤ
  | .subtracting _ | .storing _ _ => 1
  | _ => 0

/-- The worker is in `run`, past its first block, or has left it. -/
def entered : Worker T O → Bool
  | .unborn | .launched => false
  | _ => true

theorem entered_iff {w : Worker T O} : w.entered = true ↔ w ≠ .unborn ∧ w ≠ .launched := by
  cases w <;> simp [entered]

@[simp] theorem unsettled_notify (w : Worker T O) : w.notify.unsettled = w.unsettled := by
  cases w <;> rfl

@[simp] theorem owed_notify (w : Worker T O) : w.notify.owed = w.owed := by
  cases w <;> rfl

@[simp] theorem entered_notify (w : Worker T O) : w.notify.entered = w.entered := by
  cases w <;> rfl

theorem unsettled_of_atTurn {w : Worker T O} (h : w.atTurn = true) : w.unsettled = [] := by
  cases w with
  | batch r => cases r <;> simp_all [atTurn, unsettled]
  | waiting => rfl
  | _ => simp [atTurn] at h

theorem owed_of_atTurn {w : Worker T O} (h : w.atTurn = true) : w.owed = 0 := by
  cases w with
  | subtracting | storing => simp [atTurn] at h
  | _ => rfl

theorem ne_returned_of_atTurn {w : Worker T O} (h : w.atTurn = true) : w ≠ .returned := by
  rintro rfl
  simp [atTurn] at h

theorem entered_of_atTurn {w : Worker T O} (h : w.atTurn = true) : w.entered = true := by
  cases w with
  | unborn | launched => simp [atTurn] at h
  | _ => rfl

end Worker

namespace Sys

/-- The queued tasks that are not cancelled. -/
def queued (s : Sys T O V) : ℕ := s.executor.countUncancelled s.isCancelled

/-- The popped tasks that are neither cancelled nor settled. -/
def unfinished (s : Sys T O V) : ℕ :=
  s.worker.unsettled.countP fun t => !s.isCancelled t.future

/-- The queued tasks after the time `τ` that are not cancelled. -/
def later [LT T] [DecidableLT T] (τ : T) (s : Sys T O V) : ℕ :=
  (s.queue.filter fun t => τ < t.absTime).countP fun t => !s.isCancelled t.future

/-- **The counter lasts**: none of the queued tasks remain after any time
from `r` on, or more of them than were popped and are unfinished. -/
structure Drainable [LE T] [LT T] [DecidableLT T] (r : T) (s : Sys T O V) : Prop where
  all : s.queued = 0 ∨ s.unfinished < s.queued
  later : ∀ τ, r ≤ τ → s.later τ = 0 ∨ s.unfinished < s.later τ

/-- No popped task is unfinished at the stop. -/
theorem Drainable.of_settled [LE T] [LT T] [DecidableLT T] {r : T} {s : Sys T O V}
    (h : s.unfinished = 0) : s.Drainable r :=
  ⟨by omega, fun τ _ => by omega⟩

end Sys

namespace Event

/-- The task whose `finally` ran. -/
def settled? : Event T O V → Option (Task T O)
  | .settled t => some t
  | _ => none

/-- The task that was taken with its future cancelled. -/
def skipped? : Event T O V → Option (Task T O)
  | .skipped t => some t
  | _ => none

end Event

abbrev settledTasks (tr : List (Event T O V)) : List (Task T O) := seen Event.settled? tr

abbrev skippedTasks (tr : List (Event T O V)) : List (Task T O) := seen Event.skipped? tr

/-- **The drain after the state `s₀`**, which `stop` left. -/
structure Draining [LinearOrder T] (s₀ : Sys T O V) (tr : List (Event T O V)) (s : Sys T O V) :
    Prop where
  now : s₀.now ≤ s.now
  entered : s.worker.entered = true
  stopping : s.executor.status ≠ .running
  status : s.executor.status = s₀.executor.status ∨ s.worker = .returned
  kept : (s.queue ++ s.worker.unsettled ++ settledTasks tr ++ skippedTasks tr).Perm
    (s₀.queue ++ s₀.worker.unsettled)
  left : s.queue.Perm s₀.queue ∨
    ∃ τ, s₀.now ≤ τ ∧ τ ≤ s.now ∧ s.queue.Perm (s₀.queue.filter fun t => τ < t.absTime)
  counted : s.executor.status = .stoppedSync →
    s.executor.tasksToFinish + (settledTasks tr).length =
      s₀.executor.tasksToFinish + s.worker.owed
  stored : ∀ value rest, s.worker = .storing value rest →
    value = s.executor.tasksToFinish - 1

namespace Draining

open scoped List

variable [LinearOrder T] {s₀ s s' : Sys T O V} {tr : List (Event T O V)}
  {ev : Option (Event T O V)}

/-- The state that a stop leaves begins the drain. -/
theorem init {s₁ : Sys T O V} {r : T} {sync : Bool} (hent : s₁.worker.entered = true)
    (howed : s₁.worker.owed = 0) :
    Draining
      { s₁ with
        now := r, executor := s₁.executor.stop s₁.isCancelled sync, worker := s₁.worker.notify } []
      { s₁ with
        now := r, executor := s₁.executor.stop s₁.isCancelled sync
        worker := s₁.worker.notify } where
  now := le_rfl
  entered := by simpa using hent
  stopping := by
    simp only [Executor.stop]
    split <;> simp
  status := .inl rfl
  kept := by simp
  left := .inl (.refl _)
  counted := by simp [howed]
  stored value rest hw := by
    cases hw' : s₁.worker <;> simp_all [Worker.notify, Worker.owed]

/-- What is left stays what no pop has taken, where the queue stays. -/
theorem left_of_queue_eq (h : Draining s₀ tr s) (hqueue : s'.queue = s.queue)
    (hnow : s.now ≤ s'.now) : s'.queue.Perm s₀.queue ∨
      ∃ τ, s₀.now ≤ τ ∧ τ ≤ s'.now ∧ s'.queue.Perm (s₀.queue.filter fun t => τ < t.absTime) := by
  rw [hqueue]
  rcases h.left with hl | ⟨τ, h0, hτ, hl⟩
  · exact .inl hl
  · exact .inr ⟨τ, h0, hτ.trans hnow, hl⟩

/-- A step that moves no task and leaves the executor alone. -/
theorem frame (h : Draining s₀ tr s) (hex : s'.executor = s.executor) (hnow : s.now ≤ s'.now)
    (hent : s'.worker.entered = true) (hret : s.worker = .returned → s'.worker = .returned)
    (huns : s'.worker.unsettled = s.worker.unsettled) (howed : s'.worker.owed = s.worker.owed)
    (hsto : ∀ value rest, s'.worker = .storing value rest →
      value = s.executor.tasksToFinish - 1)
    (hev : ∀ e ∈ ev, e.settled? = none ∧ e.skipped? = none) :
    Draining s₀ (tr ++ ev.toList) s' := by
  have hqueue : s'.queue = s.queue := by rw [Sys.queue, Sys.queue, hex]
  have hset : settledTasks (tr ++ ev.toList) = settledTasks tr := by
    cases ev with
    | none => simp
    | some e => simp [(hev e rfl).1]
  have hskip : skippedTasks (tr ++ ev.toList) = skippedTasks tr := by
    cases ev with
    | none => simp
    | some e => simp [(hev e rfl).2]
  refine ⟨h.now.trans hnow, hent, hex ▸ h.stopping, h.status.imp (hex ▸ ·) hret, ?_,
    h.left_of_queue_eq hqueue hnow, ?_, ?_⟩
  · simpa [hqueue, huns, hset, hskip] using h.kept
  · rw [hset, hex, howed]
    exact h.counted
  · rw [hex]
    exact hsto

/-- A task leaves the batch, settled or skipped. -/
theorem drop (rest : List (Task T O)) (h : Draining s₀ tr s) {e : Event T O V} {task : Task T O}
    (huns : s.worker.unsettled = task :: rest) (howed : s.worker.owed = 0)
    (hex : s'.executor = s.executor) (hnow : s.now ≤ s'.now) (hent : s'.worker.entered = true)
    (hret : s.worker ≠ .returned) (huns' : s'.worker.unsettled = rest)
    (hsto : ∀ value rest, s'.worker ≠ .storing value rest)
    (hev : e = .settled task ∧ (s.executor.status = .stoppedSync → s'.worker.owed = 1) ∨
      e = .skipped task ∧ s'.worker.owed = 0) : Draining s₀ (tr ++ [e]) s' := by
  have hqueue : s'.queue = s.queue := by rw [Sys.queue, Sys.queue, hex]
  have hkept := h.kept
  rw [huns] at hkept
  refine ⟨h.now.trans hnow, hent, hex ▸ h.stopping,
    .inl (hex ▸ h.status.resolve_right hret), ?_, h.left_of_queue_eq hqueue hnow, ?_,
    fun value rest hw => absurd hw (hsto value rest)⟩
  · refine .trans ?_ hkept
    rw [hqueue, huns']
    classical
    refine List.perm_iff_count.mpr fun t => ?_
    rcases hev with ⟨rfl, -⟩ | ⟨rfl, -⟩ <;>
    · simp only [settledTasks, skippedTasks, seen_snoc, Event.settled?, Event.skipped?,
        Option.toList_some, Option.toList_none, List.count_append, List.count_cons,
        List.count_nil]
      omega
  · intro hsync
    rw [hex] at hsync ⊢
    have hcount := h.counted hsync
    rcases hev with ⟨rfl, howed'⟩ | ⟨rfl, howed'⟩
    · have hlen : (settledTasks (tr ++ [.settled task])).length = (settledTasks tr).length + 1 := by
        simp [Event.settled?]
      rw [howed' hsync, hlen]
      push_cast
      omega
    · have hset : settledTasks (tr ++ [.skipped task]) = settledTasks tr := by
        simp [Event.settled?]
      rw [howed', hset]
      omega

/-- What a pop leaves is what is not due at its reading. -/
theorem perm_left {p : T} {before popped left : List (Task T O)}
    (h : TaskQueue.PopSpec p before popped left) :
    left.Perm (before.filter fun t => p < t.absTime) := by
  have hfilter := h.perm.filter fun t => decide (p < t.absTime)
  have hpopped : popped.filter (fun t => decide (p < t.absTime)) = [] :=
    List.filter_eq_nil_iff.mpr fun t ht => by simpa using h.due t ht
  have hleft : left.filter (fun t => decide (p < t.absTime)) = left :=
    List.filter_eq_self.mpr fun t ht => by simpa using h.not_due t ht
  rwa [List.filter_append, hpopped, hleft, List.nil_append] at hfilter

/-- A pop takes from the queue what is due. -/
theorem pop (h : Draining s₀ tr s) {p : T} {tasks : List (Task T O)}
    (hspec : TaskQueue.PopSpec p s.queue tasks s'.queue) (hp : s.now ≤ p) (hnow : s'.now = p)
    (hat : s.worker.atTurn = true) (hst : s'.executor.status = s.executor.status)
    (hcount : s'.executor.tasksToFinish = s.executor.tasksToFinish)
    (hw : s'.worker = .batch tasks) : Draining s₀ (tr ++ [.popped tasks]) s' := by
  have hset : settledTasks (tr ++ [.popped tasks]) = settledTasks tr := by simp [Event.settled?]
  have hskip : skippedTasks (tr ++ [.popped tasks]) = skippedTasks tr := by simp [Event.skipped?]
  have hret : s.worker ≠ .returned := Worker.ne_returned_of_atTurn hat
  have hnow₀ : s₀.now ≤ p := h.now.trans hp
  refine ⟨hnow₀.trans hnow.ge, by rw [hw]; rfl, hst ▸ h.stopping,
    .inl (hst ▸ h.status.resolve_right hret), ?_, .inr ⟨p, hnow₀, hnow.ge, ?_⟩, ?_,
    fun value rest hw' => by rw [hw] at hw'; cases hw'⟩
  · refine .trans ?_ h.kept
    have hpop : (s'.queue ++ tasks).Perm s.queue := List.perm_append_comm.trans hspec.perm
    rw [hset, hskip, hw, Worker.unsettled_of_atTurn hat, List.append_nil]
    exact (hpop.append_right _).append_right _
  · refine (perm_left hspec).trans ?_
    rcases h.left with hl | ⟨τ, h0, hτ, hl⟩
    · exact hl.filter _
    · refine (hl.filter _).trans (.of_eq ?_)
      rw [List.filter_filter]
      refine List.filter_congr fun t _ => ?_
      -- what is not due at `p` was not due at the earlier pop
      have himp : p < t.absTime → τ < t.absTime := (hτ.trans hp).trans_lt
      simpa using himp
  · rw [hst, hcount, hset, hw]
    intro hsync
    have hcounted := h.counted hsync
    rw [Worker.owed_of_atTurn hat] at hcounted
    exact hcounted

/-- **Nothing is left behind**: what is queued where the loop leaves was
cancelled before the stop. The tasks that are settled then were as many as
were counted, so no more are left than were unfinished at the stop. -/
theorem left_cancelled {m : Sys T O V} (h : Draining s₀ tr m) (hat : m.worker.atTurn = true)
    (hl : m.executor.Leaves) (hcount : s₀.executor.tasksToFinish = s₀.queued)
    (hsync : s₀.executor.status = .stoppedSync ∨ s₀.queued = 0) (hd : s₀.Drainable s₀.now)
    (hset : ∀ t ∈ settledTasks tr, s₀.isCancelled t.future = false) :
    ∀ t ∈ m.queue, s₀.isCancelled t.future = true := by
  let open? : Task T O → Bool := fun t => !s₀.isCancelled t.future
  have hqueued : s₀.queue.countP open? = s₀.queued := rfl
  -- the count of the queue that is left, in either form of it
  have hleft : m.queue.countP open? ≤ s₀.unfinished → m.queue.countP open? = 0 := by
    intro hle
    rcases h.left with hl | ⟨τ, h0, -, hl⟩
    · rw [hl.countP_eq, hqueued] at hle ⊢
      have := hd.all
      omega
    · have hlater : (s₀.queue.filter fun t => τ < t.absTime).countP open? = s₀.later τ := rfl
      rw [hl.countP_eq, hlater] at hle ⊢
      have := hd.later τ h0
      omega
  have hzero : m.queue.countP open? = 0 := by
    rcases hsync with hsync | h0
    · have hst := (h.status.resolve_right (Worker.ne_returned_of_atTurn hat)).trans hsync
      rcases hl with hl | ⟨-, hl | hl⟩
      · rw [hst] at hl
        cases hl
      · simp [Sys.queue, hl]
      · have hcounted := h.counted hst
        rw [hl, hcount, Worker.owed_of_atTurn hat] at hcounted
        have hsettled : (settledTasks tr).countP open? = (settledTasks tr).length :=
          List.countP_eq_length.mpr fun t ht => by simp [open?, hset t ht]
        have hkept := h.kept.countP_eq open?
        rw [List.countP_append, List.countP_append, List.countP_append, List.countP_append,
          Worker.unsettled_of_atTurn hat, hsettled, hqueued] at hkept
        -- as many were settled as were counted, so what is left was popped before
        have hunf : s₀.worker.unsettled.countP open? = s₀.unfinished := rfl
        refine hleft ?_
        simp only [List.countP_nil] at hkept
        omega
    · refine Nat.le_zero.mp ?_
      rcases h.left with hl | ⟨τ, -, -, hl⟩
      · rw [hl.countP_eq, hqueued, h0]
      · rw [hl.countP_eq, ← h0, ← hqueued]
        exact List.Sublist.countP_le (List.filter_sublist)
  intro t ht
  have := List.countP_eq_zero.mp hzero t ht
  simpa [open?] using this

variable [RichCompare O] [AddCommGroup T] {timeoutMax : T}

/-- **The step lemma**: whatever happens after the stop, short of a second
stop. -/
theorem step {full : List (Event T O V)} (h : Draining s₀ tr s) (hc : Conserved full s)
    (hs : Transition timeoutMax s ev s') (hstop : ∀ sync, ev ≠ some (.stopRequested sync))
    (hcmp : ∀ x, ev ≠ some (.crashed (.comparison x))) : Draining s₀ (tr ++ ev.toList) s' := by
  cases hs with
  | start hr hw | enterRun hr hw =>
    have := h.entered
    simp [hw, Worker.entered] at this
  | rejected hr =>
    exact h.frame rfl hr h.entered id rfl rfl h.stored (by simp [Event.settled?, Event.skipped?])
  | accepted hr hst | scheduleRaised hr hst => exact absurd hst h.stopping
  | cancel hr =>
    exact h.frame rfl hr h.entered id rfl rfl h.stored (by simp [Event.settled?, Event.skipped?])
  | stop => exact absurd rfl (hstop _)
  | leave hr hw =>
    have huns := Worker.unsettled_of_atTurn hw
    refine ⟨h.now.trans hr, rfl, by simp, .inr rfl, ?_, h.left_of_queue_eq rfl hr, by simp,
      by simp⟩
    have hkept := h.kept
    rw [huns] at hkept
    refine .trans (.of_eq ?_) hkept
    simp [Sys.queue, Worker.unsettled, Event.settled?, Event.skipped?]
  | wait hr hw | timeout hr hw =>
    exact h.frame rfl hr rfl (fun hret => absurd hret (Worker.ne_returned_of_atTurn hw))
      (Worker.unsettled_of_atTurn hw).symm (Worker.owed_of_atTurn hw).symm (by simp)
      (by simp [Event.settled?, Event.skipped?])
  | pop hr hp hw hl hroot hdue hpop =>
    exact h.pop (hc.popsBy _ _ _ hpop).1 (hr.trans hp) rfl hw rfl rfl rfl
  | popRaised => exact absurd rfl (hcmp _)
  | invoke hr hw =>
    exact h.frame rfl hr rfl (by simp [hw]) (by simp [hw, Worker.unsettled])
      (by simp [hw, Worker.owed]) (by simp) (by simp [Event.settled?, Event.skipped?])
  | @skip r task rest hr hw hf =>
    exact h.drop rest (by rw [hw]; rfl) (by rw [hw]; rfl) rfl hr rfl (by simp [hw]) rfl
      (by simp) (.inr ⟨rfl, rfl⟩)
  | takeRaised hr hw hp hcan => exact absurd (hc.take_returns hw hp) hcan
  | complete hr hw =>
    exact h.frame rfl hr rfl (by simp [hw]) (by simp [hw, Worker.unsettled])
      (by simp [hw, Worker.owed]) (by simp) (by simp [Event.settled?, Event.skipped?])
  | completeRaised hr hw hf => exact absurd (hc.finish_returns hw) hf
  | @settleSync r task rest hr hw hst =>
    exact h.drop rest (by rw [hw]; rfl) (by rw [hw]; rfl) rfl hr rfl (by simp [hw]) rfl
      (by simp) (.inl ⟨rfl, fun _ => rfl⟩)
  | @settle r task rest hr hw hst =>
    exact h.drop rest (by rw [hw]; rfl) (by rw [hw]; rfl) rfl hr rfl (by simp [hw]) rfl
      (by simp) (.inl ⟨rfl, fun hsync => absurd hsync hst⟩)
  | load hr hw =>
    refine h.frame rfl hr rfl (by simp [hw]) (by simp [hw, Worker.unsettled])
      (by simp [hw, Worker.owed]) ?_ (by simp)
    intro value rest hst
    obtain ⟨rfl, -⟩ := Worker.storing.inj hst
    rfl
  | @store r value rest hr hw =>
    refine ⟨h.now.trans hr, rfl, h.stopping, ?_, ?_, h.left_of_queue_eq rfl hr, ?_, by simp⟩
    · exact .inl (h.status.resolve_right (by simp [hw]))
    · simpa [Sys.queue, hw, Worker.unsettled] using h.kept
    · intro hsync
      have hcounted := h.counted hsync
      have hvalue := h.stored value rest hw
      simp only [hw, Worker.owed] at hcounted
      simp only [Option.toList_none, List.append_nil, Worker.owed]
      omega

end Draining

/-! ## What a run says of the drain -/

section Runs

variable [RichCompare O] [AddCommGroup T] [LinearOrder T] {timeoutMax : T}
  {tr tr₁ tr₂ : List (Event T O V)} {s s' s₀ s₁ m m' : Sys T O V} {ev : Option (Event T O V)}

/-- While the status is `Running`, the worker is in the loop and owes the
counter nothing. -/
theorem entered_of_running {now : T} (h : Interleaving timeoutMax (Sys.new now) tr s)
    (hrun : s.executor.status = .running) : s.worker.entered = true ∧ s.worker.owed = 0 := by
  refine h.state_invariant
    (I := fun s => s.executor.status = .running → s.worker.entered = true ∧ s.worker.owed = 0)
    (fun h => by simp [Sys.new, Executor.new] at h) ?_ hrun
  intro s ev s' ih hs hrun
  cases hs.transition with
  | start hr hw =>
    have := (ih hrun).1
    simp [hw, Worker.entered] at this
  | rejected | cancel | scheduleRaised => exact ih hrun
  | accepted hr hst => simpa using ih hst
  | stop => simp only [Executor.stop] at hrun; split at hrun <;> cases hrun
  | leave => cases hrun
  | settleSync hr hw hst => rw [hst] at hrun; cases hrun
  | load hr hw =>
    have := (ih hrun).2
    simp [hw, Worker.owed] at this
  | _ => exact ⟨rfl, rfl⟩

/-- The worker comes to a `finally` by the end of the action. -/
theorem Transition.settling (hs : Transition timeoutMax s ev s') {t : Task T O}
    {rest : List (Task T O)} (hw : s'.worker = .settling t rest) :
    s.worker = .settling t rest ∨ ∃ o, ev = some (.completed t o) := by
  cases hs with
  | rejected | cancel | scheduleRaised => exact .inl hw
  | accepted | stop =>
    refine .inl ?_
    cases hs : s.worker <;> simp_all [Worker.notify]
  | complete =>
    cases hw
    exact .inr ⟨_, rfl⟩
  | _ => cases hw

/-- A task reaches its `finally` after its action ended. -/
theorem completed_of_settled {now : T} (h : Interleaving timeoutMax (Sys.new now) tr s)
    {t : Task T O} (ht : .settled t ∈ tr) : ∃ o, .completed t o ∈ tr := by
  refine (h.invariant (I := fun tr s =>
    (∀ t r, s.worker = .settling t r → ∃ o, .completed t o ∈ tr) ∧
      ∀ t, .settled t ∈ tr → ∃ o, .completed t o ∈ tr) ⟨by simp [Sys.new], by simp⟩ ?_).2 t ht
  rintro tr s ev s' - ⟨hworker, htrace⟩ hs
  have hgrow : ∀ t : Task T O, (∃ o, .completed t o ∈ tr) → ∃ o, .completed t o ∈ tr ++ ev.toList :=
    fun t h => h.imp fun o => List.mem_append_left _
  constructor
  · intro t r hw
    rcases hs.transition.settling hw with hw | ⟨o, rfl⟩
    · exact hgrow t (hworker t r hw)
    · exact ⟨o, by simp⟩
  · intro t ht
    rcases List.mem_append.mp ht with ht | ht
    · exact hgrow t (htrace t ht)
    · obtain rfl : ev = some (.settled t) := by simpa [eq_comm] using ht
      cases hs.transition with
      | settleSync hr hw | settle hr hw => exact hgrow t (hworker t _ hw)

/-- **The run lemma** of the drain. -/
theorem draining_of_run {now : T} (h₁ : Interleaving timeoutMax (Sys.new now) tr₁ s₁)
    (hrun : s₁.executor.status = .running) {sync : Bool}
    (hstop : Steps timeoutMax s₁ (some (.stopRequested sync)) s₀)
    (h : Interleaving timeoutMax s₀ tr₂ s) (hone : ∀ b, .stopRequested b ∉ tr₂)
    (hpops : PopsReturn (tr₁ ++ .stopRequested sync :: tr₂)) : Draining s₀ tr₂ s := by
  refine h.invariant (I := fun tr₂ s => (∀ b, .stopRequested b ∉ tr₂) →
    PopsReturn (tr₁ ++ .stopRequested sync :: tr₂) → Draining s₀ tr₂ s) ?_ ?_ hone hpops
  · intro _ _
    obtain ⟨hent, howed⟩ := entered_of_running h₁ hrun
    cases hstop.transition with
    | stop hr => exact .init hent howed
  · intro tr₂ s ev s' hr ih hs hone hpops
    rw [← List.cons_append, ← List.append_assoc] at hpops
    have hall : Interleaving timeoutMax (Sys.new now) (tr₁ ++ .stopRequested sync :: tr₂) s := by
      simpa using (h₁.step hstop).trans hr
    refine (ih (fun b hb => hone b (List.mem_append_left _ hb)) hpops.left).step
      (conserved_of_run hall hpops.left) hs.transition ?_ hpops.ne_crashed
    rintro b rfl
    exact hone b (by simp)

/-- What a synchronous stop sets. -/
theorem Transition.stopped (hs : Transition timeoutMax s₁ (some (.stopRequested true)) s₀) :
    s₀.executor.tasksToFinish = s₀.queued ∧
      (s₀.executor.status = .stoppedSync ∨ s₀.queued = 0) ∧
      ∀ τ, s₁.Drainable τ → s₀.Drainable τ := by
  cases hs with
  | stop hr =>
    refine ⟨rfl, ?_, fun τ hd => ⟨?_, ?_⟩⟩
    · by_cases h0 : s₁.executor.countUncancelled s₁.isCancelled = 0
      · exact .inr h0
      · exact .inl (by simp [Executor.stop, h0])
    · rw [Sys.unfinished, Worker.unsettled_notify]
      exact hd.all
    · rw [Sys.unfinished, Worker.unsettled_notify]
      exact hd.later

/-- What is left when `run` returns was cancelled: every other task that was
accepted before the stop is completed. -/
theorem completed_on_return {now : T} (h₁ : Interleaving timeoutMax (Sys.new now) tr₁ s₁)
    (hrun : s₁.executor.status = .running)
    (hstop : Steps timeoutMax s₁ (some (.stopRequested true)) s₀)
    (h₂ : Interleaving timeoutMax s₀ tr₂ m) (hone : ∀ b, .stopRequested b ∉ tr₂)
    (hret : Steps timeoutMax m (some .returned) m')
    (hq : NoComparisonRaises (tr₁ ++ .stopRequested true :: tr₂))
    (hd : s₁.Drainable s₀.now) {t : Task T O} (ht : t ∈ acceptedTasks tr₁)
    (hkept : .cancelled t.future true ∉ tr₁ ++ .stopRequested true :: tr₂) :
    ∃ o, .completed t o ∈ tr₁ ++ .stopRequested true :: tr₂ := by
  have hall₀ : Interleaving timeoutMax (Sys.new now) (tr₁ ++ [.stopRequested true]) s₀ :=
    h₁.step hstop
  have hall : Interleaving timeoutMax (Sys.new now) (tr₁ ++ .stopRequested true :: tr₂) m := by
    simpa using hall₀.trans h₂
  have hc := conserved_of_run hall hq.1
  have hdrain := draining_of_run h₁ hrun hstop h₂ hone hq.1
  have hback : ∀ n, s₀.isCancelled n = true → m.isCancelled n = true := fun _ =>
    isCancelled_mono hall₀ hc ⟨tr₂, by simp⟩
  have hset : ∀ t ∈ settledTasks tr₂, s₀.isCancelled t.future = false := by
    intro t ht
    obtain ⟨e, he, hte⟩ := mem_seen.mp ht
    cases e <;> simp only [Event.settled?, Option.some.injEq, reduceCtorEq] at hte
    subst hte
    obtain ⟨o, ho⟩ := completed_of_settled hall (List.mem_append_right _ (.tail _ he))
    by_contra hcan
    have := hback _ (by simpa using hcan)
    rw [hc.not_cancelled_of_invoked (hc.invoked_of_completed ho)] at this
    cases this
  cases hret.transition with
  | leave hr hat hl =>
    obtain ⟨hcount, hsync, hdrainable⟩ := hstop.transition.stopped
    have hleft := hdrain.left_cancelled hat hl hcount hsync (hdrainable _ hd) hset
    have hcan : m.isCancelled t.future ≠ true := fun h =>
      hkept (cancelled_of_isCancelled hall h)
    have hplaces : t ∈ places (tr₁ ++ .stopRequested true :: tr₂) m := by
      rw [hc.places.mem_iff, pushedTasks_eq_accepted hq.2, acceptedTasks, seen_append]
      exact List.mem_append_left _ ht
    simp only [places, Worker.rest_of_atTurn hat, Worker.current_of_atTurn hat, List.append_nil]
      at hplaces
    rcases List.mem_append.mp hplaces with hqueue | hfin
    · exact absurd (hback _ (hleft t hqueue)) hcan
    · rcases mem_finishedTasks.mp hfin with hskip | hcomp
      · exact absurd (by rw [Sys.isCancelled, hc.skipped t hskip]; rfl) hcan
      · exact hcomp

/-- Every task of `tasks` that was never cancelled was executed, and its
future is done. -/
def Drained (tasks : List (Task T O)) (tr : List (Event T O V)) (s : Sys T O V) : Prop :=
  ∀ t ∈ tasks, .cancelled t.future true ∉ tr →
    (∃ o, .completed t o ∈ tr) ∧ (s.future t.future).isDone = true

/-- **A synchronous stop drains the executor** where the state it finds is
drainable: when `run` returns after it, every task accepted before it and
never cancelled was executed, and its future is done. -/
theorem stop_drains {now : T} (h₁ : Interleaving timeoutMax (Sys.new now) tr₁ s₁)
    (hrun : s₁.executor.status = .running)
    (hstop : Steps timeoutMax s₁ (some (.stopRequested true)) s₀)
    (h₂ : Interleaving timeoutMax s₀ tr₂ m) (hone : ∀ b, .stopRequested b ∉ tr₂)
    (hret : Steps timeoutMax m (some .returned) m')
    (hq : NoComparisonRaises (tr₁ ++ .stopRequested true :: tr₂))
    (hd : s₁.Drainable s₀.now) :
    Drained (acceptedTasks tr₁) (tr₁ ++ .stopRequested true :: tr₂) m' := by
  intro t ht hkept
  obtain ⟨o, ho⟩ := completed_on_return h₁ hrun hstop h₂ hone hret hq hd ht hkept
  have hall : Interleaving timeoutMax (Sys.new now) (tr₁ ++ .stopRequested true :: tr₂) m := by
    simpa using (h₁.step hstop).trans h₂
  refine ⟨⟨o, ho⟩, ?_⟩
  cases hret.transition with
  | leave =>
    rw [(conserved_of_run hall hq.1).completed t o ho]
    rfl

/-- A loop that has returned is not running. -/
theorem not_running_of_returned {now : T} (h : Interleaving timeoutMax (Sys.new now) tr s)
    (hw : s.worker = .returned) : s.executor.status ≠ .running := by
  refine h.state_invariant (I := fun s => s.worker = .returned → s.executor.status ≠ .running)
    (fun h => by cases h) ?_ hw
  intro s ev s' ih hs hw
  cases hs.transition with
  | rejected | cancel | scheduleRaised => exact ih hw
  | accepted hr hst =>
    have hback : s.worker = .returned := by
      cases hb : s.worker <;> simp_all [Worker.notify]
    exact absurd hst (ih hback)
  | stop =>
    simp only [Executor.stop]
    split <;> simp
  | leave => simp
  | _ => cases hw

/-- A loop that has returned since has emitted so. -/
theorem returned_mem {s₀ : Sys T O V} (h : Interleaving timeoutMax s₀ tr s)
    (hw₀ : s₀.worker ≠ .returned) (hw : s.worker = .returned) : .returned ∈ tr := by
  refine h.invariant (I := fun tr s => s.worker = .returned → .returned ∈ tr)
    (fun h => absurd h hw₀) ?_ hw
  intro tr s ev s' _ ih hs hw
  have hgrow : s.worker = .returned → .returned ∈ tr ++ ev.toList := fun h =>
    List.mem_append_left _ (ih h)
  cases hs.transition with
  | rejected | cancel | scheduleRaised => exact hgrow hw
  | accepted | stop =>
    refine hgrow ?_
    cases hb : s.worker <;> simp_all [Worker.notify]
  | leave => simp
  | _ => cases hw

/-- The drain, in any state after the return. -/
theorem completed_after_return {now : T} (h₁ : Interleaving timeoutMax (Sys.new now) tr₁ s₁)
    (hrun : s₁.executor.status = .running)
    (hstop : Steps timeoutMax s₁ (some (.stopRequested true)) s₀)
    (h₂ : Interleaving timeoutMax s₀ tr₂ s) (hone : ∀ b, .stopRequested b ∉ tr₂)
    (hret : s.worker = .returned) (hq : NoComparisonRaises (tr₁ ++ .stopRequested true :: tr₂))
    (hd : s₁.Drainable s₀.now) {t : Task T O} (ht : t ∈ acceptedTasks tr₁)
    (hkept : .cancelled t.future true ∉ tr₁ ++ .stopRequested true :: tr₂) :
    ∃ o, .completed t o ∈ tr₁ ++ .stopRequested true :: tr₂ := by
  have hbefore : s₀.worker ≠ .returned := by
    intro hw
    have hw₁ : s₁.worker = .returned := by
      cases hstop.transition with
      | stop => cases hb : s₁.worker <;> simp_all [Worker.notify]
    exact not_running_of_returned h₁ hw₁ hrun
  obtain ⟨pre, post, m, m', rfl, hpre, hleave, -⟩ :=
    h₂.exists_of_mem (returned_mem h₂ hbefore hret)
  have hsplit : tr₁ ++ .stopRequested true :: (pre ++ .returned :: post) =
      (tr₁ ++ .stopRequested true :: pre) ++ .returned :: post := by simp
  rw [hsplit] at hq hkept ⊢
  obtain ⟨o, ho⟩ := completed_on_return h₁ hrun hstop hpre
    (fun b hb => hone b (List.mem_append_left _ hb)) hleave hq.left hd ht
    fun h => hkept (List.mem_append_left _ h)
  exact ⟨o, List.mem_append_left _ ho⟩

end Runs

/-! ## A drain that lasts, and one that does not -/

/-- Two calls are queued. -/
def twoQueued : Sys ℤ Callable ℕ × List (Event ℤ Callable ℕ) :=
  outcome (Sys.step 100) (Sys.new 0)
    [(0, .start), (0, .enterRun), (0, .schedule 0 0 ⟨0⟩ [] []), (0, .schedule 5 0 ⟨1⟩ [] [])]
    (by decide)

/-- The stop counts both. -/
def twoCounted : Sys ℤ Callable ℕ × List (Event ℤ Callable ℕ) :=
  outcome (Sys.step 100) twoQueued.1 [(1, .stop true)] (by decide)

/-- Both run, the second when it is due. -/
def twoRun : Sys ℤ Callable ℕ × List (Event ℤ Callable ℕ) :=
  outcome (Sys.step 100) twoCounted.1
    [(1, .turn 1), (1, .take), (2, .finish (.result 0)), (2, .settle), (2, .load), (2, .store),
      (3, .turn 3), (6, .turn 6), (6, .take), (7, .finish (.result 0)), (7, .settle), (7, .load),
      (7, .store)] (by decide)

/-- `run` returns. -/
def twoDrained : Sys ℤ Callable ℕ × List (Event ℤ Callable ℕ) :=
  outcome (Sys.step 100) twoRun.1 [(8, .turn 8)] (by decide)

theorem stop_drains_twoQueued :
    (acceptedTasks twoQueued.2).length = 2 ∧
      Drained (acceptedTasks twoQueued.2) (twoQueued.2 ++ .stopRequested true :: twoRun.2)
        twoDrained.1 := by
  have hqueued : Interleaving 100 (Sys.new 0) twoQueued.2 twoQueued.1 := run_outcome _ _ _ _
  have hran : Interleaving 100 twoCounted.1 twoRun.2 twoRun.1 := run_outcome _ _ _ _
  exact ⟨by decide, stop_drains hqueued rfl ⟨(1, .stop true), rfl⟩ hran (by decide)
    ⟨(8, .turn 8), rfl⟩ (by decide) (.of_settled rfl)⟩

/-- The first of the two is running, the second still queued. -/
def oneRunning : Sys ℤ Callable ℕ × List (Event ℤ Callable ℕ) :=
  outcome (Sys.step 100) twoQueued.1 [(1, .turn 1), (1, .take)] (by decide)

/-- The stop counts the second. -/
def oneCounted : Sys ℤ Callable ℕ × List (Event ℤ Callable ℕ) :=
  outcome (Sys.step 100) oneRunning.1 [(2, .stop true)] (by decide)

/-- The first takes it off the counter. -/
def countUsedUp : Sys ℤ Callable ℕ × List (Event ℤ Callable ℕ) :=
  outcome (Sys.step 100) oneCounted.1
    [(3, .finish (.result 0)), (3, .settle), (3, .load), (3, .store)] (by decide)

/-- `run` returns with the second queued. -/
def oneLeft : Sys ℤ Callable ℕ × List (Event ℤ Callable ℕ) :=
  outcome (Sys.step 100) countUsedUp.1 [(4, .turn 4)] (by decide)

/-- **A synchronous stop can leave a task behind**: the task that is running
when it is called uses up the count of the queued one. -/
theorem stop_leaves_queued_task :
    ∃ (s₁ s₀ m m' : Sys ℤ Callable ℕ) (tr₁ tr₂ : List (Event ℤ Callable ℕ)),
      Interleaving 100 (Sys.new 0) tr₁ s₁ ∧ s₁.executor.status = .running ∧
      Steps 100 s₁ (some (.stopRequested true)) s₀ ∧ Interleaving 100 s₀ tr₂ m ∧
      (∀ b, .stopRequested b ∉ tr₁ ++ tr₂) ∧ Steps 100 m (some .returned) m' ∧
      NoComparisonRaises (tr₁ ++ .stopRequested true :: tr₂) ∧
      ∃ t ∈ acceptedTasks tr₁, .cancelled t.future true ∉ tr₁ ++ .stopRequested true :: tr₂ ∧
        t ∉ invokedTasks (tr₁ ++ .stopRequested true :: tr₂) ∧
        (m'.future t.future).isDone = false := by
  have hqueued : Interleaving 100 (Sys.new 0) twoQueued.2 twoQueued.1 := run_outcome _ _ _ _
  have hrunning : Interleaving 100 twoQueued.1 oneRunning.2 oneRunning.1 := run_outcome _ _ _ _
  have hused : Interleaving 100 oneCounted.1 countUsedUp.2 countUsedUp.1 := run_outcome _ _ _ _
  exact ⟨oneRunning.1, oneCounted.1, countUsedUp.1, oneLeft.1, twoQueued.2 ++ oneRunning.2,
    countUsedUp.2, hqueued.trans hrunning, rfl, ⟨(2, .stop true), rfl⟩, hused, by decide,
    ⟨(4, .turn 4), rfl⟩, by decide, by decide⟩

end PyLwip
