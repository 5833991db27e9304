import PyLwip.Scheduler.Conservation
import Mathlib.Algebra.Order.Monoid.Defs
import Mathlib.Data.List.Sublists

/-!
# The order of execution

Within a batch the tasks run in the order they were popped, and a batch is
popped whole before the next. What links the batches is the clock: a pop
leaves nothing that was due at its reading, and whatever is scheduled later
is due later still unless its delay is negative.

`Ahead` is the relation the order is carried by: both tasks queued and the
keys in order, or one in the batch and the other still queued, or both in
the batch in order. No step undoes it; it ends when the first of the two is
taken. It is stated for any key the queue pops by.
-/

namespace PyLwip

open EventSystem

variable {T O V : Type}

/-- In a sorted list, what is strictly less comes first. -/
theorem pair_sublist_of_pairwise {α : Type*} {R : α → α → Prop} {l : List α} {a b : α}
    (h : l.Pairwise R) (ha : a ∈ l) (hb : b ∈ l) (hne : a ≠ b) (hba : ¬ R b a) :
    [a, b].Sublist l := by
  induction l with
  | nil => cases ha
  | cons x l ih =>
    obtain ⟨hx, hl⟩ := List.pairwise_cons.mp h
    rcases List.mem_cons.mp ha with rfl | ha'
    · have hb' : b ∈ l := (List.mem_cons.mp hb).resolve_left hne.symm
      exact (List.singleton_sublist.mpr hb').cons_cons _
    · rcases List.mem_cons.mp hb with rfl | hb'
      · exact absurd (hx a ha') hba
      · exact (ih hl ha' hb').cons _

/-- The delay of an accepted call. -/
def Event.delay? : Event T O V → Option T
  | .accepted delay _ => some delay
  | _ => none

/-- The delays of a trace. -/
abbrev delays (tr : List (Event T O V)) : List T := tr.filterMap Event.delay?

/-! ## What a state says of the order -/

section States

variable {tr : List (Event T O V)} {s s' : Sys T O V} {ev : Option (Event T O V)}

/-- What is in the batch is due, and what was invoked was. -/
structure DueOnly [LE T] (tr : List (Event T O V)) (s : Sys T O V) : Prop where
  rest : ∀ t ∈ s.worker.rest, t.absTime ≤ s.now
  invoked : ∀ t r, .invoked t r ∈ tr → t.absTime ≤ r

/-- A step at which the batch only shrinks and no action starts. -/
theorem DueOnly.shrink [Preorder T] (h : DueOnly tr s) (hnow : s.now ≤ s'.now)
    (hrest : ∀ t ∈ s'.worker.rest, t ∈ s.worker.rest)
    (hev : ∀ t r, ev ≠ some (.invoked t r)) : DueOnly (tr ++ ev.toList) s' := by
  refine ⟨fun t ht => (h.rest t (hrest t ht)).trans hnow, fun t r ht => ?_⟩
  rcases List.mem_append.mp ht with ht | ht
  · exact h.invoked t r ht
  · exact absurd (by simpa using ht) (hev t r)

variable {κ : Type} [LinearOrder κ] {key : Task T O → κ} {t u : Task T O}

/-- The pops of a state return what is due, in the order of `key`. -/
def PopsBy [RichCompare O] [LinearOrder T] (key : Task T O → κ) (s : Sys T O V) : Prop :=
  ∀ p q tasks, s.executor.tasks.popTasksTillTimestamp p = (q, .ok tasks) →
    TaskQueue.PopSpec p s.queue tasks q.getTasks ∧ tasks.Pairwise fun t u => key t ≤ key u

/-- **The queue pops by time and priority.** -/
theorem Conserved.popsBy [RichCompare O] [LinearOrder T] (h : Conserved tr s) :
    PopsBy Task.key s := fun _ _ _ hpop =>
  have ⟨hspec, hsorted, _⟩ := TaskQueue.pop_ordered h.ordered hpop
  ⟨hspec, hsorted⟩

/-- **`t` is ahead of `u`**: in the key's order in the queue, in the batch
while `u` is queued, or before `u` in the batch. -/
def Ahead (key : Task T O → κ) (s : Sys T O V) (t u : Task T O) : Prop :=
  (t ∈ s.queue ∧ u ∈ s.queue ∧ key t < key u) ∨ (t ∈ s.worker.rest ∧ u ∈ s.queue) ∨
    [t, u].Sublist s.worker.rest

/-- Ahead survives where the queue only grows and the batch is the same. -/
theorem Ahead.mono (h : Ahead key s t u) (hq : ∀ x ∈ s.queue, x ∈ s'.queue)
    (hr : s'.worker.rest = s.worker.rest) : Ahead key s' t u := by
  rcases h with ⟨ht, hu, hlt⟩ | ⟨ht, hu⟩ | h
  · exact .inl ⟨hq t ht, hq u hu, hlt⟩
  · exact .inr (.inl ⟨hr ▸ ht, hq u hu⟩)
  · exact .inr (.inr (hr ▸ h))

/-- Ahead survives the taking of another task. -/
theorem Ahead.take {task : Task T O} {rest : List (Task T O)} (h : Ahead key s t u)
    (hne : t ≠ task) (hw : s.worker.rest = task :: rest) (hq : s'.queue = s.queue)
    (hr : s'.worker.rest = rest) : Ahead key s' t u := by
  rcases h with ⟨ht, hu, hlt⟩ | ⟨ht, hu⟩ | h
  · exact .inl ⟨hq ▸ ht, hq ▸ hu, hlt⟩
  · rw [hw] at ht
    exact .inr (.inl ⟨hr ▸ (List.mem_cons.mp ht).resolve_left hne, hq ▸ hu⟩)
  · rw [hw] at h
    cases h with
    | cons _ h => exact .inr (.inr (hr ▸ h))
    | cons_cons _ h => exact absurd rfl hne

/-- Ahead survives a pop. -/
theorem Ahead.pop [LinearOrder T] {p : T} {tasks : List (Task T O)}
    (hmono : ∀ t u : Task T O, key t ≤ key u → t.absTime ≤ u.absTime) (h : Ahead key s t u)
    (hat : s.worker.atTurn = true) (hspec : TaskQueue.PopSpec p s.queue tasks s'.queue)
    (hsorted : tasks.Pairwise fun t u => key t ≤ key u) (hr : s'.worker.rest = tasks) :
    Ahead key s' t u := by
  have hrest := Worker.rest_of_atTurn hat
  rcases h with ⟨ht, hu, hlt⟩ | ⟨ht, -⟩ | h
  · rcases List.mem_append.mp (hspec.perm.mem_iff.mpr ht) with ht | ht <;>
      rcases List.mem_append.mp (hspec.perm.mem_iff.mpr hu) with hu | hu
    · -- both are popped, and come in the order of the key
      have hne : t ≠ u := by rintro rfl; exact lt_irrefl _ hlt
      refine .inr (.inr ?_)
      rw [hr]
      exact pair_sublist_of_pairwise hsorted ht hu hne (not_le.mpr hlt)
    · exact .inr (.inl ⟨hr ▸ ht, hu⟩)
    · -- what is left is not before what is popped
      exact absurd ((hspec.due u hu).trans_lt (hspec.not_due t ht)) (not_lt.mpr (hmono t u hlt.le))
    · exact .inl ⟨ht, hu, hlt⟩
  · simp [hrest] at ht
  · simp [hrest] at h

/-- The task behind is not the next one of the batch. -/
theorem Ahead.not_next [LinearOrder T] (h : Ahead key s t u) (hc : Conserved tr s) (hne : t ≠ u)
    {rest : List (Task T O)} (hw : s.worker.rest = u :: rest) : False := by
  have hnd := hc.places_nodup
  rw [PyLwip.places, List.append_assoc, hw] at hnd
  -- `u` would be in two places, or twice in the batch
  obtain ⟨hqr, -, -⟩ := List.nodup_append.mp hnd
  obtain ⟨-, hr, hdisj⟩ := List.nodup_append.mp hqr
  rcases h with ⟨-, hu, -⟩ | ⟨-, hu⟩ | h
  · exact hdisj u hu u List.mem_cons_self rfl
  · exact hdisj u hu u List.mem_cons_self rfl
  · rw [hw] at h
    cases h with
    | cons _ h => exact (List.nodup_cons.mp hr).1 (h.subset (by simp))
    | cons_cons _ h => exact hne rfl

/-- **The horizon**: the clock reading of the last pop, which nothing taken
off the queue exceeds and everything still queued does. -/
structure Chrono [LE T] (tr : List (Event T O V)) (s : Sys T O V) : Prop where
  sorted : (invokedTasks tr ++ s.worker.rest).Pairwise fun t u => t.absTime ≤ u.absTime
  horizon : ∃ τ, τ ≤ s.now ∧
    (∀ t ∈ invokedTasks tr ++ s.worker.rest, t.absTime ≤ τ) ∧ ∀ t ∈ s.queue, τ ≤ t.absTime

/-- A step at which the batch only shrinks, the queue is the same and no
action starts. -/
theorem Chrono.shrink [Preorder T] (h : Chrono tr s) (hnow : s.now ≤ s'.now)
    (hq : s'.queue = s.queue) (hrest : s'.worker.rest.Sublist s.worker.rest)
    (hev : ∀ e ∈ ev, e.invoked? = none) : Chrono (tr ++ ev.toList) s' := by
  have hinv : invokedTasks (tr ++ ev.toList) = invokedTasks tr := by
    cases ev with
    | none => simp
    | some e => simp [hev e rfl]
  obtain ⟨τ, hτ, hbefore, hafter⟩ := h.horizon
  constructor
  · rw [hinv]
    exact h.sorted.sublist (hrest.append_left _)
  · refine ⟨τ, hτ.trans hnow, fun t ht => hbefore t ?_, fun t ht => hafter t (hq ▸ ht)⟩
    rw [hinv] at ht
    exact (hrest.append_left _).subset ht

/-- A pop starts a new horizon, its own clock reading. -/
theorem Chrono.pop [LinearOrder T] (h : Chrono tr s) {p : T} {tasks : List (Task T O)}
    (hp : s.now ≤ p)
    (hspec : TaskQueue.PopSpec p s.queue tasks s'.queue)
    (hsorted : tasks.Pairwise fun t u => t.key ≤ u.key) (hnow : s'.now = p)
    (hrest : s'.worker.rest = tasks) : Chrono (tr ++ [.popped tasks]) s' := by
  obtain ⟨τ, hτ, hbefore, hafter⟩ := h.horizon
  have hmem : ∀ t ∈ tasks, t ∈ s.queue := fun t ht =>
    hspec.perm.mem_iff.mp (List.mem_append_left _ ht)
  have hbefore' : ∀ t ∈ invokedTasks tr, t.absTime ≤ τ := fun t ht =>
    hbefore t (List.mem_append_left _ ht)
  have hinv : invokedTasks (tr ++ [.popped tasks]) = invokedTasks tr := by simp [Event.invoked?]
  constructor
  · rw [hinv, hrest, List.pairwise_append]
    refine ⟨(List.pairwise_append.mp h.sorted).1, hsorted.imp Task.absTime_le_of_key_le, ?_⟩
    exact fun t ht u hu => (hbefore' t ht).trans (hafter u (hmem u hu))
  · refine ⟨p, hnow.ge, fun t ht => ?_, fun t ht => (hspec.not_due t ht).le⟩
    rw [hinv, hrest] at ht
    rcases List.mem_append.mp ht with ht | ht
    · exact (hbefore' t ht).trans (hτ.trans hp)
    · exact hspec.due t ht

end States

/-! ## Every step keeps it -/

section Steps

variable [RichCompare O] [AddCommGroup T] [LinearOrder T] {timeoutMax : T}
  {tr pre post : List (Event T O V)} {s s' m : Sys T O V} {ev : Option (Event T O V)}

theorem DueOnly.step (h : DueOnly tr s) (hc : Conserved tr s)
    (hs : Transition timeoutMax s ev s') : DueOnly (tr ++ ev.toList) s' := by
  cases hs with
  | pop hr hp hw hl hroot hdue hpop =>
    obtain ⟨hspec, -⟩ := hc.popsBy _ _ _ hpop
    exact ⟨hspec.due, fun t r ht => h.invoked t r (by simpa using ht)⟩
  | @invoke r task rest hr hw hf =>
    refine ⟨fun t ht => (h.rest t ?_).trans hr, fun t r' ht => ?_⟩
    · rw [hw]
      exact List.mem_cons_of_mem _ ht
    · rcases List.mem_append.mp ht with ht | ht
      · exact h.invoked t r' ht
      · obtain ⟨rfl, rfl⟩ : t = task ∧ r' = r := by simpa using ht
        exact (h.rest t (by simp [hw, Worker.rest])).trans hr
  | @skip r task rest hr hw hf =>
    exact h.shrink hr (fun t ht => by rw [hw]; exact List.mem_cons_of_mem _ ht) (by simp)
  | popRaised hr hp => exact h.shrink (hr.trans hp) (by simp [Worker.rest]) (by simp)
  | leave hr | wait hr | timeout hr | enterRun hr | start hr | takeRaised hr | completeRaised hr =>
    exact h.shrink hr (by simp [Worker.rest]) (by simp)
  | rejected hr | cancel hr | scheduleRaised hr => exact h.shrink hr (by simp) (by simp)
  | accepted hr | stop hr => exact h.shrink hr (by simp) (by simp)
  | complete hr hw | settle hr hw | settleSync hr hw | load hr hw | store hr hw =>
    exact h.shrink hr (by simp [hw, Worker.rest]) (by simp)

/-- A future is cancelled by a call of `cancel` that returned `True`. -/
theorem Transition.isCancelled (hs : Transition timeoutMax s ev s') {n : ℕ}
    (hn : s'.isCancelled n = true) : s.isCancelled n = true ∨ ev = some (.cancelled n true) := by
  -- an update of one future to a state that is not cancelled
  have hupdate : ∀ {f : ℕ → Future V} {k : ℕ} {x : Future V},
      (x.isCancelled = true → (f k).isCancelled = true) →
      (Function.update f k x n).isCancelled = true → (f n).isCancelled = true := by
    intro f k x hx hn
    by_cases heq : n = k
    · subst heq
      exact hx (by simpa using hn)
    · simpa [Function.update_of_ne heq] using hn
  cases hs with
  | @cancel r k hr hk =>
    by_cases heq : n = k
    · subst heq
      have hc : (s.future n).cancel.1.isCancelled = true := by
        simpa [Sys.isCancelled] using hn
      have hret : (s.future n).cancel.2 = true := by
        revert hc
        cases s.future n <;> simp [Future.cancel, Future.isCancelled]
      exact .inr (by rw [hret])
    · exact .inl (by simpa [Sys.isCancelled, Function.update_of_ne heq] using hn)
  | invoke => exact .inl (hupdate (by simp [Future.isCancelled]) hn)
  | skip hr hw hf => exact .inl (hupdate (by simp [hf, Future.isCancelled]) hn)
  | complete => exact .inl (hupdate (by simp [Future.isCancelled]) hn)
  | _ => exact .inl hn

theorem cancelled_of_isCancelled {now : T} (h : Interleaving timeoutMax (Sys.new now) tr s)
    {n : ℕ} (hn : s.isCancelled n = true) : .cancelled n true ∈ tr := by
  refine h.invariant (I := fun tr s => s.isCancelled n = true → .cancelled n true ∈ tr)
    (fun hn => by simp [Sys.isCancelled, Sys.new, Future.isCancelled] at hn) ?_ hn
  intro tr t o u _ ih hs hn
  rcases hs.transition.isCancelled hn with hn | rfl
  · exact List.mem_append_left _ (ih hn)
  · simp

/-- A cancelled future stays cancelled. -/
theorem isCancelled_mono {now : T} {tr' : List (Event T O V)}
    (h : Interleaving timeoutMax (Sys.new now) tr s) (hc : Conserved tr' s')
    (hpre : tr <+: tr') {n : ℕ} (hn : s.isCancelled n = true) : s'.isCancelled n = true :=
  hc.cancelled n (hpre.subset (cancelled_of_isCancelled h hn))

section Key

variable {κ : Type} [LinearOrder κ] {key : Task T O → κ} {t u : Task T O}

/-- The task a step takes off the batch. -/
def Event.taken? : Event T O V → Option (Task T O)
  | .invoked t _ | .skipped t => some t
  | _ => none

/-- **The step lemma**: a step keeps `t` ahead of `u` unless it takes `t`. -/
theorem Ahead.step (hmono : ∀ t u : Task T O, key t ≤ key u → t.absTime ≤ u.absTime)
    (h : Ahead key s t u) (hc : Conserved tr s) (hby : PopsBy key s)
    (hs : Transition timeoutMax s ev s') (hcmp : ∀ x, ev ≠ some (.crashed (.comparison x)))
    (htake : ∀ e ∈ ev, e.taken? ≠ some t) : Ahead key s' t u := by
  cases hs with
  | accepted hr hst htime hfut hpush | scheduleRaised hr hst htime hfut hpush =>
    exact h.mono (fun x hx => TaskQueue.mem_of_scheduleTask hpush hx) (by simp)
  | pop hr hp hw hl hroot hdue hpop =>
    obtain ⟨hspec, hsorted⟩ := hby _ _ _ hpop
    exact h.pop hmono hw hspec hsorted rfl
  | popRaised => exact absurd rfl (hcmp _)
  | @invoke r task rest hr hw hf | @skip r task rest hr hw hf =>
    have hne : t ≠ task := by
      rintro rfl
      exact htake _ rfl rfl
    exact h.take hne (by rw [hw]; rfl) rfl rfl
  | takeRaised hr hw hp hcan => exact absurd (hc.take_returns hw hp) hcan
  | completeRaised hr hw hf => exact absurd (hc.finish_returns hw) hf
  | leave hr hw | wait hr hw | timeout hr hw =>
    exact h.mono (fun _ hx => hx) (by rw [Worker.rest_of_atTurn hw]; rfl)
  | start hr hw | enterRun hr hw => exact h.mono (fun _ hx => hx) (by simp [hw, Worker.rest])
  | rejected | cancel => exact h.mono (fun _ hx => hx) rfl
  | stop => exact h.mono (fun _ hx => hx) (by simp)
  | complete hr hw | settle hr hw | settleSync hr hw | load hr hw | store hr hw =>
    exact h.mono (fun _ hx => hx) (by simp [hw, Worker.rest])

/-- The steps of states whose queue pops by `key`. -/
abbrev KeyedSteps (timeoutMax : T) (key : Task T O → κ) (s : Sys T O V)
    (ev : Option (Event T O V)) (s' : Sys T O V) : Prop :=
  Steps timeoutMax s ev s' ∧ PopsBy key s

/-- **The run lemma**: `t` stays ahead of `u` until it is taken. -/
theorem Ahead.run (hmono : ∀ t u : Task T O, key t ≤ key u → t.absTime ≤ u.absTime) {now : T}
    (hrun : Interleaving timeoutMax (Sys.new now) tr m) (hpops : PopsReturn (tr ++ pre))
    (hrest : Run (KeyedSteps timeoutMax key) m pre s) (h : Ahead key m t u)
    (htake : ∀ e ∈ pre, e.taken? ≠ some t) : Ahead key s t u := by
  refine hrest.invariant
    (I := fun pre s => PopsReturn (tr ++ pre) → (∀ e ∈ pre, e.taken? ≠ some t) → Ahead key s t u)
    (fun _ _ => h) ?_ hpops htake
  intro pre s ev s' hpre ih hs hpops htake
  rw [← List.append_assoc] at hpops
  have hc := conserved_of_run (hrun.trans (hpre.mono fun _ _ _ h => h.1)) hpops.left
  exact (ih hpops.left fun e he => htake e (List.mem_append_left _ he)).step hmono hc hs.2
    hs.1.transition hpops.ne_crashed
    fun e he => htake e (List.mem_append_right _ (by simpa using he))

/-- **The smaller task first.** Where `u` is invoked, a task that was ahead
of it and was not cancelled has been invoked. -/
theorem Ahead.invoked_first (hmono : ∀ t u : Task T O, key t ≤ key u → t.absTime ≤ u.absTime)
    {now r : T} (hrun : Interleaving timeoutMax (Sys.new now) tr m)
    (hrest : Run (KeyedSteps timeoutMax key) m (pre ++ .invoked u r :: post) s)
    (hpops : PopsReturn (tr ++ pre)) (hne : t ≠ u) (h : Ahead key m t u)
    (hcan : .cancelled t.future true ∉ tr ++ pre) : t ∈ invokedTasks pre := by
  obtain ⟨a, b, hpre, hinv, -⟩ := hrest.split
  have hall := hrun.trans (hpre.mono fun _ _ _ h => h.1)
  have hc := conserved_of_run hall hpops
  by_contra hnot
  have htake : ∀ e ∈ pre, e.taken? ≠ some t := by
    intro e he htk
    cases e <;> simp only [Event.taken?, Option.some.injEq, reduceCtorEq] at htk
    · -- skipped, so its future was cancelled
      subst htk
      refine hcan (cancelled_of_isCancelled hall ?_)
      rw [Sys.isCancelled, hc.skipped _ (List.mem_append_right _ he)]
      rfl
    · subst htk
      exact hnot (mem_seen.mpr ⟨_, he, rfl⟩)
  have hahead := h.run hmono hrun hpops hpre htake
  cases hinv.1.transition with
  | invoke hr hw hf => exact hahead.not_next hc hne (by rw [hw]; rfl)

end Key

/-- **No action starts before its time.** -/
theorem dueOnly_of_run {now : T} (h : Interleaving timeoutMax (Sys.new now) tr s)
    (hpops : PopsReturn tr) : DueOnly tr s := by
  refine h.invariant (I := fun tr s => PopsReturn tr → DueOnly tr s)
    (fun _ => ⟨by simp [Sys.new, Worker.rest], by simp⟩) ?_ hpops
  intro tr t o u hrun ih hs hpops
  exact (ih hpops.left).step (conserved_of_run hrun hpops.left) hs.transition

section Delays

variable [IsOrderedAddMonoid T]

/-- A push of a task that is not due yet. -/
theorem Chrono.push (h : Chrono tr s) {e : Event T O V} {task : Task T O} {r delay : T}
    {q : TaskQueue T O} {out : Except PyError Unit} (hr : s.now ≤ r) (hdelay : 0 ≤ delay)
    (htime : task.absTime = r + delay) (hpush : s.executor.tasks.scheduleTask task = (q, out))
    (hnow : s'.now = r) (hq : s'.executor.tasks = q) (hrest : s'.worker.rest = s.worker.rest)
    (hinv : e.invoked? = none) : Chrono (tr ++ [e]) s' := by
  obtain ⟨τ, hτ, hbefore, hafter⟩ := h.horizon
  refine ⟨by simpa [hinv, hrest] using h.sorted, τ, hτ.trans (hr.trans hnow.ge),
    by simpa [hinv, hrest] using hbefore, fun t ht => ?_⟩
  rw [Sys.queue, hq] at ht
  rcases List.mem_cons.mp ((TaskQueue.scheduleTask_perm hpush).mem_iff.mp ht) with rfl | ht
  · rw [htime]
    exact (hτ.trans hr).trans (le_add_of_nonneg_right hdelay)
  · exact hafter t ht

theorem Chrono.step (h : Chrono tr s) (hc : Conserved tr s) (hs : Transition timeoutMax s ev s')
    (hcmp : ∀ x, ev ≠ some (.crashed (.comparison x)))
    (hpush : ∀ t x, ev ≠ some (.scheduleRaised t x))
    (hdelay : ∀ e ∈ ev, ∀ d ∈ e.delay?, 0 ≤ d) : Chrono (tr ++ ev.toList) s' := by
  cases hs with
  | accepted hr hst htime hfut hp =>
    exact h.push hr (hdelay _ rfl _ rfl) htime hp rfl rfl (by simp) rfl
  | scheduleRaised => exact absurd rfl (hpush _ _)
  | pop hr hp hw hl hroot hdue hpop =>
    obtain ⟨hspec, hsorted⟩ := hc.popsBy _ _ _ hpop
    exact h.pop (hr.trans hp) hspec hsorted rfl rfl
  | popRaised => exact absurd rfl (hcmp _)
  | @invoke r task rest hr hw hf =>
    obtain ⟨τ, hτ, hbefore, hafter⟩ := h.horizon
    have hsame : invokedTasks (tr ++ [.invoked task r]) ++ rest =
        invokedTasks tr ++ s.worker.rest := by
      simp [Event.invoked?, hw, Worker.rest]
    exact ⟨hsame ▸ h.sorted, τ, hτ.trans hr, hsame ▸ hbefore, hafter⟩
  | @skip r task rest hr hw hf =>
    refine h.shrink hr rfl ?_ (by simp [Event.invoked?])
    rw [hw]
    exact List.sublist_cons_self _ _
  | leave hr | wait hr | timeout hr | enterRun hr | start hr | takeRaised hr | completeRaised hr =>
    exact h.shrink hr rfl (by simp [Worker.rest]) (by simp [Event.invoked?])
  | rejected hr | cancel hr | stop hr =>
    exact h.shrink hr rfl (by simp) (by simp [Event.invoked?])
  | complete hr hw | settle hr hw | settleSync hr hw | load hr hw | store hr hw =>
    exact h.shrink hr rfl (by simp [hw, Worker.rest]) (by simp [Event.invoked?])

/-- **The started actions are in the order of their times**, when no delay
is negative. -/
theorem chrono_of_run {now : T} (h : Interleaving timeoutMax (Sys.new now) tr s)
    (hq : NoComparisonRaises tr) (hdelay : ∀ d ∈ delays tr, 0 ≤ d) : Chrono tr s := by
  refine h.invariant
    (I := fun tr s => NoComparisonRaises tr → (∀ d ∈ delays tr, 0 ≤ d) → Chrono tr s)
    (fun _ _ => ⟨by simp [Sys.new, Worker.rest], now, le_rfl, by simp [Sys.new, Worker.rest],
      by simp [Sys.new, Sys.queue, Executor.new]⟩) ?_ hq hdelay
  intro tr t o u hrun ih hs hq hdelay
  have ht := ih hq.left fun d hd => hdelay d (by
    rw [delays, List.filterMap_append]
    exact List.mem_append_left _ hd)
  refine ht.step (conserved_of_run hrun hq.1.left) hs.transition hq.1.ne_crashed hq.2.ne_raised ?_
  intro e he d hd
  refine hdelay d (List.mem_filterMap.mpr ⟨e, ?_, hd⟩)
  exact List.mem_append_right _ (by simpa using he)

/-! ## The order -/

/-- **Actions run in the order of their times and priorities.** None starts
early; of two tasks queued at once, neither ever cancelled, the smaller
starts first; and with no negative delay the times of the started actions
never decrease. -/
theorem execution_order {now : T} (h : Interleaving timeoutMax (Sys.new now) tr s)
    (hq : NoComparisonRaises tr) :
    (∀ t r, .invoked t r ∈ tr → t.absTime ≤ r) ∧
    (∀ tr₁ tr₂ m, tr = tr₁ ++ tr₂ → Interleaving timeoutMax (Sys.new now) tr₁ m →
      Interleaving timeoutMax m tr₂ s → ∀ t ∈ m.queue, ∀ u ∈ m.queue, t.key < u.key →
      .cancelled t.future true ∉ tr → .cancelled u.future true ∉ tr →
      ∀ pre r post, tr₂ = pre ++ .invoked u r :: post → t ∈ invokedTasks pre) ∧
    ((∀ d ∈ delays tr, 0 ≤ d) →
      (invokedTasks tr).Pairwise fun t u => t.absTime ≤ u.absTime) := by
  refine ⟨(dueOnly_of_run h hq.1).invoked, ?_, fun hdelay =>
    (List.pairwise_append.mp (chrono_of_run h hq hdelay).sorted).1⟩
  rintro tr₁ _ m rfl hrun hrest t ht u hu hlt htc - pre r post rfl
  have hsub : ∀ pre', pre' <+: pre ++ .invoked u r :: post → tr₁ ++ pre' ⊆ tr₁ ++ _ :=
    fun pre' h => ((List.prefix_append_right_inj tr₁).mpr h).subset
  have hpre : pre <+: pre ++ .invoked u r :: post := List.prefix_append _ _
  have hkeyed : Run (KeyedSteps timeoutMax Task.key) m (pre ++ .invoked u r :: post) s :=
    hrest.restrict fun pre' t o u hpre' hr _ =>
      (conserved_of_run (hrun.trans hr) fun e he => hq.1 e (hsub pre' hpre' he)).popsBy
  exact Ahead.invoked_first (fun _ _ => Task.absTime_le_of_key_le) hrun hkeyed
    (fun e he => hq.1 e (hsub pre hpre he)) (by rintro rfl; exact lt_irrefl _ hlt)
    (.inl ⟨ht, hu, hlt⟩) fun hcan => htc (hsub pre hpre hcan)

end Delays

/-- A call, and while it is running two more, the second with the smaller
priority. -/
def overtaken : Sys ℤ Callable ℕ × List (Event ℤ Callable ℕ) :=
  outcome (Sys.step 100) (Sys.new 0)
    [(0, .start), (0, .enterRun), (0, .schedule 0 0 ⟨0⟩ [] []), (1, .turn 1), (1, .take),
      (2, .schedule 1 5 ⟨1⟩ [] []), (2, .schedule 1 4 ⟨2⟩ [] [])] (by decide)

/-- Both are due in the next batch. -/
def overtaking : Sys ℤ Callable ℕ × List (Event ℤ Callable ℕ) :=
  outcome (Sys.step 100) overtaken.1
    [(3, .finish (.result 0)), (3, .settle), (4, .turn 4), (4, .take), (4, .finish (.result 0)),
      (4, .settle), (5, .take)] (by decide)

theorem execution_order_overtaking :
    (invokedTasks overtaking.2).map Task.future = [2, 1] ∧
    (∀ t ∈ overtaken.1.queue, ∀ u ∈ overtaken.1.queue, t.key < u.key →
      ∀ pre r post, overtaking.2 = pre ++ .invoked u r :: post → t ∈ invokedTasks pre) ∧
    (invokedTasks (overtaken.2 ++ overtaking.2)).Pairwise fun t u => t.absTime ≤ u.absTime := by
  have hqueued : Interleaving 100 (Sys.new 0) overtaken.2 overtaken.1 := run_outcome _ _ _ _
  have hran : Interleaving 100 overtaken.1 overtaking.2 overtaking.1 := run_outcome _ _ _ _
  obtain ⟨-, hfirst, hchrono⟩ := execution_order (hqueued.trans hran) (by decide)
  have hkept : ∀ t ∈ overtaken.1.queue,
      .cancelled t.future true ∉ overtaken.2 ++ overtaking.2 := by decide
  exact ⟨by decide, fun t ht u hu hlt => hfirst _ _ _ rfl hqueued hran t ht u hu hlt
    (hkept t ht) (hkept u hu), hchrono (by decide)⟩

end Steps

end PyLwip
