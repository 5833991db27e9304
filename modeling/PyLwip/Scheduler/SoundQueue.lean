import PyLwip.Scheduler.Conservation

/-!
# The queue after a pop that raised

A comparison that raises in a pop ends the loop, and what the pop had
collected is lost, so that the tasks are no longer conserved. What is still
queued then is as it was: `QueueSound` says of the queue what `Conserved`
says of it, and holds in every run.
-/

namespace PyLwip

open EventSystem

variable {T O V : Type}

/-- **What is left of the queue** has futures of its own, which wait. -/
structure QueueSound (tr : List (Event T O V)) (s : Sys T O V) : Prop where
  nodup : (s.queue.map Task.future).Nodup
  lt : ∀ t ∈ s.queue, t.future < s.nextFuture
  apart : ∀ t ∈ s.queue, ∀ t' ∈ s.worker.rest ++ s.worker.current, t.future ≠ t'.future
  waiting : ∀ t ∈ s.queue, s.future t.future = .pending ∨ s.future t.future = .cancelled
  fresh : ∀ n, s.nextFuture ≤ n → s.future n = .pending
  completed : ∀ t o, .completed t o ∈ tr → s.future t.future = .finished o

variable {tr : List (Event T O V)} {s s' : Sys T O V}

theorem Conserved.queueSound [LinearOrder T] (h : Conserved tr s) : QueueSound tr s := by
  have hnd := h.nodup
  rw [PyLwip.places, List.append_assoc s.queue, List.append_assoc, List.map_append] at hnd
  obtain ⟨hqueue, -, hapart⟩ := List.nodup_append.mp hnd
  exact {
    nodup := hqueue
    lt := fun t ht => h.future_lt (by simp [PyLwip.places, ht])
    apart := fun t ht t' ht' => hapart _ (List.mem_map_of_mem ht) _
      (List.mem_map_of_mem (List.mem_append_left _ ht'))
    waiting := fun t ht => h.waiting t (List.mem_append_left _ ht)
    fresh := h.fresh
    completed := h.completed }

namespace QueueSound

/-- A call of `Future.cancel`. -/
theorem cancel (h : QueueSound tr s) {r : T} {n : ℕ} (hn : n < s.nextFuture) :
    QueueSound (tr ++ [.cancelled n (s.future n).cancel.2])
      { s with now := r, future := Function.update s.future n (s.future n).cancel.1 } := by
  refine { h with
    waiting := fun t ht => ?_
    fresh := fun m hm => ?_
    completed := fun t o ht => ?_ }
  · by_cases heq : t.future = n
    · subst heq
      rcases h.waiting t ht with hf | hf <;> simp [hf, Future.cancel]
    · simpa [Function.update_of_ne heq] using h.waiting t ht
  · have hne : m ≠ n := by
      rintro rfl
      exact absurd hn (Nat.not_lt.mpr hm)
    simpa [Function.update_of_ne hne] using h.fresh m hm
  · have hf := h.completed t o (by simpa using ht)
    by_cases heq : t.future = n
    · subst heq
      simp [hf, Future.cancel]
    · simpa [Function.update_of_ne heq] using hf

section Queue

variable [RichCompare O] [LinearOrder T]

/-- A pop that raises leaves some of the queue, and no batch. -/
theorem popRaised (h : QueueSound tr s) {p : T} {q : TaskQueue T O} {x : PyError}
    (hpop : s.executor.tasks.popTasksTillTimestamp p = (q, .error x)) :
    QueueSound (tr ++ [.crashed (.comparison x)])
      { s with
        now := p, executor := { s.executor with tasks := q },
        worker := .crashed (.comparison x) } := by
  have hsub : q.getTasks.Subperm s.queue := TaskQueue.popTasksTillTimestamp_subperm hpop
  have hnodup : (q.getTasks.map Task.future).Nodup := by
    obtain ⟨l, hperm, hsublist⟩ := hsub
    exact (hperm.map _).nodup_iff.mp (h.nodup.sublist (hsublist.map _))
  exact {
    nodup := hnodup
    lt := fun t ht => h.lt t (hsub.subset ht)
    apart := fun t ht => by simp [Worker.rest, Worker.current]
    waiting := fun t ht => h.waiting t (hsub.subset ht)
    fresh := h.fresh
    completed := by simpa using h.completed }

/-- A push adds a task with a future of its own. -/
theorem push (h : QueueSound tr s) {c : Crash} (hw : s.worker = .crashed c) {task : Task T O}
    {e : Event T O V} {q : TaskQueue T O} {out : Except PyError Unit}
    (hfut : task.future = s.nextFuture)
    (hpush : s.executor.tasks.scheduleTask task = (q, out))
    (he : ∀ t o, e ≠ .completed t o) (hq : s'.executor.tasks = q) (hf : s'.future = s.future)
    (hn : s'.nextFuture = s.nextFuture + 1) (hw' : s'.worker = s.worker) :
    QueueSound (tr ++ [e]) s' := by
  have hperm : s'.queue.Perm (task :: s.queue) := by
    rw [Sys.queue, hq]
    exact TaskQueue.scheduleTask_perm hpush
  have hmem : ∀ t ∈ s'.queue, t = task ∨ t ∈ s.queue := fun t ht => by
    simpa using hperm.mem_iff.mp ht
  constructor
  · rw [(hperm.map _).nodup_iff, List.map_cons, List.nodup_cons]
    refine ⟨fun hin => ?_, h.nodup⟩
    obtain ⟨t, ht, heq⟩ := List.mem_map.mp hin
    have := h.lt t ht
    omega
  · intro t ht
    rcases hmem t ht with rfl | ht
    · omega
    · have := h.lt t ht
      omega
  · simp [hw', hw, Worker.rest, Worker.current]
  · intro t ht
    rw [hf]
    rcases hmem t ht with rfl | ht
    · exact .inl (h.fresh _ hfut.ge)
    · exact h.waiting t ht
  · intro n hle
    exact hf ▸ h.fresh n (by omega)
  · intro t o ht
    rcases List.mem_append.mp ht with ht | ht
    · exact hf ▸ h.completed t o ht
    · exact absurd (List.mem_singleton.mp ht).symm (he t o)

end Queue

end QueueSound

section Steps

variable [RichCompare O] [AddCommGroup T] [LinearOrder T] {timeoutMax : T}
  {ev : Option (Event T O V)}

/-- **The step lemma** for a worker that has crashed: what is left are calls of
other threads. -/
theorem QueueSound.step_of_crashed (h : QueueSound tr s) {c : Crash} (hw : s.worker = .crashed c)
    (hs : Transition timeoutMax s ev s') :
    QueueSound (tr ++ ev.toList) s' ∧ s'.worker = .crashed c := by
  cases hs with
  | rejected => exact ⟨{ h with completed := by simpa using h.completed }, hw⟩
  | accepted hr hst htime hfut hpush =>
    exact ⟨h.push hw hfut hpush (by simp) rfl rfl rfl (by simp [hw, Worker.notify]),
      by simp [hw, Worker.notify]⟩
  | scheduleRaised hr hst htime hfut hpush =>
    exact ⟨h.push hw hfut hpush (by simp) rfl rfl rfl rfl, hw⟩
  | cancel hr hn => exact ⟨h.cancel hn, hw⟩
  | stop =>
    exact ⟨{ h with
      apart := fun t ht => by simpa using h.apart t ht
      completed := by simpa using h.completed }, by simp [hw, Worker.notify]⟩
  | leave _ hat | wait _ hat | timeout _ hat | pop _ _ hat | popRaised _ _ hat =>
    simp [hw, Worker.atTurn] at hat
  | start _ hw' | enterRun _ hw' | invoke _ hw' | skip _ hw' | takeRaised _ hw'
  | complete _ hw' | completeRaised _ hw' | settleSync _ hw' | settle _ hw' | load _ hw'
  | store _ hw' =>
    rw [hw] at hw'
    cases hw'

/-- **The queue of every run**, whatever raises: until a comparison raises in a
pop the tasks are conserved, and then the worker is gone. -/
theorem queueSound_of_run {now : T} (h : Interleaving timeoutMax (Sys.new now) tr s) :
    QueueSound tr s := by
  suffices hall : Conserved tr s ∨ (∃ c, s.worker = .crashed c) ∧ QueueSound tr s from
    hall.elim Conserved.queueSound And.right
  refine h.invariant
    (I := fun tr s => Conserved tr s ∨ (∃ c, s.worker = .crashed c) ∧ QueueSound tr s)
    (.inl (.init now)) ?_
  rintro tr s ev s' - (hc | ⟨⟨c, hw⟩, hq⟩) hs
  · by_cases hcmp : ∃ x, ev = some (.crashed (.comparison x))
    · obtain ⟨x, rfl⟩ := hcmp
      cases hs.transition with
      | popRaised hr hp hw hl hpop => exact .inr ⟨⟨_, rfl⟩, hc.queueSound.popRaised hpop⟩
    · exact .inl (hc.step hs.transition fun x hx => hcmp ⟨x, hx⟩)
  · obtain ⟨hq', hw'⟩ := hq.step_of_crashed hw hs.transition
    exact .inr ⟨⟨c, hw'⟩, hq'⟩

end Steps

end PyLwip
