import PyLwip.Scheduler.Liveness

/-!
# What becomes of the result of a call

`schedule_delayed` hands out a future, and `result` waits until it is done. In
a fair run an action that is called ends and sets its future, and a stop ends
the thread; so a caller waits for ever only for a task that the thread left
behind when it ended.
-/

namespace PyLwip

open EventSystem

variable {T O V : Type}

/-! ## One step -/

section Executor

variable [RichCompare O] [AddCommGroup T] [LinearOrder T] {timeoutMax : T}
  {tr : List (Event T O V)} {s s' : Sys T O V} {ev : Option (Event T O V)} {t : Task T O}

/-- A worker whose thread has not ended has popped without raising. -/
theorem popsReturn_of_alive {now : T} (h : Interleaving timeoutMax (Sys.new now) tr s)
    (hend : s.worker.ended = false) : PopsReturn tr := by
  refine (h.invariant (I := fun tr s => PopsReturn tr ∨ s.worker.ended = true)
    (.inl (by simp [PopsReturn])) ?_).resolve_right (by simp [hend])
  rintro tr s ev s' - (hpops | hend) hs
  · cases ev with
    | none => exact .inl (by simpa using hpops)
    | some e =>
      cases he : e.popRaised with
      | false =>
        refine .inl fun e' he' => ?_
        rcases List.mem_append.mp he' with he' | he'
        · exact hpops e' he'
        · obtain rfl : e' = e := by simpa using he'
          exact he
      | true =>
        cases hs.transition with
        | popRaised => exact .inr rfl
        | _ => cases he
  · exact .inr (hs.transition.ended hend)

/-- **The step lemma**: an action that is called ends by an act of the worker. -/
theorem executing_next {rest : List (Task T O)} (hw : s.worker = .executing t rest)
    (hs : Transition timeoutMax s ev s') :
    (∃ o, ev = some (.completed t o)) ∨ s'.worker.ended = true ∨
      s'.worker = .executing t rest ∧ ∃ e, ev = some e ∧ e.ofWorker = false := by
  cases hs with
  | rejected | cancel | scheduleRaised => exact .inr (.inr ⟨hw, _, rfl, rfl⟩)
  | accepted | stop => exact .inr (.inr ⟨by simp [hw, Worker.notify], _, rfl, rfl⟩)
  | complete hr hw' =>
    obtain ⟨rfl, -⟩ := Worker.executing.inj (hw.symm.trans hw')
    exact .inl ⟨_, rfl⟩
  | completeRaised => exact .inr (.inl rfl)
  | leave _ hat | wait _ hat | timeout _ hat | pop _ _ hat | popRaised _ _ hat =>
    simp [hw, Worker.atTurn] at hat
  | start _ hw' | enterRun _ hw' | invoke _ hw' | skip _ hw' | takeRaised _ hw'
  | settleSync _ hw' | settle _ hw' | load _ hw' | store _ hw' =>
    rw [hw] at hw'
    cases hw'

theorem Transition.invoking {r : T} (hs : Transition timeoutMax s (some (.invoked t r)) s') :
    ∃ rest, s'.worker = .executing t rest := by
  cases hs with
  | invoke => exact ⟨_, rfl⟩

/-- **A future that is done stays done.** -/
theorem Transition.isDone (hs : Transition timeoutMax s ev s') {n : ℕ}
    (h : (s.future n).isDone = true) : (s'.future n).isDone = true := by
  cases hs with
  | @cancel r m hr hm =>
    by_cases hn : n = m
    · subst hn
      cases hf : s.future n <;> simp_all [Future.cancel, Future.isDone]
    · simpa [Function.update_of_ne hn] using h
  | @invoke r task rest hr hw hf | @skip r task rest hr hw hf | @complete r o task rest hr hw =>
    by_cases hn : n = task.future
    · subst hn
      simp_all [Future.isDone]
    · simpa [Function.update_of_ne hn] using h
  | _ => exact h

/-- A future is running while the worker executes its task. -/
def Sys.RunsCurrent (s : Sys T O V) : Prop :=
  ∀ n, s.future n = .running → ∃ t ∈ s.worker.current, t.future = n

omit [RichCompare O] [AddCommGroup T] [LinearOrder T] in
theorem Sys.RunsCurrent.not_running (h : s.RunsCurrent) (hidle : s.worker.current = []) {n : ℕ} :
    s.future n ≠ .running := by
  intro hn
  obtain ⟨t, ht, -⟩ := h n hn
  simp [hidle] at ht

theorem Sys.RunsCurrent.step (h : s.RunsCurrent) (hs : Transition timeoutMax s ev s') :
    s'.RunsCurrent := by
  intro n hn
  cases hs with
  | start hr hw | enterRun hr hw => exact absurd hn (h.not_running (by simp [hw, Worker.current]))
  | rejected | scheduleRaised => exact h n hn
  | accepted | stop => simpa using h n hn
  | @cancel r m hr hm =>
    refine h n ?_
    by_cases hnm : n = m
    · subst hnm
      cases hf : s.future n <;> simp_all [Future.cancel]
    · simpa [Function.update_of_ne hnm] using hn
  | leave _ hat | wait _ hat | timeout _ hat | pop _ _ hat | popRaised _ _ hat =>
    exact absurd hn (h.not_running (Worker.current_of_atTurn hat))
  | @invoke r task rest hr hw hf =>
    by_cases hnt : n = task.future
    · exact ⟨task, by simp [Worker.current], hnt.symm⟩
    · simp only [Function.update_of_ne hnt] at hn
      exact absurd hn (h.not_running (by simp [hw, Worker.current]))
  | @skip r task rest hr hw hf =>
    by_cases hnt : n = task.future
    · simp [hnt] at hn
    · simp only [Function.update_of_ne hnt] at hn
      exact absurd hn (h.not_running (by simp [hw, Worker.current]))
  | takeRaised hr hw | settleSync hr hw | settle hr hw | load hr hw | store hr hw =>
    exact absurd hn (h.not_running (by simp [hw, Worker.current]))
  | @complete r o task rest hr hw =>
    by_cases hnt : n = task.future
    · simp [hnt] at hn
    · simp only [Function.update_of_ne hnt] at hn
      obtain ⟨t, ht, rfl⟩ := h n hn
      obtain rfl : t = task := by simpa [hw, Worker.current] using ht
      exact absurd rfl hnt
  | @completeRaised r task rest x hr hw hf =>
    obtain ⟨t, ht, rfl⟩ := h n hn
    obtain rfl : t = task := by simpa [hw, Worker.current] using ht
    exact absurd hn hf

theorem runsCurrent_of_run {now : T} (h : Interleaving timeoutMax (Sys.new now) tr s) :
    s.RunsCurrent :=
  h.state_invariant (I := Sys.RunsCurrent) (fun n hn => by simp [Sys.new] at hn)
    fun _ _ _ hruns hs => hruns.step hs.transition

omit [RichCompare O] [AddCommGroup T] [LinearOrder T] in
/-- A future that is not done when the thread has ended is still pending. -/
theorem pending_of_ended (h : s.RunsCurrent) (hend : s.worker.ended = true) {n : ℕ}
    (hnot : (s.future n).isDone = false) : s.future n = .pending := by
  cases hf : s.future n with
  | pending => rfl
  | running =>
    refine absurd hf (h.not_running ?_)
    cases hw : s.worker <;> simp_all [Worker.ended, Worker.current]
  | cancelled | cancelledAndNotified | finished => simp [hf, Future.isDone] at hnot

/-- Once the thread has ended nothing but a cancel sets a future. -/
theorem pending_next (hs : Transition timeoutMax s ev s') (hend : s.worker.ended = true) {n : ℕ}
    (hf : s.future n = .pending) (hkept : ev ≠ some (.cancelled n true)) :
    s'.future n = .pending := by
  cases hs with
  | @cancel r m hr hm =>
    by_cases hnm : n = m
    · subst hnm
      simp [hf, Future.cancel] at hkept
    · simpa [Function.update_of_ne hnm] using hf
  | invoke hr hw | skip hr hw | complete hr hw => simp [hw, Worker.ended] at hend
  | _ => exact hf

theorem Transition.accepted_running {d : T}
    (hs : Transition timeoutMax s (some (.accepted d t)) s') : s.executor.status = .running := by
  cases hs with
  | accepted _ hst => exact hst

/-- A future that is set stays as it is. -/
theorem Transition.finished (hs : Transition timeoutMax s ev s') {n : ℕ} {o : Outcome V}
    (h : s.future n = .finished o) (hrun : ∀ u rest, s.worker = .executing u rest → u.future ≠ n) :
    s'.future n = .finished o := by
  cases hs with
  | @cancel r m hr hm =>
    by_cases hn : n = m
    · subst hn
      simp [h, Future.cancel]
    · simpa [Function.update_of_ne hn] using h
  | @invoke r task rest hr hw hf | @skip r task rest hr hw hf =>
    have hn : n ≠ task.future := by
      rintro rfl
      simp [h] at hf
    simpa [Function.update_of_ne hn] using h
  | @complete r o' task rest hr hw =>
    simpa [Function.update_of_ne (hrun task rest hw).symm] using h
  | _ => exact h

/-- A future is set by the end of its action. -/
theorem Transition.executing_of_finished (hs : Transition timeoutMax s ev s') {n : ℕ}
    {o : Outcome V} (h : s'.future n = .finished o) :
    s.future n = .finished o ∨
      ∃ u rest, ev = some (.completed u o) ∧ s.worker = .executing u rest ∧ u.future = n := by
  cases hs with
  | @cancel r m hr hm =>
    refine .inl ?_
    by_cases hn : n = m
    · subst hn
      cases hf : s.future n <;> simp_all [Future.cancel]
    · simpa [Function.update_of_ne hn] using h
  | @invoke r task rest hr hw hf | @skip r task rest hr hw hf =>
    by_cases hn : n = task.future
    · simp [hn] at h
    · exact .inl (by simpa [Function.update_of_ne hn] using h)
  | @complete r o' task rest hr hw =>
    by_cases hn : n = task.future
    · subst hn
      obtain rfl : o' = o := by simpa using h
      exact .inr ⟨task, rest, rfl, hw, rfl⟩
    · exact .inl (by simpa [Function.update_of_ne hn] using h)
  | _ => exact .inl h

/-- What ends a task sets its future. -/
theorem Transition.isDone_of_finished {e : Event T O V} (hs : Transition timeoutMax s (some e) s')
    (he : e.finished? = some t) : (s'.future t.future).isDone = true := by
  cases hs with
  | skip | complete =>
    obtain rfl := Option.some.inj he
    simp [Future.isDone]
  | _ => cases he

theorem Transition.isDone_of_cancelled {n : ℕ}
    (hs : Transition timeoutMax s (some (.cancelled n true)) s') :
    (s'.future n).isDone = true := by
  generalize he : some (Event.cancelled n true) = ev at hs
  cases hs with
  | cancel =>
    obtain ⟨rfl, hret⟩ := Event.cancelled.inj (Option.some.inj he)
    simp only [Function.update_self]
    cases hf : s.future n <;> simp [hf, Future.cancel, Future.isDone] at hret ⊢
  | _ => cases he

end Executor

namespace Timeline

variable [RichCompare O] [AddCommGroup T] [LinearOrder T] {timeoutMax : T}
  {s : ℕ → Sys T O V} {ev : ℕ → Option (Event T O V)} {clock : ℕ → T} {moved : ℕ → Prop} {i : ℕ}
  {t : Task T O}

/-- **An action that was called ends**, or the thread does. -/
theorem completed_of_executing (h : Timeline timeoutMax s ev clock moved)
    {rest : List (Task T O)} (hw : (s i).worker = .executing t rest) :
    Eventually i fun j => (∃ o, ev j = some (.completed t o)) ∨ (s j).worker.ended = true := by
  refine Eventually.of_rank (P := fun j => (s j).worker = .executing t rest) (fun _ => 0) ?_ ?_
    h.fair hw
  · intro j _ hj
    rcases h.next j with ⟨r, a, -, hstep, hby⟩ | ⟨hmoved, -, heq⟩
    · rcases executing_next hj (transition_of_step hstep) with hcomp | hend | ⟨hj', e, he, hnot⟩
      · exact .inl (.now (.inl hcomp))
      · exact .inl ⟨j + 1, by omega, .inr hend⟩
      · refine .inr ⟨hj', le_rfl, fun hm => ?_⟩
        rw [he] at hstep
        rw [(emitted_of_step hstep (hby hm)).ofWorker] at hnot
        cases hnot
    · exact .inr ⟨heq ▸ hj, le_rfl, fun hm => absurd hm hmoved⟩
  · intro j _ hj _
    rw [hj]
    trivial

variable [IsOrderedAddMonoid T]

/-- **The action of a task that nobody cancels is called**, unless the executor
is stopped or its thread ends. -/
theorem invoked_of_accepted (h : Timeline timeoutMax s ev clock moved) {d : T}
    (hacc : ev i = some (.accepted d t)) (hkept : ∀ j, ev j ≠ some (.cancelled t.future true)) :
    Eventually i fun j => (∃ r, ev j = some (.invoked t r)) ∨ (s j).executor.status ≠ .running ∨
      (s j).worker.ended = true := by
  obtain ⟨j, hij, hserved⟩ := h.served_of_waitsFor (h.waitsFor_of_accepted hacc)
  rcases hserved with ⟨e, he, htaken⟩ | hhalted
  · cases e with
    | invoked u r =>
      obtain rfl := Option.some.inj htaken
      exact ⟨j, by omega, .inl ⟨r, he⟩⟩
    | skipped u =>
      obtain rfl := Option.some.inj htaken
      cases hend : (s (j + 1)).worker.ended with
      | true => exact ⟨j + 1, by omega, .inr (.inr hend)⟩
      | false =>
        -- its future would have been cancelled
        have hskip : .skipped u ∈ traceTo ev (j + 1) := mem_traceTo.mpr ⟨j, by omega, he⟩
        have hcan : (s (j + 1)).isCancelled u.future = true := by
          rw [Sys.isCancelled, (h.conserved hend).skipped u hskip]
          rfl
        obtain ⟨now, hreached⟩ := h.reached (j + 1)
        obtain ⟨k, -, hk⟩ := mem_traceTo.mp (cancelled_of_isCancelled hreached hcan)
        exact absurd hk (hkept k)
    | _ => cases htaken
  · exact ⟨j, by omega, .inr hhalted⟩

/-! ## The result of a call -/

omit [IsOrderedAddMonoid T] in
/-- What every step keeps is kept. -/
theorem kept (h : Timeline timeoutMax s ev clock moved) {P : Sys T O V → Prop}
    (hstep : ∀ s ev s', Transition timeoutMax s ev s' → P s → P s') {j : ℕ} (hij : i ≤ j)
    (hi : P (s i)) : P (s j) := by
  induction j, hij using Nat.le_induction with
  | base => exact hi
  | succ j _ ih =>
    rcases h.next j with ⟨r, a, -, hs, -⟩ | ⟨-, -, heq⟩
    · exact hstep _ _ _ (transition_of_step hs) ih
    · rwa [heq]

omit [IsOrderedAddMonoid T] in
/-- What is emitted is emitted by a step. -/
theorem transition (h : Timeline timeoutMax s ev clock moved) {e : Event T O V}
    (he : ev i = some e) : Transition timeoutMax (s i) (some e) (s (i + 1)) := by
  rcases h.next i with ⟨r, a, -, hs, -⟩ | ⟨-, hnone, -⟩
  · rw [he] at hs
    exact transition_of_step hs
  · simp [he] at hnone

/-- **The task is left behind**: the thread has ended without setting its
future, and nobody cancels it any more. -/
structure LeftBehind (s : ℕ → Sys T O V) (ev : ℕ → Option (Event T O V)) (t : Task T O)
    (j : ℕ) : Prop where
  ended : (s j).worker.ended = true
  pending : (s j).future t.future = .pending
  kept : ∀ k, j ≤ k → ev k ≠ some (.cancelled t.future true)

omit [IsOrderedAddMonoid T] in
theorem pending_of_leftBehind (h : Timeline timeoutMax s ev clock moved)
    (hleft : LeftBehind s ev t i) {j : ℕ} (hij : i ≤ j) : (s j).future t.future = .pending := by
  have hend : ∀ k, i ≤ k → (s k).worker.ended = true := fun k hik =>
    h.kept (P := fun s => s.worker.ended = true) (fun _ _ _ hs => hs.ended) hik hleft.ended
  induction j, hij using Nat.le_induction with
  | base => exact hleft.pending
  | succ j hij ih =>
    rcases h.next j with ⟨r, a, -, hs, -⟩ | ⟨-, -, heq⟩
    · exact pending_next (transition_of_step hs) (hend j hij) ih (hleft.kept j hij)
    · rwa [heq]

omit [IsOrderedAddMonoid T] in
theorem leftBehind_mono (h : Timeline timeoutMax s ev clock moved) (hleft : LeftBehind s ev t i)
    {j : ℕ} (hij : i ≤ j) : LeftBehind s ev t j where
  ended := h.kept (P := fun s => s.worker.ended = true) (fun _ _ _ hs => hs.ended) hij hleft.ended
  pending := h.pending_of_leftBehind hleft hij
  kept k hjk := hleft.kept k (hij.trans hjk)

omit [IsOrderedAddMonoid T] in
/-- The future of a task that is left behind was never done. -/
theorem not_done_of_leftBehind (h : Timeline timeoutMax s ev clock moved)
    (hleft : LeftBehind s ev t i) (j : ℕ) : ((s j).future t.future).isDone = false := by
  by_contra hdone
  have hdone' := h.kept (P := fun s => (s.future t.future).isDone = true)
    (fun _ _ _ hs => hs.isDone) (le_max_right i j) (Bool.eq_true_of_not_eq_false hdone)
  rw [h.pending_of_leftBehind hleft (le_max_left i j)] at hdone'
  cases hdone'

omit [IsOrderedAddMonoid T] in
theorem leftBehind_of_ended (h : Timeline timeoutMax s ev clock moved)
    (hend : (s i).worker.ended = true)
    (hnever : ∀ j, i ≤ j → ((s j).future t.future).isDone = false) : LeftBehind s ev t i where
  ended := hend
  pending := by
    obtain ⟨now, hreached⟩ := h.reached i
    exact pending_of_ended (runsCurrent_of_run hreached) hend (hnever i le_rfl)
  kept j hij hev := by
    have hdone := (h.transition hev).isDone_of_cancelled
    simp [hnever (j + 1) (by omega)] at hdone

/-- **A task whose future is never done** ends with the thread. -/
theorem ended_of_never_done (h : Timeline timeoutMax s ev clock moved) {d : T}
    (hacc : ev i = some (.accepted d t))
    (hnever : ∀ j, i ≤ j → ((s j).future t.future).isDone = false) :
    Eventually i fun j => (s j).worker.ended = true := by
  have hent : (s i).worker.entered = true := h.entered (h.transition hacc).accepted_running
  obtain ⟨j, hij, hserved⟩ := h.served_of_waitsFor (h.waitsFor_of_accepted hacc)
  rcases hserved with ⟨e, he, htaken⟩ | hstopped | hend
  · cases e with
    | invoked u r =>
      -- the action ends, and would set the future, unless the thread does
      obtain rfl := Option.some.inj htaken
      obtain ⟨rest, hw⟩ := (h.transition he).invoking
      obtain ⟨k, hjk, hk⟩ := h.completed_of_executing hw
      refine ⟨k, by omega, hk.resolve_left ?_⟩
      rintro ⟨o, hcomp⟩
      have hdone := (h.transition hcomp).isDone_of_finished rfl
      simp [hnever (k + 1) (by omega)] at hdone
    | skipped u =>
      obtain rfl := Option.some.inj htaken
      have hdone := (h.transition he).isDone_of_finished rfl
      simp [hnever (j + 1) (by omega)] at hdone
    | _ => cases htaken
  · have hent' := h.kept (P := fun s => s.worker.entered = true) (fun _ _ _ hs => hs.entered)
      (show i ≤ j by omega) hent
    exact (h.ended_of_stopping ⟨hent', hstopped⟩).of_le (by omega)
  · exact ⟨j, by omega, hend⟩

omit [IsOrderedAddMonoid T] in
/-- An outcome that is set is not set again. -/
theorem finished_mono (h : Timeline timeoutMax s ev clock moved) {n : ℕ} {o : Outcome V} {j : ℕ}
    (hij : i ≤ j) (hf : (s i).future n = .finished o) : (s j).future n = .finished o := by
  induction j, hij using Nat.le_induction with
  | base => exact hf
  | succ j hij ih =>
    rcases h.next j with ⟨r, a, -, hs, -⟩ | ⟨-, -, heq⟩
    · refine (transition_of_step hs).finished ih ?_
      rintro u rest hw rfl
      have hrunning := (h.conserved (by rw [hw]; rfl)).running u (by simp [hw, Worker.current])
      simp [ih] at hrunning
    · rwa [heq]

omit [IsOrderedAddMonoid T] in
theorem executing_of_finished (h : Timeline timeoutMax s ev clock moved) {n : ℕ} {o : Outcome V}
    {j : ℕ} (hf : (s j).future n = .finished o) :
    ∃ p < j, ∃ u rest, ev p = some (.completed u o) ∧ (s p).worker = .executing u rest ∧
      u.future = n := by
  induction j with
  | zero =>
    obtain ⟨now, hnow⟩ := h.start
    simp [hnow, Sys.new] at hf
  | succ j ih =>
    have hold : (s j).future n = .finished o → ∃ p < j + 1, ∃ u rest,
        ev p = some (.completed u o) ∧ (s p).worker = .executing u rest ∧ u.future = n :=
      fun hf => (ih hf).imp fun p hp => ⟨by omega, hp.2⟩
    rcases h.next j with ⟨r, a, -, hs, -⟩ | ⟨-, -, heq⟩
    · rcases (transition_of_step hs).executing_of_finished hf with hf | ⟨u, rest, hev, hw, hu⟩
      · exact hold hf
      · exact ⟨j, by omega, u, rest, hev, hw, hu⟩
    · exact hold (heq ▸ hf)

omit [IsOrderedAddMonoid T] in
/-- **What a future was set to is the outcome of its action**, which has ended
after the call was accepted. -/
theorem completed_of_finished (h : Timeline timeoutMax s ev clock moved) {d : T}
    (hacc : ev i = some (.accepted d t)) {o : Outcome V} {j : ℕ}
    (hf : (s j).future t.future = .finished o) :
    ∃ p, i < p ∧ p < j ∧ ev p = some (.completed t o) := by
  obtain ⟨p, hpj, u, rest, hev, hw, hu⟩ := h.executing_of_finished hf
  have hc := h.conserved (i := p) (by rw [hw]; rfl)
  have hmem : u ∈ places (traceTo ev p) (s p) := by simp [places, hw, Worker.current]
  have hfut := ((h.transition hacc).nextFuture.2 t rfl).1
  -- before the call its future did not exist
  have hip : i < p := by
    by_contra hle
    have hlt := h.kept (P := fun s => u.future < s.nextFuture)
      (fun _ _ _ hs hlt => hlt.trans_le hs.nextFuture.1) (not_lt.mp hle) (hc.future_lt hmem)
    rw [hu, hfut] at hlt
    exact lt_irrefl _ hlt
  have hpushed : t ∈ pushedTasks (traceTo ev p) :=
    mem_seen.mpr ⟨.accepted d t, mem_traceTo.mpr ⟨i, hip, hacc⟩, rfl⟩
  have hnd : ((pushedTasks (traceTo ev p)).map Task.future).Nodup := by
    rw [hc.numbered]
    exact List.nodup_range
  obtain rfl := List.inj_on_of_nodup_map hnd (hc.places.mem_iff.mp hmem) hpushed hu
  exact ⟨p, hip, hpj, hev⟩

/-- A task that is not left behind has its future set, or cancelled. -/
theorem done_of_accepted (h : Timeline timeoutMax s ev clock moved) {d : T}
    (hacc : ev i = some (.accepted d t)) (hleft : ¬ Eventually i (LeftBehind s ev t)) :
    Eventually i fun j => ((s j).future t.future).isDone = true := by
  by_contra hnot
  have hnever : ∀ j, i ≤ j → ((s j).future t.future).isDone = false := fun j hij => by
    simpa using fun hdone => hnot ⟨j, hij, hdone⟩
  obtain ⟨j, hij, hend⟩ := h.ended_of_never_done hacc hnever
  exact hleft ⟨j, hij, h.leftBehind_of_ended hend fun k hjk => hnever k (hij.trans hjk)⟩

end Timeline

/-! ## A task that is left behind -/

end PyLwip
