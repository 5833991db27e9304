import PyLwip.Scheduler.Order

/-!
# Tasks in the order of their calls

The queue orders by time and priority. Calls with the same delay and
priority are in the order of their clock readings, and where the readings are
equal it is the comparison of the tasks themselves that decides.
`TieOrdered` says that it decides for the earlier task; then the queue pops
by `arrival`, the key in which the number of the call breaks the tie, and
the tasks of such calls start in the order of the calls.
-/

namespace PyLwip

open EventSystem

variable {T O V : Type}

/-- Time and priority, and then the order of the calls. -/
def Task.arrival (t : Task T O) : (T ×ₗ ℤ) ×ₗ ℕ := toLex (t.key, t.future)

section Ties

variable [LinearOrder T]

theorem Task.arrival_lt_iff {t u : Task T O} :
    t.arrival < u.arrival ↔ t.key < u.key ∨ t.key = u.key ∧ t.future < u.future := by
  simp [arrival, Prod.Lex.toLex_lt_toLex]

theorem Task.absTime_le_of_arrival_le {t u : Task T O} (h : t.arrival ≤ u.arrival) :
    t.absTime ≤ u.absTime := by
  refine absTime_le_of_key_le ?_
  rcases Prod.Lex.toLex_le_toLex.mp h with h | ⟨h, -⟩
  · exact h.le
  · exact h.le

variable [RichCompare O]

/-- **Ties go to the earlier call**: of two queued tasks with the same time
and priority the earlier one compares as smaller. -/
def Sys.TieOrdered (s : Sys T O V) : Prop :=
  ∀ t ∈ s.queue, ∀ u ∈ s.queue, t.key = u.key → t.future < u.future →
    t.entryLt u = .ok true ∧ u.entryLt t = .ok false

instance (s : Sys T O V) : Decidable s.TieOrdered := by
  unfold Sys.TieOrdered
  infer_instance

/-- Entries compare by arrival where ties go to the earlier call. -/
theorem Sys.TieOrdered.keyedOn {s : Sys T O V} (h : s.TieOrdered) :
    Heapq.KeyedOn Task.entryLt Task.arrival (· ∈ s.queue) where
  lt_true t u ht hu hlt := by
    rcases Task.arrival_lt_iff.mp hlt with hlt | ⟨heq, hlt⟩
    · exact (Task.entryLt_keyedOn fun _ => True).lt_true t u trivial trivial hlt
    · exact (h t ht u hu heq hlt).1
  lt_false t u ht hu hlt := by
    rcases Task.arrival_lt_iff.mp hlt with hlt | ⟨heq, hlt⟩
    · exact (Task.entryLt_keyedOn fun _ => True).lt_false t u trivial trivial hlt
    · exact (h u hu t ht heq hlt).2

/-- Then all comparisons return. -/
theorem Sys.TieOrdered.comparable {s : Sys T O V} (h : s.TieOrdered) :
    Heapq.Comparable Task.entryLt s.executor.tasks.queue := by
  intro t ht u hu
  have ht' : t ∈ s.queue := by simpa [Sys.queue, TaskQueue.getTasks] using ht
  have hu' : u ∈ s.queue := by simpa [Sys.queue, TaskQueue.getTasks] using hu
  rcases lt_trichotomy t.arrival u.arrival with hlt | heq | hlt
  · exact ⟨true, h.keyedOn.lt_true t u ht' hu' hlt⟩
  · obtain ⟨hkey, hfut⟩ := Prod.mk.inj (toLex.injective heq)
    obtain ⟨htime, hprio⟩ := Prod.mk.inj (toLex.injective hkey)
    exact ⟨false, Task.entryLt_same htime hprio hfut⟩
  · exact ⟨false, h.keyedOn.lt_false t u ht' hu' hlt⟩

end Ties

section Runs

variable [RichCompare O] [LinearOrder T] {timeoutMax : T} {tr pre post : List (Event T O V)}
  {s s' m m' : Sys T O V} {ev : Option (Event T O V)}

/-- The heap is ordered by arrival. -/
structure Arriving (tr : List (Event T O V)) (s : Sys T O V) : Prop where
  conserved : Conserved tr s
  pops : PopsReturn tr
  ties : s.TieOrdered
  ordered : Heapq.Ordered Task.arrival s.executor.tasks.queue

/-- **The queue pops by arrival.** -/
theorem Arriving.popsBy (h : Arriving tr s) : PopsBy Task.arrival s := fun _ _ _ hpop =>
  have ⟨hspec, hsorted, _⟩ := TaskQueue.popTasksTillTimestamp_spec h.ties.keyedOn
    (fun _ _ => Task.absTime_le_of_arrival_le) (fun _ ht => ht) h.ordered hpop
  ⟨hspec, hsorted⟩

variable [AddCommGroup T]

/-- The steps into states in which ties go to the earlier call. -/
abbrev TieSteps (timeoutMax : T) (s : Sys T O V) (ev : Option (Event T O V)) (s' : Sys T O V) :
    Prop :=
  Steps timeoutMax s ev s' ∧ s'.TieOrdered

/-- In such a state no pop raises. -/
theorem Arriving.not_popRaised (h : Arriving tr s) (hs : Transition timeoutMax s ev s')
    (x : PyError) : ev ≠ some (.crashed (.comparison x)) := by
  rintro rfl
  cases hs with
  | popRaised hr hp hat hl hpop =>
    exact TaskQueue.popTasksTillTimestamp_returns h.ties.comparable hpop

/-- **The step lemma**: the heap stays ordered by arrival. -/
theorem Arriving.step (h : Arriving tr s) (hs : Transition timeoutMax s ev s')
    (hties : s'.TieOrdered) : Arriving (tr ++ ev.toList) s' := by
  have hcmp := h.not_popRaised hs
  refine ⟨h.conserved.step hs hcmp, ?_, hties, ?_⟩
  · intro e he
    rcases List.mem_append.mp he with he | he
    · exact h.pops e he
    · cases e with
      | crashed c =>
        cases c with
        | comparison x => exact absurd (by simpa [eq_comm] using he) (hcmp x)
        | _ => rfl
      | _ => rfl
  · cases hs with
    | @accepted r delay task q hr hst htime hfut hpush
    | @scheduleRaised r delay task q x hr hst htime hfut hpush =>
      have hperm := TaskQueue.scheduleTask_perm hpush
      exact TaskQueue.scheduleTask_ordered hties.keyedOn
        (fun t ht => hperm.mem_iff.mpr (List.mem_cons_of_mem _ ht))
        (hperm.mem_iff.mpr List.mem_cons_self) h.ordered hpush
    | pop hr hp hat hl hroot hdue hpop =>
      exact (TaskQueue.popTasksTillTimestamp_spec h.ties.keyedOn
        (fun _ _ => Task.absTime_le_of_arrival_le) (fun _ ht => ht) h.ordered hpop).2.2
    | popRaised => exact absurd rfl (hcmp _)
    | _ => exact h.ordered

/-- **The run lemma.** -/
theorem arriving_of_run {now : T} (h : Run (TieSteps timeoutMax) (Sys.new now) tr s) :
    Arriving tr s := by
  refine h.invariant (I := Arriving)
    ⟨.init now, by simp [PopsReturn], ?_, TaskQueue.new_ordered Task.arrival⟩
    fun tr s ev s' _ ih hs => ih.step hs.1.transition hs.2
  intro t ht
  simp [Sys.new, Sys.queue, Executor.new] at ht

/-- A task with an earlier future was accepted earlier. -/
theorem Transition.accepted_inv {d : T} {u : Task T O}
    (hs : Transition timeoutMax m (some (.accepted d u)) m') :
    u.future = m.nextFuture ∧ u ∈ m'.queue ∧ (∀ t ∈ m.queue, t ∈ m'.queue) ∧
      m'.worker.rest = m.worker.rest := by
  cases hs with
  | accepted hr hst htime hfut hpush =>
    have hperm := TaskQueue.scheduleTask_perm hpush
    exact ⟨hfut, hperm.mem_iff.mpr List.mem_cons_self,
      fun t ht => hperm.mem_iff.mpr (List.mem_cons_of_mem _ ht), by simp⟩

/-- A task accepted earlier, of no greater time and priority and never
cancelled, has been invoked when the later one is. -/
theorem invoked_of_accepted_before {now d r : T} {t u : Task T O}
    (h₁ : Run (TieSteps timeoutMax) (Sys.new now) tr m) (ht : t ∈ acceptedTasks tr)
    (hu : TieSteps timeoutMax m (some (.accepted d u)) m')
    (h₂ : Run (TieSteps timeoutMax) m' (pre ++ .invoked u r :: post) s) (hkey : t.key ≤ u.key)
    (hcan : .cancelled t.future true ∉ tr ++ .accepted d u :: pre) :
    t ∈ invokedTasks (tr ++ .accepted d u :: pre) := by
  have ha := arriving_of_run h₁
  have ha' : Arriving (tr ++ [.accepted d u]) m' := arriving_of_run (h₁.step hu)
  obtain ⟨hfut, huq, hkept, hrest⟩ := hu.1.transition.accepted_inv
  have hplaces : t ∈ places tr m := by
    rw [ha.conserved.places.mem_iff]
    obtain ⟨e, he, hte⟩ := mem_seen.mp ht
    cases e <;> simp only [Event.accepted?, Option.some.injEq, reduceCtorEq] at hte
    exact mem_seen.mpr ⟨_, he, by simp [Event.pushed?, hte]⟩
  have hlt : t.arrival < u.arrival := by
    have hfirst : t.future < u.future := hfut ▸ ha.conserved.future_lt hplaces
    exact Task.arrival_lt_iff.mpr (hkey.lt_or_eq.imp_right fun heq => ⟨heq, hfirst⟩)
  have hne : t ≠ u := by
    rintro rfl
    exact lt_irrefl _ hlt
  -- where the later call finds the task: still waiting, or already taken
  have hwhere : Ahead Task.arrival m' t u ∨ t ∈ invokedTasks tr := by
    simp only [places, List.append_assoc, List.mem_append] at hplaces
    rcases hplaces with hq | hr | hc | hf
    · exact .inl (.inl ⟨hkept t hq, huq, hlt⟩)
    · exact .inl (.inr (.inl ⟨hrest ▸ hr, huq⟩))
    · exact .inr (ha.conserved.invoked.mem_iff.mpr (List.mem_append_left _ hc))
    · rcases mem_finishedTasks.mp hf with hskip | ⟨o, ho⟩
      · have hcancelled : m.isCancelled t.future = true := by
          rw [Sys.isCancelled, ha.conserved.skipped t hskip]
          rfl
        have hrun : Interleaving timeoutMax (Sys.new now) tr m := h₁.mono fun _ _ _ h => h.1
        exact absurd (List.mem_append_left _ (cancelled_of_isCancelled hrun hcancelled)) hcan
      · exact .inr (ha.conserved.invoked_of_completed ho)
  have hassoc : (tr ++ [.accepted d u]) ++ pre = tr ++ .accepted d u :: pre := by simp
  rw [← hassoc] at hcan ⊢
  rw [invokedTasks, seen_append, seen_snoc]
  rcases hwhere with hahead | hinv
  · refine List.mem_append_right _ ?_
    obtain ⟨a, b, hpre, -, -⟩ := h₂.split
    have hpops := (arriving_of_run ((h₁.step hu).trans hpre)).pops
    -- every state on the way pops by arrival
    have hkeyed : Run (KeyedSteps timeoutMax Task.arrival) m' (pre ++ .invoked u r :: post) s :=
      (h₂.restrict fun tr' s ev s' _ hr _ => (arriving_of_run ((h₁.step hu).trans hr)).popsBy).mono
        fun _ _ _ h => ⟨h.1.1, h.2⟩
    exact hahead.invoked_first (fun _ _ => Task.absTime_le_of_arrival_le)
      ((h₁.step hu).mono fun _ _ _ h => h.1) hkeyed hpops hne hcan
  · exact List.mem_append_left _ (List.mem_append_left _ hinv)

/-- **First come, first served.** A task accepted earlier, of no greater time
and priority and never cancelled, starts earlier. -/
theorem first_served {now d r : T} {t u : Task T O} {a b p q : List (Event T O V)}
    (h : Run (TieSteps timeoutMax) (Sys.new now) tr s) (hacc : tr = p ++ .accepted d u :: q)
    (ht : t ∈ acceptedTasks p) (hkey : t.key ≤ u.key) (hcan : .cancelled t.future true ∉ tr)
    (hinv : tr = a ++ .invoked u r :: b) : t ∈ invokedTasks a := by
  subst hacc
  obtain ⟨m, m', h₁, hu, h₂⟩ := h.split
  rcases List.append_eq_append_iff.mp hinv with ⟨c, rfl, hc⟩ | ⟨c, rfl, hc⟩
  · rcases List.cons_eq_append_iff.mp hc with ⟨rfl, hc⟩ | ⟨c', rfl, rfl⟩
    · cases hc
    · refine invoked_of_accepted_before h₁ ht hu h₂ hkey fun hmem => hcan ?_
      rw [hinv]
      exact List.mem_append_left _ hmem
  · -- the later task is not invoked before it is accepted
    rcases List.cons_eq_append_iff.mp hc with ⟨rfl, hc⟩ | ⟨c', rfl, -⟩
    · cases hc
    · have hlt := (arriving_of_run h₁).conserved.future_lt_of_invoked
        (mem_seen.mpr ⟨.invoked u r, by simp, rfl⟩)
      have hfut := hu.1.transition.accepted_inv.1
      omega

/-- An immediate call is due at its own reading. -/
theorem absTime_le_now {now : T} {t : Task T O} (h : Interleaving timeoutMax (Sys.new now) tr s)
    (ht : .accepted 0 t ∈ tr) : t.absTime ≤ s.now := by
  refine h.invariant (I := fun tr s => .accepted 0 t ∈ tr → t.absTime ≤ s.now)
    (fun h => by cases h) ?_ ht
  intro tr s ev s' _ ih hs ht
  rcases List.mem_append.mp ht with ht | ht
  · exact (ih ht).trans hs.transition.now_le
  · obtain rfl : ev = some (.accepted 0 t) := by simpa [eq_comm] using ht
    cases hs.transition with
    | accepted hr hst htime => exact (htime.trans (add_zero _)).le

/-- **Immediate calls of one priority** start in the order in which they were
accepted. -/
theorem immediate_first_served {now r : T} {t u : Task T O} {a b p q : List (Event T O V)}
    (h : Run (TieSteps timeoutMax) (Sys.new now) tr s) (hacc : tr = p ++ .accepted 0 u :: q)
    (ht : .accepted 0 t ∈ p) (hprio : t.priority = u.priority)
    (hcan : .cancelled t.future true ∉ tr) (hinv : tr = a ++ .invoked u r :: b) :
    t ∈ invokedTasks a := by
  refine first_served h hacc (mem_seen.mpr ⟨_, ht, rfl⟩) ?_ hcan hinv
  subst hacc
  obtain ⟨m, m', h₁, hu, -⟩ := h.split
  have hle : t.absTime ≤ u.absTime := by
    have hnow := absTime_le_now (h₁.mono fun _ _ _ h => h.1) ht
    cases hu.1.transition with
    | accepted hr hst htime => exact (hnow.trans hr).trans (htime.trans (add_zero _)).ge
  exact Task.key_le_of_absTime_le hle hprio.le

end Runs

end PyLwip
