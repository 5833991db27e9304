import PyLwip.Emulation.Integrity

/-!
# An interface is the end of a channel

Where ties go to the earlier call, both queues that a frame passes serve first
come first, and a push raises nothing. Then what an interface is given is not
only some of what was sent to it, but in the order in which it was sent: the
network is to each interface a channel that may lose, and neither duplicates
nor reorders.
-/

namespace PyLwip

open EventSystem
open scoped List

variable {T V : Type} {n : ℕ}

/-! ## First come, first served, as lists -/

section Executor

variable {O : Type} [RichCompare O] [AddCommGroup T] [LinearOrder T] {timeoutMax now : T}
  {tr : List (Event T O V)} {s s' : Sys T O V} {ev : Option (Event T O V)}

/-- A push raises nothing where ties go to the earlier call. -/
theorem Transition.not_pushRaised (hs : Transition timeoutMax s ev s') (hties : s'.TieOrdered)
    (t : Task T O) (x : PyError) : ev ≠ some (.scheduleRaised t x) := by
  rintro rfl
  cases hs with
  | scheduleRaised hr hst htime hfut hpush =>
    obtain ⟨rfl, hraised⟩ := Prod.mk.inj hpush
    have hperm := Heapq.siftdown_perm Task.entryLt s.executor.tasks.queue.size
      (s.executor.tasks.queue.push t) s.executor.tasks.queue.size
    have hreturned := Heapq.siftdown_ok (hties.comparable.of_perm hperm.symm)
      s.executor.tasks.queue.size s.executor.tasks.queue.size
    rw [Heapq.heappush, hreturned] at hraised
    cases hraised

theorem pushesReturn_of_ties (h : Run (TieSteps timeoutMax) (Sys.new now) tr s) :
    PushesReturn tr := by
  refine h.invariant (I := fun tr _ => PushesReturn tr) (by simp [PushesReturn]) ?_
  intro tr s ev s' _ ih hs e he
  rcases List.mem_append.mp he with he | he
  · exact ih e he
  · obtain rfl := Option.mem_toList.mp he
    cases e with
    | scheduleRaised t x => exact absurd rfl (hs.1.transition.not_pushRaised hs.2 t x)
    | _ => rfl

omit [RichCompare O] [AddCommGroup T] in
/-- The calls are numbered in their order. -/
theorem Conserved.pushed_numbered (hc : Conserved tr s) :
    (pushedTasks tr).Pairwise fun t u => t.future < u.future := by
  have h := hc.numbered ▸ List.pairwise_lt_range
  exact List.pairwise_map.mp h

/-- **Immediate calls of one priority that nobody cancels** are a part of the
calls, in their order, where they are executed. -/
theorem served_sublist (h : Run (TieSteps timeoutMax) (Sys.new now) tr s) (p : Task T O → Bool)
    (priority : ℤ) (hp : ∀ t ∈ acceptedTasks tr, p t = true → .accepted 0 t ∈ tr ∧
      t.priority = priority ∧ .cancelled t.future true ∉ tr) :
    ((invokedTasks tr).filter p).Sublist (pushedTasks tr) := by
  have hc := (arriving_of_run h).conserved
  have hrun : Interleaving timeoutMax (Sys.new now) tr s := h.mono fun _ _ _ h => h.1
  have hsub := (invoked_subperm_pushed hrun).subset
  refine Lists.sublist_of_numbered (f := Task.future) ?_ hc.pushed_numbered fun t ht =>
    hsub (List.mem_of_mem_filter ht)
  rw [List.pairwise_filter, invokedTasks, seen, List.pairwise_filterMap]
  refine Lists.pairwise_of_split fun a e b htr e' he' t ht u hu hpt hpu => ?_
  obtain ⟨r, rfl⟩ : ∃ r, e = .invoked t r := by cases e <;> cases ht; exact ⟨_, rfl⟩
  have hlater : u ∈ invokedTasks b := List.mem_filterMap.mpr ⟨e', he', hu⟩
  have hinvoked : invokedTasks tr = invokedTasks a ++ t :: invokedTasks b := by
    simp [htr, invokedTasks, seen, Event.invoked?]
  have hnodup := hc.invoked_nodup
  rw [hinvoked] at hnodup
  have hpushed : ∀ u ∈ invokedTasks tr, u ∈ acceptedTasks tr := fun u hu => by
    rw [← pushedTasks_eq_accepted (pushesReturn_of_ties h)]
    exact hsub hu
  obtain ⟨hacc, hprio, -⟩ := hp t (hpushed t (by simp [hinvoked])) hpt
  obtain ⟨hacc', hprio', hcan⟩ := hp u (hpushed u (by simp [hinvoked, hlater])) hpu
  obtain ⟨q, q', hsplit⟩ := List.append_of_mem hacc
  rw [hsplit] at hacc'
  rcases List.mem_append.mp hacc' with hbefore | hafter
  · -- an earlier call would have been executed earlier
    have hearlier := immediate_first_served h hsplit hbefore (hprio'.trans hprio.symm) hcan htr
    exact absurd rfl ((List.nodup_append.mp hnodup).2.2 u hearlier u
      (List.mem_cons_of_mem _ hlater))
  · rcases List.mem_cons.mp hafter with heq | hafter
    · cases heq
      exact absurd hlater (List.nodup_cons.mp (List.nodup_append.mp hnodup).2.1).1
    · have hnumbered := hc.pushed_numbered
      rw [hsplit, pushedTasks, seen_append] at hnumbered
      have hpushes : u ∈ pushedTasks q' := List.mem_filterMap.mpr ⟨_, hafter, rfl⟩
      exact (List.pairwise_cons.mp (List.pairwise_append.mp hnumbered).2.1).1 u hpushes

end Executor

/-! ## The channel -/

section Network

variable [AddCommGroup T] [LinearOrder T] {top : Topology n} {timeoutMax now : T}
  {N : Net T V n} {tr : List (NetEvent T V n)}

/-- Of two frames that were sent the one with the lower number was sent
before. -/
theorem accepted_before (h : Run (TieNetSteps top timeoutMax) (Net.new now) tr N)
    {t u : Task T Obj} (ht : t ∈ pushedTasks (eventsOf .bus tr))
    (hu : u ∈ pushedTasks (eventsOf .bus tr)) (hne : u ≠ t) (hle : u.future ≤ t.future) :
    ∃ d q q', tr = q ++ .component .bus (.accepted d t) :: q' ∧
      u ∈ acceptedTasks (eventsOf .bus q) := by
  have hbus := tieSteps_component h .bus
  have hpushes := pushesReturn_of_ties hbus
  have hnumbered := (arriving_of_run hbus).conserved.pushed_numbered
  rw [pushedTasks_eq_accepted hpushes] at ht
  obtain ⟨d, ht⟩ := mem_acceptedTasks.mp ht
  obtain ⟨q, q', rfl⟩ := List.append_of_mem (mem_eventsOf_bus.mp ht)
  refine ⟨d, q, q', rfl, ?_⟩
  rw [eventsOf_split (NetEvent.on_component _ _), pushedTasks, seen_append] at hu hnumbered
  rw [eventsOf_split (NetEvent.on_component _ _)] at hpushes
  rw [← pushedTasks_eq_accepted hpushes.left]
  refine (List.mem_append.mp hu).resolve_right fun hu => ?_
  rcases List.mem_cons.mp hu with heq | hu
  · exact hne heq
  · have hlt := (List.pairwise_cons.mp (List.pairwise_append.mp hnumbered).2.1).1 u hu
    omega

/-- **`_broadcast` comes to an interface with the frames in the order of their
calls.** -/
theorem calledFor_sublist (h : Run (TieNetSteps top timeoutMax) (Net.new now) tr N) (k : Fin n)
    (netif : ℕ) :
    (tr.filterMap (NetEvent.calledFor? k netif)).Sublist (pushedTasks (eventsOf .bus tr)) := by
  have hemu := emulation_of_ties h
  have hbus := tieSteps_component h .bus
  have hnumbered := (arriving_of_run hbus).conserved.pushed_numbered
  have hsub := calledFor_subset hemu k netif
  refine Lists.sublist_of_numbered (f := Task.future) ?_ hnumbered hsub
  rw [List.pairwise_filterMap]
  refine Lists.pairwise_of_split fun a e b htr e' he' t ht u hu => ?_
  have hsplit : tr.filterMap (NetEvent.calledFor? k netif) =
      a.filterMap (NetEvent.calledFor? k netif) ++
        t :: b.filterMap (NetEvent.calledFor? k netif) := by
    rw [htr, List.filterMap_append, List.filterMap_cons_some ht]
  have hlater : u ∈ b.filterMap (NetEvent.calledFor? k netif) :=
    List.mem_filterMap.mpr ⟨e', he', hu⟩
  have honce := (calling_of_run hemu).once k netif
  rw [hsplit] at hsub honce
  have hne : u ≠ t := fun heq =>
    (List.nodup_cons.mp (List.nodup_append.mp honce).2.1).1 (heq ▸ hlater)
  by_contra hle
  -- then the frame of `u` was sent first, and its dispatch is over before `t`
  obtain ⟨d, q, q', hq, hearlier⟩ := accepted_before h (hsub (by simp)) (hsub (by simp [hlater]))
    hne (not_lt.mp hle)
  obtain ⟨x, hx⟩ : ∃ x, e = .delivered t netif k x := by
    obtain ⟨x, hx⟩ := mem_calledFor.mp (List.mem_filterMap.mpr ⟨e, List.mem_singleton_self e, ht⟩)
    exact ⟨x, (List.mem_singleton.mp hx).symm⟩
  obtain ⟨x', hx'⟩ := mem_calledFor.mp hlater
  have hover := completed_before_dispatched h hq hearlier (by rw [hx]; rfl) htr
  have hpops := popsReturn_of_ties h .bus
  rw [htr] at hemu hpops
  exact not_dispatched_after hemu hpops hover (List.mem_cons_of_mem _ hx') rfl

omit [AddCommGroup T] [LinearOrder T] in
/-- What is scheduled on a host for an interface that nobody else hands anything
to was delivered by the bus. -/
theorem delivered_of_accepted {k : Fin n} {netif : ℕ} (hown : handedTo k netif tr = [])
    {u : Task T Obj} (hu : u ∈ acceptedTasks (eventsOf (.host k) tr))
    (hinput : (u.inputOf? netif).isSome) :
    ∃ t netif' d, .delivered t netif' k (.accepted d u) ∈ tr := by
  obtain ⟨d, hacc⟩ := mem_acceptedTasks.mp hu
  obtain ⟨e, he, hon⟩ := List.mem_filterMap.mp hacc
  replace hon : (some e).bind (NetEvent.on (.host k)) = some (.accepted d u) := hon
  cases e with
  | component c e =>
    obtain ⟨rfl, rfl⟩ := NetEvent.on_component_eq.mp hon
    have hnone := List.filterMap_eq_nil_iff.mp hown _ he
    simp [NetEvent.handed?, Event.pushed?] at hnone
    simp [hnone] at hinput
  | delivered t netif' i e =>
    obtain ⟨hi, rfl⟩ := NetEvent.on_delivered_eq.mp hon
    cases hi
    exact ⟨t, netif', d, he⟩
  | _ => cases hon

/-- **Each interface is the end of a channel.** In every run in whose states ties
go to the earlier call, what an interface is given by the bus is a part of
what was sent to it, in the order in which it was sent. -/
theorem inputs_sublist (h : Run (TieNetSteps top timeoutMax) (Net.new now) tr N) (k : Fin n)
    (netif : ℕ) (hown : handedTo k netif tr = []) :
    (inputsOf k netif tr).Sublist (sentTo top k netif tr) := by
  have hemu := emulation_of_ties h
  have hserved := served_sublist (tieSteps_component h (.host k))
    (fun u => (u.inputOf? netif).isSome) 0 fun u hu hinput => by
      obtain ⟨t, netif', d, hdel⟩ := delivered_of_accepted hown hu hinput
      obtain ⟨f, -, -, -, hcalls⟩ := delivery_calls hemu hdel
      obtain rfl : d = 0 := hcalls.delay d rfl
      exact ⟨List.mem_filterMap.mpr ⟨_, hdel, NetEvent.on_delivered _ _ _ _⟩,
        (hcalls.pushed u rfl).1, delivery_not_cancelled hemu hdel⟩
  have hinputs : inputsOf k netif tr = ((invokedTasks (eventsOf (.host k) tr)).filter
      fun u => (u.inputOf? netif).isSome).filterMap (Task.inputOf? netif) := by
    rw [inputsOf, List.filterMap_filter]
    refine List.filterMap_congr fun u _ => ?_
    cases u.inputOf? netif <;> rfl
  have hforwarded : (pushedTasks (eventsOf (.host k) tr)).filterMap (Task.inputOf? netif) =
      tr.filterMap (NetEvent.forwarded? k netif) := by
    rw [pushed_inputs]
    refine List.filterMap_congr fun e he => ?_
    rw [List.filterMap_eq_nil_iff.mp hown e he, Option.none_or]
  calc inputsOf k netif tr
    _ <+ (pushedTasks (eventsOf (.host k) tr)).filterMap (Task.inputOf? netif) :=
      hinputs ▸ hserved.filterMap _
    _ = tr.filterMap (NetEvent.forwarded? k netif) := hforwarded
    _ <+ (tr.filterMap (NetEvent.calledFor? k netif)).filterMap (frameFor? top k netif tr) :=
      forwarded_sublist hemu k netif
    _ <+ sentTo top k netif tr := (calledFor_sublist h k netif).filterMap _

end Network

theorem inputs_sublist_ordered :
    (inputsOf 0 7 ordered.2).Sublist (sentTo oneHost 0 7 ordered.2) ∧
      inputsOf 0 7 ordered.2 = [[1], [2]] := by
  have hrun : Run (TieNetSteps oneHost 100) (Net.new 0) ordered.2 ordered.1 :=
    run_guarded_outcome _ _ _ _ _
  exact ⟨inputs_sublist hrun 0 7 (by decide), by decide⟩

end PyLwip
