import PyLwip.Emulation.Moves

/-!
# The frames on the bus

The bus executes nothing but `_broadcast`, one frame at a time: whatever
happens to a frame happens while its task is the one being executed, so
after its invocation and before its completion. No future of a frame's task
or of a delivery is handed out, so none of them is ever cancelled.
-/

namespace PyLwip

open EventSystem

variable {T V : Type} {n : ℕ}

/-- The task whose frame is filtered, observed or delivered. -/
def NetEvent.dispatches? : NetEvent T V n → Option (Task T Obj)
  | .filtered t _ _ | .observed t _ _ | .delivered t _ _ _ | .dispatchRaised t _ => some t
  | _ => none

section Frames

theorem DispatchStep.dispatches {top : Topology n} {filters observers : ℕ} {t u : Task T Obj}
    {f : Frame} {d d' : Dispatch} {ev : Option (NetEvent T V n)}
    (h : DispatchStep top filters observers t f d ev d')
    (hu : ev.bind NetEvent.dispatches? = some u) : u = t := by
  cases h <;> cases hu <;> rfl

theorem DispatchStep.not_delivered {top : Topology n} {filters observers : ℕ}
    {t u : Task T Obj} {f : Frame} {d d' : Dispatch} {ev : Option (NetEvent T V n)} {netif : ℕ}
    {i : Fin n} {e : Event T Obj V} (h : DispatchStep top filters observers t f d ev d') :
    ev ≠ some (.delivered u netif i e) := by
  cases h <;> simp

variable [AddCommGroup T] [LinearOrder T] {top : Topology n} {timeoutMax now : T}
  {N N' : Net T V n} {ev : Option (NetEvent T V n)} {tr tr' : List (NetEvent T V n)}

/-! ## What a step says of a frame -/

/-- **A frame is dispatched while its task is executed.** -/
theorem NetTransition.executing (hs : NetTransition top timeoutMax N ev N') {t : Task T Obj}
    (ht : ev.bind NetEvent.dispatches? = some t) :
    ∃ rest, (N.sys .bus).worker = .executing t rest := by
  cases hs with
  | dispatch hw hf hd =>
    obtain rfl := hd.dispatches ht
    exact ⟨_, hw⟩
  | deliver hw =>
    cases ht
    exact ⟨_, hw⟩
  | @work r c s' ev hs => cases ev <;> cases ht
  | _ => cases ht

/-- What `on_incoming_data` is called for. -/
theorem NetTransition.delivering (hs : NetTransition top timeoutMax N ev N') {t : Task T Obj}
    {netif : ℕ} {i : Fin n} {e : Event T Obj V} (hev : ev = some (.delivered t netif i e)) :
    ∃ f, t.frame? = some f ∧ (netif, i) ∈ top.interfaces ∧ netif ≠ f.sender ∧
      e.Calls 0 (.inputData netif) [.bytes f.data] := by
  cases hs with
  | deliver hw hf hd hk hne hs hcalls =>
    cases hev
    exact ⟨_, hf, List.mem_of_getElem? hk, hne, hcalls⟩
  | dispatch hw hf hd => exact absurd hev hd.not_delivered
  | @work r c s' ev hs => cases ev <;> cases hev
  | _ => cases hev

/-! ## What a run says of it -/

/-- **The bus is called by `broadcast` alone.** -/
theorem calls_on_bus (h : Emulation top timeoutMax N tr N') {e : Event T Obj V}
    (he : e ∈ eventsOf .bus tr) (hcall : e.isCall = true) :
    ∃ f : Frame, e.Calls 0 .broadcast f.args := by
  obtain ⟨pre, e', post, N₁, N₂, -, -, -, -, -, ho⟩ := origin_of_mem h he
  cases ho with
  | worker hw => cases e <;> simp_all [Event.ofWorker, Event.isCall]
  | call he hbus => exact hbus rfl
  | cancel | launch | stop => cases hcall

theorem delivery_calls (h : Emulation top timeoutMax N tr N') {t : Task T Obj} {netif : ℕ}
    {i : Fin n} {e : Event T Obj V} (he : .delivered t netif i e ∈ tr) :
    ∃ f, t.frame? = some f ∧ (netif, i) ∈ top.interfaces ∧ netif ≠ f.sender ∧
      e.Calls 0 (.inputData netif) [.bytes f.data] := by
  obtain ⟨pre, post, N₁, N₂, -, -, hs, -⟩ := h.exists_of_mem he
  exact hs.transition.delivering rfl

/-- No future of the bus is ever cancelled. -/
theorem not_cancelled_on_bus (h : Emulation top timeoutMax N tr N') (m : ℕ) (b : Bool) :
    .cancelled m b ∉ eventsOf .bus tr := by
  intro he
  obtain ⟨pre, e', post, N₁, N₂, -, -, -, -, -, ho⟩ := origin_of_mem h he
  cases ho with
  | cancel hc => cases hc
  | worker he | call he => cases he

/-- A frame is dispatched after the task is invoked. -/
theorem invoked_of_dispatched (h : Emulation top timeoutMax (Net.new now) tr N)
    (hpops : PopsReturn (eventsOf .bus tr)) {e : NetEvent T V n} (he : e ∈ tr) {t : Task T Obj}
    (ht : e.dispatches? = some t) : t ∈ invokedTasks (eventsOf .bus tr) := by
  obtain ⟨pre, post, N₁, N₂, rfl, hpre, hs, -⟩ := h.exists_of_mem he
  have hc := Emulation.conserved hpre hpops
  obtain ⟨rest, hw⟩ := hs.transition.executing ht
  refine mem_seen_left (hc.invoked.mem_iff.mpr (List.mem_append_left _ ?_))
  simp [hw, Worker.current]

/-- **A frame is not dispatched after the task is completed.** -/
theorem not_dispatched_after (h : Emulation top timeoutMax (Net.new now) (tr ++ tr') N)
    (hpops : PopsReturn (eventsOf .bus (tr ++ tr'))) {t : Task T Obj}
    (ht : t ∈ completedTasks (eventsOf .bus tr)) {e : NetEvent T V n} (he : e ∈ tr') :
    e.dispatches? ≠ some t := by
  intro hdis
  obtain ⟨pre, post, rfl⟩ := List.append_of_mem he
  rw [← List.append_assoc] at h hpops
  obtain ⟨N₁, N₂, hpre, hs, -⟩ := h.split
  have hc := Emulation.conserved hpre hpops
  obtain ⟨rest, hw⟩ := hs.transition.executing hdis
  have hrunning := hc.running t (by simp [hw, Worker.current])
  obtain ⟨o, ho⟩ := mem_completedTasks.mp ht
  have hdone := hc.completed t o (by
    rw [eventsOf, List.filterMap_append]
    exact List.mem_append_left _ ho)
  rw [hrunning] at hdone
  cases hdone

/-! ## What is handed out -/

/-- **The future of a delivery is not handed out.** -/
structure Withheld (tr : List (NetEvent T V n)) (N : Net T V n) : Prop where
  numbered : ∀ i, ∀ m ∈ N.exposed i, m < (N.sys (.host i)).nextFuture
  delivered : ∀ t netif i d u, .delivered t netif i (.accepted d u) ∈ tr →
    u.future < (N.sys (.host i)).nextFuture ∧ u.future ∉ N.exposed i
  cancelled : ∀ i m b, .cancelled m b ∈ eventsOf (.host i) tr → m ∈ N.exposed i

theorem NetTransition.nextFuture (hs : NetTransition top timeoutMax N ev N') (c : Component n) :
    (N.sys c).nextFuture ≤ (N'.sys c).nextFuture := by
  rcases hs.component c with hstep | ⟨-, heq⟩
  · exact hstep.transition.nextFuture.1
  · rw [heq]

/-- What a step hands out is a fresh future. -/
theorem NetTransition.exposed (hs : NetTransition top timeoutMax N ev N') (i : Fin n) (m : ℕ) :
    (m ∈ N.exposed i → m ∈ N'.exposed i) ∧
      (m ∈ N'.exposed i → m ∈ N.exposed i ∨ m = (N.sys (.host i)).nextFuture ∧
        (N'.sys (.host i)).nextFuture = (N.sys (.host i)).nextFuture + 1) := by
  cases hs with
  | @request r i' s' e exposed' hs he hexp =>
    rcases hexp with rfl | ⟨d, t, rfl, rfl⟩
    · exact ⟨id, .inl⟩
    · by_cases hi : i = i'
      · subst hi
        obtain ⟨hfut, hnext⟩ := hs.transition.nextFuture.2 t rfl
        simp only [Function.update_self, List.mem_cons]
        refine ⟨.inr, fun hm => hm.symm.imp_right fun hm => ⟨?_, hnext⟩⟩
        omega
      · simp only [Function.update_of_ne hi]
        exact ⟨id, .inl⟩
  | _ => exact ⟨id, .inl⟩

/-- The task of a delivery has a fresh future, which is not handed out. -/
theorem NetTransition.delivered_fresh (hs : NetTransition top timeoutMax N ev N')
    {t u : Task T Obj} {netif : ℕ} {i : Fin n} {d : T}
    (hev : ev = some (.delivered t netif i (.accepted d u))) :
    u.future = (N.sys (.host i)).nextFuture ∧
      (N'.sys (.host i)).nextFuture = (N.sys (.host i)).nextFuture + 1 ∧
      N'.exposed = N.exposed := by
  cases hs with
  | deliver hw hf hd hk hne hs =>
    cases hev
    obtain ⟨hfut, hnext⟩ := hs.transition.nextFuture.2 u rfl
    exact ⟨hfut, by simpa using hnext, rfl⟩
  | dispatch hw hf hd => exact absurd hev hd.not_delivered
  | @work r c s' ev hs => cases ev <;> cases hev
  | _ => cases hev

/-- **The step lemma.** -/
theorem Withheld.step (h : Withheld tr N) (hs : NetTransition top timeoutMax N ev N') :
    Withheld (tr ++ ev.toList) N' := by
  constructor
  · intro i m hm
    rcases (hs.exposed i m).2 hm with hold | ⟨hnew, hnext⟩
    · exact (h.numbered i m hold).trans_le (hs.nextFuture _)
    · omega
  · intro t netif i d u hmem
    rcases List.mem_append.mp hmem with hold | hnew
    · obtain ⟨hlt, hnot⟩ := h.delivered t netif i d u hold
      refine ⟨hlt.trans_le (hs.nextFuture _), fun hexp => ?_⟩
      rcases (hs.exposed i _).2 hexp with hexp | ⟨hfresh, -⟩
      · exact hnot hexp
      · omega
    · obtain ⟨hfut, hnext, hexp⟩ := hs.delivered_fresh (Option.mem_toList.mp hnew)
      refine ⟨by omega, fun hmem => ?_⟩
      rw [hexp] at hmem
      have := h.numbered i _ hmem
      omega
  · intro i m b hcan
    rw [eventsOf_append] at hcan
    rcases List.mem_append.mp hcan with hold | hnew
    · exact (hs.exposed i m).1 (h.cancelled i m b hold)
    · obtain ⟨e, he, hon⟩ := List.mem_filterMap.mp hnew
      obtain rfl : ev = some e := Option.mem_toList.mp he
      cases hs.origin hon with
      | @cancel i' m b hc hm =>
        obtain rfl : i = i' := Component.host.inj hc
        exact (hs.exposed i m).1 hm
      | worker he | call he => cases he

theorem withheld_of_run (h : Emulation top timeoutMax (Net.new now) tr N) : Withheld tr N :=
  h.invariant (I := Withheld) ⟨by simp [Net.new], by simp, by simp⟩
    fun _ _ _ _ _ ih hs => ih.step hs.transition

/-- **No delivery is ever cancelled.** -/
theorem delivery_not_cancelled (h : Emulation top timeoutMax (Net.new now) tr N)
    {t u : Task T Obj} {netif : ℕ} {i : Fin n} {d : T} {b : Bool}
    (hdel : .delivered t netif i (.accepted d u) ∈ tr) :
    .cancelled u.future b ∉ eventsOf (.host i) tr := fun hcan =>
  have hw := withheld_of_run h
  (hw.delivered t netif i d u hdel).2 (hw.cancelled i u.future b hcan)

end Frames

end PyLwip
