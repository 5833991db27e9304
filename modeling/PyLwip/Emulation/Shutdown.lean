import PyLwip.Scheduler.Survival
import PyLwip.Emulation.Startup
import PyLwip.Emulation.Dispatch

/-!
# What `EthernetNetwork.stop` has come to

`stop` stops the bus and joins its thread before it stops the first host,
and each host is joined before the next one is stopped. So as long as the
bus dispatches frames no host is stopped, and while a component is not
stopped, and was running before, it runs.

`FitSteps` are the steps at which what is stopped is drainable and no wait is
too long. Along such a run, a component that was joined has executed all
that it had accepted before it was stopped.
-/

namespace PyLwip

open EventSystem

variable {T V : Type} {n : ℕ}

/-- The components that `stop` has not stopped. -/
def Control.unstopped : Control n → List (Component n)
  | .stopping todo | .joining _ todo => todo
  | .stopped => []
  | _ => components n

/-- The components that `stop` has not joined. -/
def Control.unjoined : Control n → List (Component n)
  | .stopping todo => todo
  | .joining c todo => c :: todo
  | .stopped => []
  | _ => components n

theorem components_nodup (n : ℕ) : (components n).Nodup := by
  refine List.nodup_cons.mpr ⟨by simp, (List.nodup_finRange n).map ?_⟩
  exact fun _ _ h => Component.host.inj h

theorem Control.unstopped_suffix (c : Control n) : c.unstopped <:+ c.unjoined := by
  cases c with
  | joining c todo => exact List.suffix_cons _ _
  | _ => exact List.suffix_rfl

section Order

variable {N : Net T V n} {tr : List (NetEvent T V n)}

/-- **How far `stop` has come**, in a state and the trace that leads to it. -/
structure ShuttingDown (tr : List (NetEvent T V n)) (N : Net T V n) : Prop where
  suffix : N.control.unjoined <:+ components n
  stopped : ∀ c, c ∉ N.control.unstopped → .stopRequested true ∈ eventsOf c tr
  unstopped : ∀ c ∈ N.control.unstopped, ∀ b, .stopRequested b ∉ eventsOf c tr
  joined : ∀ c, c ∉ N.control.unjoined → (N.sys c).worker.ended = true

theorem ShuttingDown.unstopped_nodup (h : ShuttingDown tr N) : N.control.unstopped.Nodup :=
  (components_nodup n).sublist (N.control.unstopped_suffix.trans h.suffix).sublist

/-- Until the bus is joined nothing is. -/
theorem ShuttingDown.unjoined_eq (h : ShuttingDown tr N) (hbus : .bus ∈ N.control.unjoined) :
    N.control.unjoined = components n := by
  rcases List.suffix_cons_iff.mp h.suffix with heq | hsuffix
  · exact heq
  · have := hsuffix.subset hbus
    simp at this

/-- **No host is stopped before the bus is joined.** -/
theorem ShuttingDown.host_unstopped (h : ShuttingDown tr N) (hbus : .bus ∈ N.control.unjoined)
    (i : Fin n) : .host i ∈ N.control.unstopped := by
  have heq := h.unjoined_eq hbus
  cases hc : N.control with
  | joining c todo =>
    rw [hc] at heq
    obtain ⟨-, rfl⟩ := List.cons.inj heq
    simp [Control.unstopped]
  | stopping todo =>
    rw [hc] at heq
    have hall : todo = components n := heq
    rw [hall]
    exact mem_components _
  | stopped => rw [hc] at heq; cases heq
  | built | starting | started => exact mem_components _

theorem ShuttingDown.bus_joined (h : ShuttingDown tr N) {i : Fin n}
    {todo : List (Component n)} (hc : N.control = .stopping (.host i :: todo)) :
    .bus ∉ N.control.unjoined := by
  intro hbus
  have heq := h.unjoined_eq hbus
  rw [hc] at heq
  cases (List.cons.inj heq).1

end Order

section Shutdown

variable [AddCommGroup T] [LinearOrder T] {top : Topology n} {timeoutMax now : T}
  {N N' : Net T V n} {ev : Option (NetEvent T V n)} {tr tr' : List (NetEvent T V n)}
  {c : Component n}

/-! ## The order of the stops -/

/-- `stop` goes on through the components. -/
theorem NetTransition.unjoined_suffix (hs : NetTransition top timeoutMax N ev N') :
    N'.control.unjoined <:+ N.control.unjoined := by
  cases hs with
  | startCalled hc | launch hc | startReturned hc | stopCalled hc | stop hc =>
    simp [hc, Control.unjoined]
  | join hc => simp [hc, Control.unjoined]
  | stopReturned hc => simp [hc, Control.unjoined]
  | _ => exact List.suffix_rfl

/-- A component is stopped by the line of `stop` that stops it. -/
theorem NetTransition.unstopped (hs : NetTransition top timeoutMax N ev N') :
    N'.control.unstopped = N.control.unstopped ∨
      ∃ c, N.control = .stopping (c :: N'.control.unstopped) ∧
        N'.control = .joining c N'.control.unstopped ∧
        ev = some (.component c (.stopRequested true)) := by
  cases hs with
  | stop hc => exact .inr ⟨_, hc, rfl, rfl⟩
  | startCalled hc | launch hc | startReturned hc | stopCalled hc | join hc | stopReturned hc =>
    exact .inl (by simp [hc, Control.unstopped])
  | _ => exact .inl rfl

theorem unstopped_of_run (h : Emulation top timeoutMax N tr N')
    (hc : c ∈ N'.control.unstopped) : c ∈ N.control.unstopped := by
  refine h.state_invariant
    (I := fun N' => c ∈ N'.control.unstopped → c ∈ N.control.unstopped) id ?_ hc
  intro N₁ ev N₂ ih hs hc
  rcases hs.transition.unstopped with heq | ⟨c', hstop, -, -⟩
  · exact ih (heq ▸ hc)
  · refine ih ?_
    rw [hstop]
    exact List.mem_cons_of_mem _ hc

/-- A component that was stopped is not stopped again. -/
theorem no_stop_after (h : Emulation top timeoutMax N tr N') (hc : c ∉ N.control.unstopped)
    (b : Bool) : .stopRequested b ∉ eventsOf c tr := by
  intro hb
  obtain ⟨pre, e, post, N₁, N₂, -, -, hpre, -, -, ho⟩ := origin_of_mem h hb
  cases ho with
  | stop hstop =>
    refine hc (unstopped_of_run hpre ?_)
    rw [hstop]
    exact List.mem_cons_self
  | worker he | call he => cases he

/-- **The step lemma.** -/
theorem ShuttingDown.step (h : ShuttingDown tr N) (hs : NetTransition top timeoutMax N ev N') :
    ShuttingDown (tr ++ ev.toList) N' := by
  refine ⟨hs.unjoined_suffix.trans h.suffix, fun c hc => ?_, fun c hc b hb => ?_, fun c hc => ?_⟩
  · rw [eventsOf_append]
    by_cases hold : c ∈ N.control.unstopped
    · rcases hs.unstopped with heq | ⟨c', hstop, -, rfl⟩
      · exact absurd hold (heq ▸ hc)
      · rw [hstop] at hold
        obtain rfl := (List.mem_cons.mp hold).resolve_right hc
        exact List.mem_append_right _
          (List.mem_filterMap.mpr ⟨_, List.mem_singleton_self _, NetEvent.on_component _ _⟩)
    · exact List.mem_append_left _ (h.stopped c hold)
  · rw [eventsOf_append] at hb
    rcases List.mem_append.mp hb with hb | hb
    · refine h.unstopped c ?_ b hb
      rcases hs.unstopped with heq | ⟨c', hstop, -, -⟩
      · exact heq ▸ hc
      · rw [hstop]
        exact List.mem_cons_of_mem _ hc
    · -- a second stop would find the component twice in the list
      obtain ⟨e, he, hon⟩ := List.mem_filterMap.mp hb
      obtain rfl : ev = some e := Option.mem_toList.mp he
      cases hs.origin hon with
      | stop hstop hstop' =>
        have hnd := h.unstopped_nodup
        rw [hstop] at hnd
        rw [hstop'] at hc
        exact (List.nodup_cons.mp hnd).1 hc
      | worker he | call he => cases he
  · have hmono : (N.sys c).worker.ended = true → (N'.sys c).worker.ended = true := by
      intro hw
      rcases hs.component c with hstep | ⟨-, heq⟩
      · exact hstep.transition.ended hw
      · rwa [heq]
    by_cases hold : c ∈ N.control.unjoined
    · refine hmono ?_
      cases hs with
      | join hj hw =>
        rw [hj] at hold
        obtain rfl := (List.mem_cons.mp hold).resolve_right hc
        exact hw
      | startCalled hc' | launch hc' | startReturned hc' | stopCalled hc' | stop hc'
      | stopReturned hc' =>
        rw [hc'] at hold
        exact absurd hold hc
      | _ => exact absurd hold hc
    · exact hmono (h.joined c hold)

/-- **The run lemma.** -/
theorem shuttingDown_of_run (h : Emulation top timeoutMax (Net.new now) tr N) :
    ShuttingDown tr N := by
  refine h.invariant (I := ShuttingDown) ⟨List.suffix_rfl, ?_, by simp, ?_⟩
    fun _ _ _ _ _ ih hs => ih.step hs.transition
  · exact fun c (hc : c ∉ components n) => absurd (mem_components c) hc
  · exact fun c (hc : c ∉ components n) => absurd (mem_components c) hc

/-! ## Steps that fit -/

/-- **A step fits**: the component that it stops is drainable, and a worker
that it moves does not wait too long. -/
structure Net.Fit (timeoutMax : T) (N N' : Net T V n) : Prop where
  stops : ∀ c todo, N.control = .stopping (c :: todo) → N'.control = .joining c todo →
    (N.sys c).Drainable (N'.sys c).now
  waits : ∀ c, (N.sys c).worker ≠ (N'.sys c).worker →
    (N.sys c).WaitsFit timeoutMax (N'.sys c).now

/-- The steps that fit. -/
abbrev FitSteps (top : Topology n) (timeoutMax : T) (N : Net T V n)
    (ev : Option (NetEvent T V n)) (N' : Net T V n) : Prop :=
  NetSteps top timeoutMax N ev N' ∧ N.Fit timeoutMax N'

theorem emulation_of_fits (h : Run (FitSteps top timeoutMax) N tr N') :
    Emulation top timeoutMax N tr N' :=
  h.mono fun _ _ _ h => h.1

/-- **The step that stops a component.** -/
theorem exists_stop (h : Run (FitSteps top timeoutMax) N tr N') (hc : c ∈ N.control.unstopped)
    (hc' : c ∉ N'.control.unstopped) :
    ∃ pre post N₁ N₂, tr = pre ++ .component c (.stopRequested true) :: post ∧
      Run (FitSteps top timeoutMax) N pre N₁ ∧
      FitSteps top timeoutMax N₁ (some (.component c (.stopRequested true))) N₂ ∧
      Run (FitSteps top timeoutMax) N₂ post N' ∧
      N₁.control = .stopping (c :: N₂.control.unstopped) ∧
      N₂.control = .joining c N₂.control.unstopped ∧ c ∉ N₂.control.unstopped := by
  obtain ⟨pre, ev, post, N₁, N₂, rfl, hpre, hs, hpost, hin, hout⟩ :=
    h.exists_loss (P := fun N => c ∈ N.control.unstopped) hc hc'
  rcases hs.1.transition.unstopped with heq | ⟨c₁, hc₁, hc₂, rfl⟩
  · exact absurd (heq ▸ hin) hout
  · have hmem : c ∈ c₁ :: N₂.control.unstopped := by
      rw [hc₁] at hin
      exact hin
    obtain rfl := (List.mem_cons.mp hmem).resolve_right hout
    exact ⟨pre, post, N₁, N₂, by simp, hpre, hs, hpost, hc₁, hc₂, hout⟩

/-- A worker that has ended has left its loop. -/
theorem returned_of_ended (h : Run (FitSteps top timeoutMax) (Net.new now) tr N)
    (hpops : PopsReturn (eventsOf c tr)) (hend : (N.sys c).worker.ended = true) :
    (N.sys c).worker = .returned := by
  have hrun : Run (fun s ev s' => Steps timeoutMax s ev s' ∧
      (s.worker ≠ s'.worker → s.WaitsFit timeoutMax s'.now)) (Sys.new now) (eventsOf c tr)
      (N.sys c) :=
    Run.project (f := fun N : Net T V n => N.sys c)
      (fun _ _ _ hs => (hs.1.transition.component c).imp_left fun hstep => ⟨hstep, hs.2.waits c⟩) h
  cases hw : (N.sys c).worker with
  | crashed x => exact absurd hw (not_crashed_of_run hrun hpops x)
  | returned => rfl
  | _ =>
    rw [hw] at hend
    cases hend

/-! ## After all loops were running -/

section Running

variable {tr₀ : List (NetEvent T V n)} {N₀ : Net T V n}

/-- **A component that is not stopped runs**, once it did. -/
theorem running_of_unstopped (h₀ : Emulation top timeoutMax (Net.new now) tr₀ N₀)
    (hup : ∀ c, (N₀.sys c).executor.status = .running)
    (h : Emulation top timeoutMax N₀ tr N) (hc : c ∈ N.control.unstopped) :
    (N.sys c).executor.status = .running := by
  have hent₀ := (entered_of_running (Emulation.component h₀ c) (hup c)).1
  have hent : (N.sys c).worker.entered = true :=
    entered_of_run (Emulation.component h c) hent₀
  have hall := h₀.trans h
  exact running_of_entered (Emulation.component hall c)
    ((shuttingDown_of_run hall).unstopped c hc) hent

/-- **What was accepted before the stop is executed when the thread is
joined.** -/
theorem completed_of_joined (h₀ : Run (FitSteps top timeoutMax) (Net.new now) tr₀ N₀)
    (hup : ∀ c, (N₀.sys c).executor.status = .running)
    (h : Run (FitSteps top timeoutMax) N₀ tr N) (hc : c ∈ N.control.unstopped)
    (h' : Run (FitSteps top timeoutMax) N tr' N') (hc' : c ∉ N'.control.unjoined)
    (hq : NoComparisonRaises (eventsOf c (tr₀ ++ tr ++ tr'))) {t : Task T Obj}
    (ht : t ∈ acceptedTasks (eventsOf c (tr₀ ++ tr)))
    (hkept : .cancelled t.future true ∉ eventsOf c (tr₀ ++ tr ++ tr')) :
    t ∈ completedTasks (eventsOf c (tr₀ ++ tr ++ tr')) := by
  have hbefore := h₀.trans h
  have hall := hbefore.trans h'
  have hshut := shuttingDown_of_run (emulation_of_fits hall)
  have hret := returned_of_ended hall hq.1 (hshut.joined c hc')
  -- the step that stops the component, at which it is drainable
  obtain ⟨pre, post, N₁, N₂, rfl, hpre, hs, hpost, hc₁, hc₂, hone⟩ :=
    exists_stop h' hc fun hmem => hc' (N'.control.unstopped_suffix.subset hmem)
  have hrun := running_of_unstopped (emulation_of_fits h₀) hup (emulation_of_fits (h.trans hpre))
    (c := c) (by rw [hc₁]; exact List.mem_cons_self)
  have hstep : Steps timeoutMax (N₁.sys c) (some (.stopRequested true)) (N₂.sys c) :=
    NetSteps.of_on hs.1 (NetEvent.on_component c _)
  have hsplit : eventsOf c (tr₀ ++ tr ++ (pre ++ .component c (.stopRequested true) :: post)) =
      eventsOf c (tr₀ ++ tr ++ pre) ++ .stopRequested true :: eventsOf c post := by
    rw [← List.append_assoc, eventsOf_split (NetEvent.on_component _ _)]
  rw [hsplit] at hq hkept ⊢
  refine mem_completedTasks.mpr ?_
  refine completed_after_return (Emulation.component (emulation_of_fits (hbefore.trans hpre)) c)
    hrun hstep (Emulation.component (emulation_of_fits hpost) c)
    (no_stop_after (emulation_of_fits hpost) hone) hret hq (hs.2.stops c _ hc₁ hc₂)
    (mem_seen_left ht) hkept

end Running

end Shutdown

end PyLwip
