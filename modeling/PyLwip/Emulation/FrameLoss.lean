import PyLwip.Common.Lists
import PyLwip.Emulation.FrameOrder
import PyLwip.Emulation.Shutdown

/-!
# What a stop of the network loses

A frame that was accepted by the bus crosses two executors, and `stop` drains
the one before it stops the other. Where every component is drainable when
it is stopped, every frame that was accepted before has been seen by the
observers and received by the interfaces when `stop` returns. Where one is
not, what is left in its queue is lost.
-/

namespace PyLwip

open EventSystem

variable {T V : Type} {n : ℕ}

/-- **The frame of `t` was carried**: every observer registered before its
dispatch was passed it exactly once; and if no filter refused it, then for
every interface but the sender's exactly one `input_data` task was accepted,
and it was executed exactly once. -/
structure Carried [DecidableEq T] (top : Topology n) (t : Task T Obj) (f : Frame)
    (tr : List (NetEvent T V n)) : Prop where
  frame : t.frame? = some f
  observed : ∀ j < registeredBefore t tr, (observersOf t tr).count j = 1
  received : Allowed t tr → ∀ netif i, (netif, i) ∈ top.interfaces → netif ≠ f.sender →
    ∃ u : Task T Obj, u.action = .inputData netif ∧ u.args = [.bytes f.data] ∧
      (deliveriesOf t tr).filter (fun x => x.1.1 = netif) = [((netif, i), u)] ∧
      u ∈ completedTasks (eventsOf (.host i) tr) ∧
      (invokedTasks (eventsOf (.host i) tr)).count u = 1

/-- Each observer registered before was shown the frame once. -/
theorem Shown.count_eq_one [DecidableEq T] {t : Task T Obj} {tr : List (NetEvent T V n)}
    (h : Shown t tr) {j : ℕ} (hj : j < registeredBefore t tr) :
    (observersOf t tr).count j = 1 := by
  obtain ⟨k, hk, hle⟩ := h
  rw [hk]
  exact List.count_eq_one_of_mem List.nodup_range (List.mem_range.mpr (by omega))

section Loss

variable {tr tr₀ tr' : List (NetEvent T V n)} {t u : Task T Obj}

theorem mem_deliveriesOf [DecidableEq T] {netif : ℕ} {i : Fin n} :
    ((netif, i), u) ∈ deliveriesOf t tr ↔ ∃ d, .delivered t netif i (.accepted d u) ∈ tr := by
  constructor
  · intro h
    obtain ⟨e, he, hde⟩ := List.mem_filterMap.mp h
    cases e with
    | delivered t' netif' i' e =>
      simp only [NetEvent.delivery?] at hde
      split at hde
      · next heq =>
        obtain ⟨u', hu', hpair⟩ := Option.map_eq_some_iff.mp hde
        cases e <;> cases hu'
        cases hpair
        exact ⟨_, heq ▸ he⟩
      · cases hde
    | _ => cases hde
  · rintro ⟨d, h⟩
    exact List.mem_filterMap.mpr ⟨_, h, by simp [NetEvent.delivery?, Event.accepted?]⟩

/-- **A receiver is reached once**: no interface is there twice. -/
theorem filter_deliveriesOf [DecidableEq T] {top : Topology n} {f : Frame} {k : ℕ}
    (h : (deliveriesOf t tr).map Prod.fst = top.receivers f k) {netif : ℕ} {i : Fin n}
    (hu : ((netif, i), u) ∈ deliveriesOf t tr) :
    (deliveriesOf t tr).filter (fun x => x.1.1 = netif) = [((netif, i), u)] := by
  refine Lists.filter_eq_singleton (f := fun x => x.1.1) ?_ hu
  have hnodup := top.receivers_nodup f k
  rwa [← h, List.map_map] at hnodup

variable [AddCommGroup T] [LinearOrder T] {top : Topology n} {timeoutMax now : T}
  {N N₀ N' : Net T V n} {ev : Option (NetEvent T V n)}

/-- What is accepted later has a later future. -/
theorem nextFuture_le_of_accepted {O : Type} [RichCompare O] {s s' : Sys T O V}
    {tr : List (Event T O V)} {t : Task T O} (h : Interleaving timeoutMax s tr s')
    (ht : t ∈ acceptedTasks tr) : s.nextFuture ≤ t.future := by
  refine (h.invariant (I := fun tr s' => s.nextFuture ≤ s'.nextFuture ∧
    ∀ t ∈ acceptedTasks tr, s.nextFuture ≤ t.future) ⟨le_rfl, by simp⟩ ?_).2 t ht
  rintro tr s₁ ev s₂ - ⟨hle, hold⟩ hs
  obtain ⟨hmono, hnew⟩ := hs.transition.nextFuture
  refine ⟨hle.trans hmono, fun t ht => ?_⟩
  rw [acceptedTasks, seen_append] at ht
  rcases List.mem_append.mp ht with ht | ht
  · exact hold t ht
  · obtain ⟨e, he, hte⟩ := mem_seen.mp ht
    obtain rfl : ev = some e := Option.mem_toList.mp he
    exact hle.trans (hnew t hte).1.ge

theorem NetTransition.started (hs : NetTransition top timeoutMax N ev N')
    (hev : ev = some .stopCalled) : N.control = .started := by
  cases hs with
  | stopCalled hc => exact hc
  | dispatch hw hf hd =>
    subst hev
    generalize N.dispatch = d at hd
    cases hd
  | @work r c s' ev hs => cases ev <;> cases hev
  | _ => cases hev

/-- **No host refuses a frame** that was accepted once all loops ran. -/
theorem accepted_of_delivered (h₀ : Emulation top timeoutMax (Net.new now) tr₀ N₀)
    (hup : ∀ c, (N₀.sys c).executor.status = .running) (h : Emulation top timeoutMax N₀ tr N)
    (hq : ∀ c, NoComparisonRaises (eventsOf c (tr₀ ++ tr)))
    (ht : t ∈ acceptedTasks (eventsOf .bus tr)) {netif : ℕ} {i : Fin n} {e : Event T Obj V}
    (he : .delivered t netif i e ∈ tr₀ ++ tr) : ∃ d u, e = .accepted d u := by
  have hbus := (hq .bus).1
  rw [eventsOf_append] at hbus
  rcases List.mem_append.mp he with hold | hnew
  · -- the task was not there before
    have hlt := (conserved_of_run (Emulation.component h₀ .bus) hbus.left).future_lt_of_invoked
      (invoked_of_dispatched h₀ hbus.left hold rfl)
    have hle := nextFuture_le_of_accepted (Emulation.component h .bus) ht
    omega
  · obtain ⟨f, -, -, -, hcalls⟩ := delivery_calls h hnew
    obtain ⟨pre, post, N₁, N₂, rfl, hpre, hs, -⟩ := h.exists_of_mem hnew
    obtain ⟨rest, hw⟩ := hs.transition.executing rfl
    -- the bus dispatches, so no host is stopped
    have hshut := shuttingDown_of_run (h₀.trans hpre)
    have hjoin : .bus ∈ N₁.control.unjoined := by
      by_contra hnot
      have := hshut.joined .bus hnot
      simp [hw, Worker.ended] at this
    have hrun := running_of_unstopped h₀ hup hpre (hshut.host_unstopped hjoin i)
    have hcall := hcalls.isCall
    cases e with
    | accepted d u => exact ⟨d, u, rfl⟩
    | rejected =>
      exact absurd hrun
        (NetSteps.of_on hs (NetEvent.on_delivered _ _ _ _)).transition.not_running
    | scheduleRaised u x =>
      have := (hq (.host i)).2 (.scheduleRaised u x)
        (List.mem_filterMap.mpr ⟨_, he, NetEvent.on_delivered _ _ _ _⟩)
      cases this
    | _ => cases hcall

/-! ## When `stop` has returned -/

/-- **The frame of `t` is dispatched when the bus is joined.** -/
theorem dispatched_of_joined (h₀ : Run (FitSteps top timeoutMax) (Net.new now) tr₀ N₀)
    (hup : ∀ c, (N₀.sys c).executor.status = .running)
    (h : Run (FitSteps top timeoutMax) N₀ tr N) (hbus : .bus ∈ N.control.unstopped)
    (h' : Run (FitSteps top timeoutMax) N tr' N') (hbus' : .bus ∉ N'.control.unjoined)
    (hq : NoComparisonRaises (eventsOf .bus (tr₀ ++ tr ++ tr')))
    (ht : t ∈ acceptedTasks (eventsOf .bus tr)) :
    t ∈ completedTasks (eventsOf .bus (tr₀ ++ tr ++ tr')) := by
  have hemu := emulation_of_fits ((h₀.trans h).trans h')
  exact completed_of_joined h₀ hup h hbus h' hbus' hq (mem_seen_right ht)
    (not_cancelled_on_bus hemu _ _)

/-- **A delivery of the frame of `t` is executed when its host is joined**: the
host is stopped after the bus is joined, and by then the frame was delivered. -/
theorem delivery_completed (h₀ : Run (FitSteps top timeoutMax) (Net.new now) tr₀ N₀)
    (hup : ∀ c, (N₀.sys c).executor.status = .running)
    (h : Run (FitSteps top timeoutMax) N₀ tr N) (hall : ∀ c, c ∈ N.control.unstopped)
    (h' : Run (FitSteps top timeoutMax) N tr' N') {i : Fin n}
    (hjoined : .host i ∉ N'.control.unjoined)
    (hq : ∀ c, NoComparisonRaises (eventsOf c (tr₀ ++ tr ++ tr')))
    (ht : t ∈ acceptedTasks (eventsOf .bus tr)) {netif : ℕ} {d : T}
    (hdel : .delivered t netif i (.accepted d u) ∈ tr₀ ++ tr ++ tr') :
    u ∈ completedTasks (eventsOf (.host i) (tr₀ ++ tr ++ tr')) := by
  have hemu := emulation_of_fits ((h₀.trans h).trans h')
  obtain ⟨pre, post, N₁, N₂, rfl, hpre, hs, hpost, hc₁, -, -⟩ :=
    exists_stop h' (hall (.host i)) fun hmem => hjoined (N'.control.unstopped_suffix.subset hmem)
  have hpre' := emulation_of_fits ((h₀.trans h).trans hpre)
  have hsplit : tr₀ ++ tr ++ (pre ++ .component (.host i) (.stopRequested true) :: post) =
      (tr₀ ++ tr ++ pre) ++ .component (.host i) (.stopRequested true) :: post :=
    (List.append_assoc _ _ _).symm
  have hbus := hq .bus
  rw [hsplit, eventsOf_append] at hbus
  have hover := dispatched_of_joined h₀ hup h (hall .bus) hpre
    ((shuttingDown_of_run hpre').bus_joined hc₁) hbus.left ht
  have hkept := delivery_not_cancelled hemu hdel (b := true)
  -- the dispatch is over, so the delivery is not after the stop
  have hbefore : .delivered t netif i (.accepted d u) ∈ tr₀ ++ tr ++ pre := by
    rw [hsplit] at hdel hemu
    rcases List.mem_append.mp hdel with hdel | hdel
    · exact hdel
    · refine absurd rfl (not_dispatched_after hemu ?_ hover hdel)
      rw [eventsOf_append]
      exact hbus.1
  have hrest : Run (FitSteps top timeoutMax) N₁
      (.component (.host i) (.stopRequested true) :: post) N' := by
    simpa using (Run.single hs).trans hpost
  have hstopping : .host i ∈ N₁.control.unstopped := by
    rw [hc₁]
    exact List.mem_cons_self
  rw [hsplit, List.append_assoc tr₀] at hkept ⊢
  refine completed_of_joined h₀ hup (h.trans hpre) hstopping hrest hjoined ?_ ?_ hkept
  · rw [← List.append_assoc tr₀, ← hsplit]
    exact hq (.host i)
  · rw [← List.append_assoc]
    refine mem_acceptedTasks.mpr ⟨d, ?_⟩
    exact List.mem_filterMap.mpr ⟨_, hbefore, NetEvent.on_delivered _ _ _ _⟩

/-- **Stopping the network loses no accepted frame** in a run whose steps
fit: a frame that was accepted before `stop` was called is carried when it
returns. -/
theorem stop_loses_no_frame {tr₁ tr₂ : List (NetEvent T V n)} {N₁ N₂ : Net T V n}
    (h₀ : Run (FitSteps top timeoutMax) (Net.new now) tr₀ N₀)
    (hup : ∀ c, (N₀.sys c).executor.status = .running)
    (h₁ : Run (FitSteps top timeoutMax) N₀ tr₁ N₁)
    (hstop : FitSteps top timeoutMax N₁ (some .stopCalled) N₂)
    (h₂ : Run (FitSteps top timeoutMax) N₂ tr₂ N) (hstopped : N.control = .stopped)
    (hq : ∀ c, NoComparisonRaises (eventsOf c (tr₀ ++ tr₁ ++ .stopCalled :: tr₂)))
    (ht : t ∈ acceptedTasks (eventsOf .bus tr₁))
    (hnorm : ∀ x, .dispatchRaised t x ∉ tr₀ ++ tr₁ ++ .stopCalled :: tr₂) :
    ∃ f, Carried top t f (tr₀ ++ tr₁ ++ .stopCalled :: tr₂) := by
  have h' : Run (FitSteps top timeoutMax) N₁ (.stopCalled :: tr₂) N := by
    simpa using (Run.single hstop).trans h₂
  have hall : ∀ c, c ∈ N₁.control.unstopped := fun c => by
    rw [hstop.1.transition.started rfl]
    exact mem_components c
  have hjoined : ∀ c, c ∉ N.control.unjoined := by simp [hstopped, Control.unjoined]
  have hrun := emulation_of_fits ((h₀.trans h₁).trans h')
  have hover := dispatched_of_joined h₀ hup h₁ (hall .bus) h' (hjoined .bus) (hq .bus) ht
  obtain ⟨d₀, hacc⟩ := mem_acceptedTasks.mp ht
  obtain ⟨f, hcalls⟩ := calls_on_bus (emulation_of_fits h₁) hacc rfl
  have hf : t.frame? = some f := Task.frame?_of_args (hcalls.pushed t rfl).2.2
  have haccepted : ∀ {netif : ℕ} {i : Fin n} {e : Event T Obj V},
      .delivered t netif i e ∈ tr₀ ++ tr₁ ++ .stopCalled :: tr₂ → ∃ d u, e = .accepted d u := by
    intro netif i e he
    have ht' : t ∈ acceptedTasks (eventsOf .bus (tr₁ ++ .stopCalled :: tr₂)) := mem_seen_left ht
    rw [List.append_assoc] at he hq
    exact accepted_of_delivered (emulation_of_fits h₀) hup (emulation_of_fits (h₁.trans h')) hq
      ht' he
  have hend := ended_of_completed hrun (hq .bus).1 hover hf
  have hnone : ¬ ∃ x, .dispatchRaised t x ∈ tr₀ ++ tr₁ ++ .stopCalled :: tr₂ :=
    not_exists.mpr hnorm
  obtain ⟨hshown, hdelivered⟩ := hend.resolve_left hnone
  refine ⟨f, hf, fun j hj => hshown.count_eq_one hj, fun hallowed netif i hmem hne => ?_⟩
  have hreceivers : (deliveriesOf t (tr₀ ++ tr₁ ++ .stopCalled :: tr₂)).map Prod.fst =
      top.receivers f top.interfaces.length := by
    refine hdelivered.resolve_left ?_ hallowed
    rintro ⟨netif, i, e, he, hrefused⟩
    obtain ⟨d, u, rfl⟩ := haccepted he
    cases hrefused
  have hreceiver : (netif, i) ∈ top.receivers f top.interfaces.length := by
    simpa [Topology.receivers, hmem] using hne
  rw [← hreceivers] at hreceiver
  obtain ⟨⟨_, u⟩, hu, rfl⟩ := List.mem_map.mp hreceiver
  obtain ⟨d, hdel⟩ := mem_deliveriesOf.mp hu
  obtain ⟨f', hf', -, -, hcalls'⟩ := delivery_calls hrun hdel
  obtain rfl := Option.some.inj (hf.symm.trans hf')
  have hcomp := delivery_completed h₀ hup h₁ hall h' (hjoined (.host i)) hq ht hdel
  obtain ⟨-, haction, hargs⟩ := hcalls'.pushed u rfl
  have hc := conserved_of_run (Emulation.component hrun (.host i)) (hq (.host i)).1
  exact ⟨u, haction, hargs, filter_deliveriesOf hreceivers hu, hcomp,
    hc.count_invoked_of_completed hcomp⟩

end Loss

/-! ## A stop that loses nothing, and one that does -/

/-- A filter, an observer or the action of a task raised. -/
def NetEvent.raises : NetEvent T V n → Bool
  | .dispatchRaised _ _ | .component _ (.completed _ (.exception _)) => true
  | _ => false

/-- The component that is stopped has no unfinished task, and no worker would
wait too long. -/
def Net.Settled (timeoutMax : ℤ) (N N' : Net ℤ V n) : Prop :=
  ∀ c ∈ components n,
    (N.control = .stopping (c :: N'.control.unstopped) → (N.sys c).unfinished = 0) ∧
      (N.sys c).WaitsFit timeoutMax (N'.sys c).now

instance (timeoutMax : ℤ) (N N' : Net ℤ V n) : Decidable (N.Settled timeoutMax N') :=
  inferInstanceAs (Decidable (∀ c ∈ components n, _ ∧ _))

theorem Net.Settled.fit {timeoutMax : ℤ} {N N' : Net ℤ V n} (h : N.Settled timeoutMax N') :
    N.Fit timeoutMax N' := by
  refine ⟨fun c todo hc hc' => .of_settled ?_, fun c _ => (h c (mem_components c)).2⟩
  refine (h c (mem_components c)).1 ?_
  rw [hc, hc']
  rfl

/-- The steps of `oneHost` that are settled. -/
abbrev settledStep : Net ℤ ℕ 1 → ℤ × Move ℤ ℕ 1 → Option (Net ℤ ℕ 1 × Option (NetEvent ℤ ℕ 1)) :=
  guarded (Net.step oneHost 100) fun N N' => N.Settled 100 N'

theorem fits_of_settled {N : Net ℤ ℕ 1} {ls : List (ℤ × Move ℤ ℕ 1)}
    (h : (execute settledStep N ls).isSome = true) :
    Run (FitSteps oneHost 100) N (outcome settledStep N ls h).2 (outcome settledStep N ls h).1 :=
  (run_guarded_outcome _ _ _ _ _).mono fun _ _ _ h => ⟨h.1, h.2.fit⟩

/-- `stop` waits for the bus, whose turn it is at the reading `r`, and then
for the host, which executes the delivery of one frame. -/
def joined (r : ℤ) : List (ℤ × Move ℤ ℕ 1) :=
  [(r, .work .bus .load), (r, .work .bus .store), (r, .work .bus (.turn r)), (r, .control),
    (r, .control), (r, .work onlyHost (.turn r)), (r, .work onlyHost .take),
    (r, .work onlyHost (.finish (.result 0))), (r, .work onlyHost .settle),
    (r, .work onlyHost .load), (r, .work onlyHost .store), (r, .work onlyHost (.turn r)),
    (r, .control), (r, .control)]

/-- All loops run. -/
def allRunning : Net ℤ ℕ 1 × List (NetEvent ℤ ℕ 1) :=
  outcome settledStep (Net.new 0) watched (by decide)

/-- A frame is broadcast. -/
def frameQueued : Net ℤ ℕ 1 × List (NetEvent ℤ ℕ 1) :=
  outcome settledStep allRunning.1 [(1, .broadcast ⟨9, [1]⟩)] (by decide)

/-- `stop` is called before the bus has taken it. -/
def stopCalled : Net ℤ ℕ 1 × List (NetEvent ℤ ℕ 1) :=
  outcome settledStep frameQueued.1 [(1, .control)] (by decide)

/-- `stop` returns. -/
def stopReturned : Net ℤ ℕ 1 × List (NetEvent ℤ ℕ 1) :=
  outcome settledStep stopCalled.1
    ([(1, .control), (2, .work .bus (.turn 2))] ++ dispatched 2 ++ joined 3) (by decide)

theorem stop_loses_no_frame_queued :
    ∃ f, Carried oneHost ⟨1, 0, .broadcast, Frame.args ⟨9, [1]⟩, [], 0⟩ f
      (allRunning.2 ++ frameQueued.2 ++ .stopCalled :: stopReturned.2) := by
  have hup : ∀ c ∈ components 1, (allRunning.1.sys c).executor.status = .running := by decide
  have hq : ∀ c ∈ components 1, NoComparisonRaises
      (eventsOf c (allRunning.2 ++ frameQueued.2 ++ .stopCalled :: stopReturned.2)) := by decide
  have hnone : ∀ e ∈ allRunning.2 ++ frameQueued.2 ++ .stopCalled :: stopReturned.2,
      e.raises = false := by decide
  have hsettled : frameQueued.1.Settled 100 stopCalled.1 := by decide
  have hcalled : FitSteps oneHost 100 frameQueued.1 (some .stopCalled) stopCalled.1 :=
    ⟨⟨(1, .control), rfl⟩, hsettled.fit⟩
  refine stop_loses_no_frame (fits_of_settled _) (fun c => hup c (mem_components c))
    (fits_of_settled _) hcalled (fits_of_settled _) (by decide)
    (fun c => hq c (mem_components c)) (by decide) fun x hx => ?_
  cases hnone _ hx

/-- The second frame is broadcast while the bus dispatches the first. -/
def frameBehind : Net ℤ ℕ 1 × List (NetEvent ℤ ℕ 1) :=
  outcome (Net.step oneHost 100) allRunning.1
    [(1, .broadcast ⟨9, [1]⟩), (2, .work .bus (.turn 2)), (2, .work .bus .take),
      (2, .broadcast ⟨9, [2]⟩)] (by decide)

/-- `stop` is called. -/
def stopTooEarly : Net ℤ ℕ 1 × List (NetEvent ℤ ℕ 1) :=
  outcome (Net.step oneHost 100) frameBehind.1 [(2, .control)] (by decide)

/-- `stop` returns with the second frame queued. -/
def frameLeft : Net ℤ ℕ 1 × List (NetEvent ℤ ℕ 1) :=
  outcome (Net.step oneHost 100) stopTooEarly.1
    ([(2, .control)] ++ (dispatched 2).tail ++ joined 3) (by decide)

/-- **Stopping the network can lose a frame**: the bus dispatches one when it
is stopped, and the end of that dispatch uses up the count of the one that
is queued. -/
theorem stop_loses_frame :
    ∃ (tr₀ tr₁ tr₂ : List (NetEvent ℤ ℕ 1)) (N₀ N₁ N₂ N : Net ℤ ℕ 1) (t : Task ℤ Obj),
      Emulation oneHost 100 (Net.new 0) tr₀ N₀ ∧
      (∀ c ∈ components 1, (N₀.sys c).executor.status = .running) ∧
      Emulation oneHost 100 N₀ tr₁ N₁ ∧ NetSteps oneHost 100 N₁ (some .stopCalled) N₂ ∧
      Emulation oneHost 100 N₂ tr₂ N ∧ N.control = .stopped ∧
      (∀ c ∈ components 1, NoComparisonRaises (eventsOf c (tr₀ ++ tr₁ ++ .stopCalled :: tr₂))) ∧
      (∀ e ∈ tr₀ ++ tr₁ ++ .stopCalled :: tr₂, e.raises = false) ∧
      t ∈ acceptedTasks (eventsOf .bus tr₁) ∧
      t ∉ invokedTasks (eventsOf .bus (tr₀ ++ tr₁ ++ .stopCalled :: tr₂)) ∧
      ¬ ∃ f, Carried oneHost t f (tr₀ ++ tr₁ ++ .stopCalled :: tr₂) := by
  have hrunning : Run (FitSteps oneHost 100) (Net.new 0) allRunning.2 allRunning.1 :=
    fits_of_settled _
  have hbehind : Emulation oneHost 100 allRunning.1 frameBehind.2 frameBehind.1 :=
    run_outcome _ _ _ _
  have hleft : Emulation oneHost 100 stopTooEarly.1 frameLeft.2 frameLeft.1 :=
    run_outcome _ _ _ _
  refine ⟨allRunning.2, frameBehind.2, frameLeft.2, allRunning.1, frameBehind.1, stopTooEarly.1,
    frameLeft.1, ⟨2, 0, .broadcast, Frame.args ⟨9, [2]⟩, [], 1⟩, emulation_of_fits hrunning,
    by decide, hbehind, ⟨(2, .control), rfl⟩, hleft, by decide, by decide, by decide, by decide,
    by decide, ?_⟩
  -- the observer has not seen it
  rintro ⟨f, hcarried⟩
  have hseen := hcarried.observed 0 (by decide)
  revert hseen
  decide

end PyLwip
