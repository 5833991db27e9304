import PyLwip.Scheduler.Result
import PyLwip.Common.Lists
import PyLwip.Emulation.FrameOrder

/-!
# Nothing else is received

A host calls `input_data` of an interface because `_broadcast` scheduled the
call for a frame, or because someone called `on_incoming_data`. `_broadcast`
comes to each interface once, and only with a frame that no filter has
refused; so that at every moment of a run what an interface has been given is
some of what was sent to it, nothing twice and nothing else. That is so
whatever raises, and whenever the network is stopped: a task that is lost with
a thread is not there to be executed.
-/

namespace PyLwip

open EventSystem

variable {T V : Type} {n : ℕ}

/-! ## What is sent and received -/

/-- The data that a task calls `input_data` of the interface `netif` with. -/
def Task.inputOf? (netif : ℕ) (u : Task T Obj) : Option (List UInt8) :=
  match u.action, u.args with
  | .inputData netif', [.bytes data] => if netif' = netif then some data else none
  | _, _ => none

/-- What the host `k` has called `input_data` of the interface `netif` with, call
by call. -/
def inputsOf (k : Fin n) (netif : ℕ) (tr : List (NetEvent T V n)) : List (List UInt8) :=
  (invokedTasks (eventsOf (.host k) tr)).filterMap (Task.inputOf? netif)

namespace NetEvent

/-- The data of a call of `on_incoming_data` by someone else than the bus,
where the call leaves a task in the host's queue. -/
def handed? (k : Fin n) (netif : ℕ) : NetEvent T V n → Option (List UInt8)
  | .component (.host k') e => if k' = k then e.pushed?.bind (Task.inputOf? netif) else none
  | _ => none

/-- The data of a call by the bus. -/
def forwarded? (k : Fin n) (netif : ℕ) : NetEvent T V n → Option (List UInt8)
  | .delivered _ _ k' e => if k' = k then e.pushed?.bind (Task.inputOf? netif) else none
  | _ => none

/-- The task whose frame `_broadcast` calls the host `k` with, for the interface
`netif`. -/
def calledFor? (k : Fin n) (netif : ℕ) : NetEvent T V n → Option (Task T Obj)
  | .delivered t netif' k' _ => if netif' = netif ∧ k' = k then some t else none
  | _ => none

/-- A filter refuses the frame of `t`. -/
def refuses [DecidableEq T] (t : Task T Obj) : NetEvent T V n → Bool
  | .filtered u _ false => decide (u = t)
  | _ => false

end NetEvent

instance [DecidableEq T] (t : Task T Obj) (tr : List (NetEvent T V n)) : Decidable (Allowed t tr) :=
  decidable_of_iff (∀ e ∈ tr, e.refuses t = false) <| by
    constructor
    · intro h i hi
      simpa [NetEvent.refuses] using h _ hi
    · intro h e he
      cases e with
      | filtered u i b =>
        cases b with
        | true => rfl
        | false => exact decide_eq_false fun heq => h i (heq ▸ he)
      | _ => rfl

/-- The data of the frame of `t` if it is for the interface `netif` of the host
`k`: this is on the bus and not the sender, and no filter has refused the
frame. -/
def frameFor? [DecidableEq T] (top : Topology n) (k : Fin n) (netif : ℕ)
    (tr : List (NetEvent T V n)) (t : Task T Obj) : Option (List UInt8) :=
  t.frame?.bind fun f =>
    if (netif, k) ∈ top.interfaces ∧ netif ≠ f.sender ∧ Allowed t tr then some f.data else none

/-- What `broadcast` has been called with for the interface `netif` of the host
`k`, where the call left a task in the queue of the bus. -/
def sentTo [DecidableEq T] (top : Topology n) (k : Fin n) (netif : ℕ)
    (tr : List (NetEvent T V n)) : List (List UInt8) :=
  (pushedTasks (eventsOf .bus tr)).filterMap (frameFor? top k netif tr)

/-- What callers of `on_incoming_data` have handed to the host `k` for the
interface `netif`. -/
def handedTo (k : Fin n) (netif : ℕ) (tr : List (NetEvent T V n)) : List (List UInt8) :=
  tr.filterMap (NetEvent.handed? k netif)

/-- Whatever is scheduled on a host for an interface was handed to it or
forwarded. -/
theorem pushed_inputs (k : Fin n) (netif : ℕ) (tr : List (NetEvent T V n)) :
    (pushedTasks (eventsOf (.host k) tr)).filterMap (Task.inputOf? netif) =
      tr.filterMap fun e => (e.handed? k netif).or (e.forwarded? k netif) := by
  rw [pushedTasks, seen, eventsOf, List.filterMap_filterMap, List.filterMap_filterMap]
  refine List.filterMap_congr fun e _ => ?_
  cases e with
  | component c e =>
    cases c with
    | bus => rfl
    | host k' =>
      by_cases hk : k' = k <;> simp [NetEvent.on, NetEvent.handed?, NetEvent.forwarded?, hk]
  | delivered t netif' k' e =>
    by_cases hk : k' = k <;> simp [NetEvent.on, NetEvent.handed?, NetEvent.forwarded?, hk]
  | _ => rfl

theorem pushed_perm (k : Fin n) (netif : ℕ) (tr : List (NetEvent T V n)) :
    ((pushedTasks (eventsOf (.host k) tr)).filterMap (Task.inputOf? netif)).Perm
      (handedTo k netif tr ++ tr.filterMap (NetEvent.forwarded? k netif)) := by
  rw [pushed_inputs]
  refine Lists.filterMap_or_perm (fun e => ?_) tr
  cases e with
  | delivered => exact .inl rfl
  | _ => exact .inr rfl

/-! ## What `_broadcast` has passed -/

/-- The interface with the index `k` is behind `_broadcast`. -/
def Dispatch.Passed : Dispatch → ℕ → Prop
  | .filtering _, _ | .observing _ _, _ => False
  | .delivering k', k => k < k'
  | .returned, _ | .raised _, _ => True

theorem Dispatch.passed_afterCall {k j : ℕ} (e : Event T Obj V) (h : k ≤ j) :
    (Dispatch.afterCall j e).Passed k := by
  cases e <;> first | trivial | exact Nat.lt_succ_of_le h

theorem DispatchStep.passed {top : Topology n} {t : Task T Obj} {f : Frame} {d d' : Dispatch}
    {filters observers k : ℕ} {ev : Option (NetEvent T V n)}
    (h : DispatchStep top filters observers t f d ev d') (hk : d.Passed k) : d'.Passed k := by
  cases h with
  | raised | interfacesPassed => trivial
  | sender => exact Nat.lt_succ_of_lt hk
  | accepted | refused | filtersPassed | observed | observersPassed => cases hk

section Runs

variable [AddCommGroup T] [LinearOrder T] {top : Topology n} {timeoutMax now : T}
  {N N' : Net T V n} {ev : Option (NetEvent T V n)} {tr : List (NetEvent T V n)}

/-- Where `_broadcast` calls a host. -/
theorem NetTransition.calling (hs : NetTransition top timeoutMax N ev N') {t : Task T Obj}
    {netif : ℕ} {k : Fin n} {e : Event T Obj V} (hev : ev = some (.delivered t netif k e)) :
    ∃ rest f j, (N.sys .bus).worker = .executing t rest ∧ t.frame? = some f ∧
      N.dispatch = .delivering j ∧ top.interfaces[j]? = some (netif, k) := by
  cases hs with
  | deliver hw hf hd hk =>
    cases hev
    exact ⟨_, _, _, hw, hf, hd, hk⟩
  | dispatch hw hf hd => exact absurd hev hd.not_delivered
  | @work r c s' ev hs => cases ev <;> cases hev
  | _ => cases hev

/-- Where it asks a filter. -/
theorem NetTransition.filtering (hs : NetTransition top timeoutMax N ev N') {t : Task T Obj}
    {i : ℕ} {b : Bool} (hev : ev = some (.filtered t i b)) :
    (∃ rest, (N.sys .bus).worker = .executing t rest) ∧ N.dispatch = .filtering i := by
  cases hs with
  | dispatch hw hf hd =>
    subst hev
    generalize N.dispatch = d at hd ⊢
    cases hd <;> exact ⟨⟨_, hw⟩, rfl⟩
  | @work r c s' ev hs => cases ev <;> cases hev
  | _ => cases hev

/-- A frame is dispatched after its task is invoked, whatever raises. -/
theorem executed_of_dispatched (h : Emulation top timeoutMax (Net.new now) tr N)
    {e : NetEvent T V n} (he : e ∈ tr) {t : Task T Obj} (ht : e.dispatches? = some t) :
    t ∈ invokedTasks (eventsOf .bus tr) := by
  obtain ⟨pre, post, N₁, N₂, rfl, hpre, hs, -⟩ := h.exists_of_mem he
  obtain ⟨rest, hw⟩ := hs.transition.executing ht
  rcases conserved_or_crashed (Emulation.component hpre .bus) with hc | ⟨x, hcrashed⟩
  · refine mem_seen_left (hc.invoked.mem_iff.mpr (List.mem_append_left _ ?_))
    simp [hw, Worker.current]
  · rw [hw] at hcrashed
    cases hcrashed

/-- **What `_broadcast` has called**: each interface for a frame once, no
interface for a frame that was refused, and for the frame that is being
dispatched only interfaces that it has passed. -/
structure Calling (top : Topology n) (tr : List (NetEvent T V n)) (N : Net T V n) : Prop where
  once : ∀ k netif, (tr.filterMap (NetEvent.calledFor? k netif)).Nodup
  allowed : ∀ t netif k e, .delivered t netif k e ∈ tr → Allowed t tr
  passed : ∀ t rest, (N.sys .bus).worker = .executing t rest →
    ∀ netif k e, .delivered t netif k e ∈ tr →
      ∃ j, top.interfaces[j]? = some (netif, k) ∧ N.dispatch.Passed j

omit [AddCommGroup T] [LinearOrder T] in
theorem mem_calledFor {k : Fin n} {netif : ℕ} {t : Task T Obj} :
    t ∈ tr.filterMap (NetEvent.calledFor? k netif) ↔ ∃ e, .delivered t netif k e ∈ tr := by
  constructor
  · intro h
    obtain ⟨e, he, ht⟩ := List.mem_filterMap.mp h
    cases e with
    | delivered t' netif' k' e =>
      simp only [NetEvent.calledFor?] at ht
      split at ht
      · next heq =>
        obtain ⟨rfl, rfl⟩ := heq
        cases ht
        exact ⟨e, he⟩
      · cases ht
    | _ => cases ht
  · rintro ⟨e, he⟩
    exact List.mem_filterMap.mpr ⟨_, he, by simp [NetEvent.calledFor?]⟩

/-- **The step lemma.** -/
theorem Calling.step (h : Calling top tr N) (hrun : Emulation top timeoutMax (Net.new now) tr N)
    (hs : NetTransition top timeoutMax N ev N') : Calling top (tr ++ ev.toList) N' := by
  constructor
  · intro k netif
    rw [List.filterMap_append, List.nodup_append]
    refine ⟨h.once k netif, ?_, ?_⟩
    · cases ev with
      | none => exact List.nodup_nil
      | some e => cases he : e.calledFor? k netif <;> simp [he]
    · rintro t ht u hu rfl
      obtain ⟨e, he⟩ := mem_calledFor.mp ht
      obtain ⟨e', he'⟩ := mem_calledFor.mp hu
      obtain ⟨rest, f, j, hw, -, hd, hj⟩ := hs.calling (Option.mem_toList.mp he')
      -- the interface that is called for is not one that was passed
      obtain ⟨j', hj', hpassed⟩ := h.passed t rest hw netif k e he
      rw [hd] at hpassed
      have hlt : j' < top.interfaces.length := (List.getElem?_eq_some_iff.mp hj').1
      have heq : j' = j := (List.getElem?_inj hlt top.nodup.of_map).mp (hj'.trans hj.symm)
      exact absurd hpassed (by simp [Dispatch.Passed, heq])
  · intro t netif k e he i hi
    rcases List.mem_append.mp he with he | he <;> rcases List.mem_append.mp hi with hi | hi
    · exact h.allowed t netif k e he i hi
    · -- no filter is asked behind the interfaces
      obtain ⟨⟨rest, hw⟩, hd⟩ := hs.filtering (Option.mem_toList.mp hi)
      obtain ⟨j, -, hpassed⟩ := h.passed t rest hw netif k e he
      rw [hd] at hpassed
      exact hpassed
    · obtain ⟨rest, f, j, hw, hf, hd, -⟩ := hs.calling (Option.mem_toList.mp he)
      have hpops := popsReturn_of_alive (Emulation.component hrun .bus) (by simp [hw, Worker.ended])
      have hprog := ((dispatching_of_run hrun hpops).progress t rest f hw hf).2
      rw [hd] at hprog
      exact hprog.1 i hi
    · cases (Option.mem_toList.mp he).symm.trans (Option.mem_toList.mp hi)
  · intro t rest hexec netif k e he
    have hnone : ev.bind NetEvent.dispatches? = none → .delivered t netif k e ∈ tr := by
      intro hev
      refine (List.mem_append.mp he).resolve_right fun he => ?_
      rw [Option.mem_toList.mp he] at hev
      cases hev
    cases hs.frameMove with
    | other hdis hev hnot =>
      have hw : (N.sys .bus).worker = .executing t rest := by
        rcases hs.component .bus with hstep | ⟨-, heq⟩
        · rcases hstep.transition.executing hexec with ⟨hw, -⟩ | ⟨-, -, r, hinvoked⟩
          · exact hw
          · cases hnot _ hinvoked
        · rwa [← heq]
      rw [hdis]
      exact h.passed t rest hw netif k e (hnone hev)
    | @take e' hev hworker hdis =>
      subst hev
      rcases (hs.of_on (NetEvent.on_component_eq.mpr ⟨rfl, rfl⟩)).transition.executing hexec with
        ⟨-, e₀, he₀, hnot⟩ | ⟨hbatch, hpending, -⟩
      · cases he₀
        rw [hworker] at hnot
        cases hnot
      · -- nobody was called for a task that is taken only now
        have hinv := executed_of_dispatched hrun (hnone rfl) rfl
        rcases conserved_or_crashed (Emulation.component hrun .bus) with hc | ⟨x, hw⟩
        · rcases hc.future_of_invoked hinv with hf | ⟨o, hf⟩ <;> simp [hpending] at hf
        · rw [hbatch] at hw
          cases hw
    | @move u rest' f hw hsame hf hd =>
      rw [hsame, hw] at hexec
      cases hexec
      have hold := (List.mem_append.mp he).resolve_right fun he =>
        hd.not_delivered (Option.mem_toList.mp he)
      obtain ⟨j, hj, hpassed⟩ := h.passed t rest hw netif k e hold
      exact ⟨j, hj, hd.passed hpassed⟩
    | @call u rest' f j netif' k' e' hw hsame hf hd hj hne hcall hev hdis =>
      rw [hsame, hw] at hexec
      cases hexec
      rw [hdis]
      rcases List.mem_append.mp he with hold | hnew
      · obtain ⟨j', hj', hpassed⟩ := h.passed t rest hw netif k e hold
        rw [hd] at hpassed
        exact ⟨j', hj', Dispatch.passed_afterCall e' (Nat.le_of_lt hpassed)⟩
      · rw [hev] at hnew
        cases List.mem_singleton.mp hnew
        exact ⟨j, hj, Dispatch.passed_afterCall e le_rfl⟩

/-- **The run lemma.** -/
theorem calling_of_run (h : Emulation top timeoutMax (Net.new now) tr N) : Calling top tr N :=
  h.invariant (I := Calling top) ⟨fun _ _ => List.nodup_nil, by simp, by simp⟩
    fun _ _ _ _ hrun ih hs => ih.step hrun hs.transition

/-! ## What is received was sent -/

/-- What is executed was scheduled, and is executed once, whatever raises. -/
theorem invoked_subperm_pushed {O : Type} [RichCompare O] {s : Sys T O V}
    {tr : List (Event T O V)} (h : Interleaving timeoutMax (Sys.new now) tr s) :
    (invokedTasks tr).Subperm (pushedTasks tr) := by
  refine h.invariant (I := fun tr _ => (invokedTasks tr).Subperm (pushedTasks tr))
    (List.Subperm.refl _) ?_
  intro tr s ev s' hrun ih hs
  rcases conserved_or_crashed (hrun.step hs) with hc | ⟨x, hcrashed⟩
  · refine List.subperm_of_subset hc.invoked_nodup fun t ht => hc.places.mem_iff.mp ?_
    rw [places, List.append_assoc]
    refine List.mem_append_right _ ?_
    rcases List.mem_append.mp (hc.invoked.mem_iff.mp ht) with ht | ht
    · exact List.mem_append_left _ ht
    · exact List.mem_append_right _ ((completedTasks_sublist _).subset ht)
  · -- a worker that is gone has invoked nothing
    have hnone : ev.bind Event.invoked? = none := by
      cases ev with
      | none => rfl
      | some e =>
        cases e with
        | invoked t r =>
          obtain ⟨rest, hw⟩ := hs.transition.invoking
          rw [hw] at hcrashed
          cases hcrashed
        | _ => rfl
    have hsame : invokedTasks (tr ++ ev.toList) = invokedTasks tr := by
      cases ev with
      | none => simp
      | some e => simpa using hnone
    rw [hsame, pushedTasks, seen_append]
    exact ih.trans (List.sublist_append_left _ _).subperm

/-- A frame that a host is called with was sent. -/
theorem calledFor_subset (h : Emulation top timeoutMax (Net.new now) tr N) (k : Fin n)
    (netif : ℕ) :
    tr.filterMap (NetEvent.calledFor? k netif) ⊆ pushedTasks (eventsOf .bus tr) := by
  intro t ht
  obtain ⟨e, he⟩ := mem_calledFor.mp ht
  exact (invoked_subperm_pushed (Emulation.component h .bus)).subset
    (executed_of_dispatched h he rfl)

/-- What is forwarded is what the calls are made with. -/
theorem forwarded_sublist (h : Emulation top timeoutMax (Net.new now) tr N) (k : Fin n)
    (netif : ℕ) :
    (tr.filterMap (NetEvent.forwarded? k netif)).Sublist
      ((tr.filterMap (NetEvent.calledFor? k netif)).filterMap (frameFor? top k netif tr)) := by
  rw [List.filterMap_filterMap]
  refine Lists.filterMap_sublist fun e he data hdata => ?_
  cases e with
  | delivered t netif' k' e =>
    obtain ⟨f, hf, hmem, hne, hcalls⟩ := delivery_calls h he
    simp only [NetEvent.forwarded?] at hdata
    split at hdata
    · next hk =>
      obtain ⟨u, hu, hinput⟩ := Option.bind_eq_some_iff.mp hdata
      obtain ⟨-, haction, hargs⟩ := hcalls.pushed u hu
      simp only [Task.inputOf?, haction, hargs] at hinput
      split at hinput
      · next hnetif =>
        subst hk hnetif
        have hallowed := (calling_of_run h).allowed t netif' k' e he
        simpa [NetEvent.calledFor?, frameFor?, hf, hmem, hne, hallowed] using hinput
      · cases hinput
    · cases hdata
  | _ => cases hdata

/-- **What the bus forwards to an interface was sent to it**, each frame
once. -/
theorem forwarded_subperm (h : Emulation top timeoutMax (Net.new now) tr N) (k : Fin n)
    (netif : ℕ) :
    (tr.filterMap (NetEvent.forwarded? k netif)).Subperm (sentTo top k netif tr) := by
  have htasks := List.subperm_of_subset ((calling_of_run h).once k netif)
    (calledFor_subset h k netif)
  exact (forwarded_sublist h k netif).subperm.trans (Lists.subperm_filterMap _ htasks)

/-- **An interface receives nothing else.** At every moment of every run of the
network, whatever raises and whenever the network is stopped, the data that a
host has called `input_data` of an interface with is some of what callers of
`on_incoming_data` have handed to it and of the frames that others than this
interface have broadcast and no filter has refused: no frame twice, none of
its own, and nothing that was not sent. -/
theorem inputs_subperm (h : Emulation top timeoutMax (Net.new now) tr N) (k : Fin n) (netif : ℕ) :
    (inputsOf k netif tr).Subperm (handedTo k netif tr ++ sentTo top k netif tr) := by
  have hhost := invoked_subperm_pushed (Emulation.component h (.host k))
  have hpushed := Lists.subperm_filterMap (Task.inputOf? netif) hhost
  refine hpushed.trans ((pushed_perm k netif tr).subperm.trans ?_)
  exact List.Subperm.append (List.Subperm.refl _) (forwarded_subperm h k netif)

end Runs

/-- Of the two frames that were sent each is received, in the other order. -/
theorem inputs_subperm_overtaken :
    (inputsOf 0 7 overtakenFrame.2).Subperm
        (handedTo 0 7 overtakenFrame.2 ++ sentTo oneHost 0 7 overtakenFrame.2) ∧
      inputsOf 0 7 overtakenFrame.2 = [[1], [2]] ∧
      sentTo oneHost 0 7 overtakenFrame.2 = [[2], [1]] := by
  have hrun : Emulation oneHost 100 (Net.new 0) overtakenFrame.2 overtakenFrame.1 :=
    run_outcome _ _ _ _
  exact ⟨inputs_subperm hrun 0 7, by decide, by decide⟩

end PyLwip
