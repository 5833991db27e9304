import PyLwip.Emulation.FrameLoss
import PyLwip.Scheduler.AllOrNothing

/-!
# Whether one host's state starves another

`_broadcast` calls `on_incoming_data` for one interface after the other, and
what a host raises ends the loop. While a frame is dispatched, let the hosts
of `up` be those whose executors run. The hosts that do not run raise
`Stopped`, and who is registered after the first of their interfaces gets
nothing.
-/

namespace PyLwip

open EventSystem

variable {T V : Type} {n : ℕ}

/-! ## A dispatch among hosts that run and hosts that do not -/

/-- The bus executes `_broadcast` as the task `t`, and the hosts of `up` run. -/
structure Net.Dispatches (t : Task T Obj) (rest : List (Task T Obj)) (up : Fin n → Prop)
    (N : Net T V n) : Prop where
  executing : (N.sys .bus).worker = .executing t rest
  running : ∀ i, (N.sys (.host i)).executor.status = .running ↔ up i

/-- **Every host that runs is served**: for each of its interfaces but the
sender's exactly one `input_data` task with the frame was accepted. -/
def ServesRunning [DecidableEq T] (top : Topology n) (t : Task T Obj) (f : Frame)
    (up : Fin n → Prop) (tr : List (NetEvent T V n)) : Prop :=
  ∀ netif i, (netif, i) ∈ top.interfaces → netif ≠ f.sender → up i →
    ∃ u : Task T Obj, u.action = .inputData netif ∧ u.args = [.bytes f.data] ∧
      (deliveriesOf t tr).filter (fun x => x.1.1 = netif) = [((netif, i), u)]

/-- **No interface of a host that does not run is registered before one of a
host that runs**, the sender's apart. -/
def Topology.RunningFirst (top : Topology n) (f : Frame) (up : Fin n → Prop) : Prop :=
  (top.receivers f top.interfaces.length).Pairwise fun x y => up y.2 → up x.2

/-- A push of a delivery of the frame of `t` raised. -/
def PushRaised (t : Task T Obj) (tr : List (NetEvent T V n)) : Prop :=
  ∃ netif i u x, .delivered t netif i (.scheduleRaised u x) ∈ tr

/-- The frame of `t` is delivered to the first interfaces, up to the index
`k`, and all their hosts run. -/
structure Reached [DecidableEq T] (top : Topology n) (t : Task T Obj) (f : Frame)
    (up : Fin n → Prop) (k : ℕ) (tr : List (NetEvent T V n)) : Prop where
  delivered : (deliveriesOf t tr).map Prod.fst = top.receivers f k
  running : ∀ x ∈ top.receivers f k, up x.2

/-- **What the dispatch has come to** at each place of `_broadcast`. -/
def Served [DecidableEq T] (top : Topology n) (t : Task T Obj) (f : Frame) (up : Fin n → Prop)
    (tr : List (NetEvent T V n)) : Dispatch → Prop
  | .filtering _ => deliveriesOf t tr = [] ∧ ¬ PushRaised t tr
  | .observing b _ => deliveriesOf t tr = [] ∧ ¬ PushRaised t tr ∧ (b = false → ¬ Allowed t tr)
  | .delivering k => Reached top t f up k tr ∧ ¬ PushRaised t tr
  | .returned => Allowed t tr →
    Reached top t f up top.interfaces.length tr ∧ ¬ PushRaised t tr
  | .raised _ => (∃ x, .dispatchRaised t x ∈ tr) ∨
    ∃ k netif i, top.interfaces[k]? = some (netif, i) ∧ netif ≠ f.sender ∧
      Reached top t f up k tr ∧ (up i ↔ PushRaised t tr)

section Places

variable {t : Task T Obj} {f : Frame} {up : Fin n → Prop} {top : Topology n}
  {tr tr' : List (NetEvent T V n)} {ev : Option (NetEvent T V n)}

theorem pushRaised_append (h : Untouched t tr') : PushRaised t (tr ++ tr') ↔ PushRaised t tr := by
  unfold PushRaised
  constructor
  · rintro ⟨netif, i, u, x, hmem⟩
    rcases List.mem_append.mp hmem with hmem | hmem
    · exact ⟨netif, i, u, x, hmem⟩
    · exact absurd rfl (h _ hmem)
  · rintro ⟨netif, i, u, x, hmem⟩
    exact ⟨netif, i, u, x, List.mem_append_left _ hmem⟩

variable [DecidableEq T]

theorem Reached.of_deliveries_eq {k : ℕ} (h : Reached top t f up k tr)
    (heq : deliveriesOf t tr' = deliveriesOf t tr) : Reached top t f up k tr' :=
  ⟨by rw [heq, h.delivered], h.running⟩

/-- **The frame lemma**: the events of other frames change nothing. -/
theorem Served.frame {d : Dispatch} (h : Served top t f up tr d) (hother : Untouched t tr') :
    Served top t f up (tr ++ tr') d := by
  have hdel : deliveriesOf t (tr ++ tr') = deliveriesOf t tr := deliveriesOf_append hother
  have hpush : PushRaised t (tr ++ tr') ↔ PushRaised t tr := pushRaised_append hother
  cases d with
  | filtering i => simpa only [Served, hdel, hpush] using h
  | observing b j => simpa only [Served, hdel, hpush, allowed_append hother] using h
  | delivering k => exact ⟨h.1.of_deliveries_eq hdel, by rw [hpush]; exact h.2⟩
  | returned =>
    intro hallowed
    obtain ⟨hreached, hnone⟩ := h ((allowed_append hother).mp hallowed)
    exact ⟨hreached.of_deliveries_eq hdel, by rwa [hpush]⟩
  | raised x =>
    rcases h with ⟨y, hy⟩ | ⟨k, netif, i, hk, hne, hreached, hup⟩
    · exact .inl ⟨y, List.mem_append_left _ hy⟩
    · exact .inr ⟨k, netif, i, hk, hne, hreached.of_deliveries_eq hdel, by rw [hpush]; exact hup⟩

/-- The moves of `_broadcast` that call no host. -/
theorem DispatchStep.deliveriesOf_append {d d' : Dispatch} {filters observers : ℕ}
    {g : Frame} (hs : DispatchStep top filters observers t g d ev d') :
    deliveriesOf t (tr ++ ev.toList) = deliveriesOf t tr ∧
      (PushRaised t (tr ++ ev.toList) ↔ PushRaised t tr) := by
  have hnot : ∀ netif i e, .delivered t netif i e ∉ ev.toList := fun netif i e he =>
    hs.not_delivered (Option.mem_toList.mp he)
  constructor
  · cases hs <;> simp [NetEvent.delivery?]
  · unfold PushRaised
    simp [hnot]

/-- **The step lemma** for these moves. -/
theorem Served.step {d d' : Dispatch} {filters observers : ℕ} (h : Served top t f up tr d)
    (hs : DispatchStep top filters observers t f d ev d') :
    Served top t f up (tr ++ ev.toList) d' := by
  obtain ⟨hdel, hpush⟩ : deliveriesOf t (tr ++ ev.toList) = deliveriesOf t tr ∧
    (PushRaised t (tr ++ ev.toList) ↔ PushRaised t tr) := hs.deliveriesOf_append
  cases hs with
  | accepted hi => exact ⟨hdel.trans h.1, hpush.not.mpr h.2⟩
  | filtersPassed hi => exact ⟨hdel.trans h.1, hpush.not.mpr h.2, by simp⟩
  | @refused i hi =>
    exact ⟨hdel.trans h.1, hpush.not.mpr h.2, fun _ hallowed => hallowed i (by simp)⟩
  | observed hj =>
    obtain ⟨hnil, hnone, hrefused⟩ := h
    exact ⟨hdel.trans hnil, hpush.not.mpr hnone, fun hb hallowed =>
      hrefused hb fun i hi => hallowed i (List.mem_append_left _ hi)⟩
  | @observersPassed b j hj =>
    obtain ⟨hnil, hnone, hrefused⟩ := h
    cases b with
    | true =>
      exact ⟨⟨by simp [hnil, Topology.receivers], by simp [Topology.receivers]⟩,
        hpush.not.mpr hnone⟩
    | false => exact fun hallowed => absurd (by simpa using hallowed) (hrefused rfl)
  | raised => exact .inl ⟨_, List.mem_append_right _ (List.mem_singleton_self _)⟩
  | @sender k i hk =>
    have hreached := h.1.of_deliveries_eq hdel
    have hsame := Topology.receivers_succ_sender hk
    exact ⟨⟨by rw [hsame, hreached.delivered], by rw [hsame]; exact hreached.running⟩,
      hpush.not.mpr h.2⟩
  | @interfacesPassed k hk =>
    have hreached := h.1.of_deliveries_eq hdel
    have hall := Topology.receivers_of_none (f := f) hk
    exact fun _ => ⟨⟨by rw [← hall, hreached.delivered], by rw [← hall]; exact hreached.running⟩,
      hpush.not.mpr h.2⟩

/-- The step lemma for a call of `on_incoming_data`, which a host that runs
does not reject. -/
theorem Served.deliver {k netif : ℕ} {i : Fin n} {e : Event T Obj V}
    (h : Served top t f up tr (.delivering k)) (hk : top.interfaces[k]? = some (netif, i))
    (hne : netif ≠ f.sender) (hcall : e.isCall = true) (hup : up i ↔ e ≠ .rejected) :
    Served top t f up (tr ++ [.delivered t netif i e]) (.afterCall k e) := by
  obtain ⟨hreached, hnone⟩ := h
  cases e with
  | accepted d u =>
    -- the host runs and its push returned: one interface more is reached
    have hsucc := Topology.receivers_succ hk hne
    refine ⟨⟨?_, ?_⟩, ?_⟩
    · simp [NetEvent.delivery?, Event.accepted?, hreached.delivered, hsucc]
    · rw [hsucc]
      intro x hx
      rcases List.mem_append.mp hx with hx | hx
      · exact hreached.running x hx
      · rw [List.mem_singleton.mp hx]
        exact hup.mpr (by simp)
    · simpa [PushRaised] using hnone
  | rejected =>
    refine .inr ⟨k, netif, i, hk, hne, hreached.of_deliveries_eq ?_, iff_of_false ?_ ?_⟩
    · simp [NetEvent.delivery?, Event.accepted?]
    · simp [hup]
    · simpa [PushRaised] using hnone
  | scheduleRaised u x =>
    refine .inr ⟨k, netif, i, hk, hne, hreached.of_deliveries_eq ?_, iff_of_true ?_ ?_⟩
    · simp [NetEvent.delivery?, Event.accepted?]
    · exact hup.mpr (by simp)
    · exact ⟨netif, i, u, x, by simp⟩
  | _ => cases hcall

/-! ## What that says at the end -/

omit [DecidableEq T] in
/-- The interfaces around the one with the index `k`. -/
theorem Topology.receivers_split {k netif : ℕ} {i : Fin n}
    (hk : top.interfaces[k]? = some (netif, i)) (hne : netif ≠ f.sender) :
    ∃ rest, top.receivers f top.interfaces.length = top.receivers f k ++ (netif, i) :: rest := by
  obtain ⟨hlt, hget⟩ := List.getElem?_eq_some_iff.mp hk
  have hsplit : top.interfaces =
      top.interfaces.take k ++ (netif, i) :: top.interfaces.drop (k + 1) := by
    rw [← hget, ← List.drop_eq_getElem_cons hlt, List.take_append_drop]
  refine ⟨(top.interfaces.drop (k + 1)).filter fun x => x.1 ≠ f.sender, ?_⟩
  rw [receivers, List.take_length, hsplit, List.filter_append, List.filter_cons_of_pos (by simpa),
    receivers, ← hsplit]

/-- The tasks that were accepted for the frame are those of its deliveries. -/
def DeliversFrame (t : Task T Obj) (f : Frame) (tr : List (NetEvent T V n)) : Prop :=
  ∀ x ∈ deliveriesOf t tr, x.2.action = .inputData x.1.1 ∧ x.2.args = [.bytes f.data]

/-- Who is reached is served once. -/
theorem Reached.served {k netif : ℕ} {i : Fin n} (h : Reached top t f up k tr)
    (hcalls : DeliversFrame t f tr) (hmem : (netif, i) ∈ top.receivers f k) :
    ∃ u : Task T Obj, u.action = .inputData netif ∧ u.args = [.bytes f.data] ∧
      (deliveriesOf t tr).filter (fun x => x.1.1 = netif) = [((netif, i), u)] := by
  rw [← h.delivered] at hmem
  obtain ⟨⟨_, u⟩, hu, rfl⟩ := List.mem_map.mp hmem
  obtain ⟨haction, hargs⟩ := hcalls _ hu
  exact ⟨u, haction, hargs, filter_deliveriesOf h.delivered hu⟩

/-- Who is served is reached. -/
theorem Reached.mem_of_served {k netif : ℕ} {i : Fin n} (h : Reached top t f up k tr)
    (hserved : ServesRunning top t f up tr)
    (hmem : (netif, i) ∈ top.receivers f top.interfaces.length) (hup : up i) :
    (netif, i) ∈ top.receivers f k := by
  obtain ⟨hin, hne⟩ : (netif, i) ∈ top.interfaces ∧ netif ≠ f.sender := by
    simpa [Topology.receivers] using hmem
  obtain ⟨u, -, -, hfilter⟩ := hserved netif i hin hne hup
  have hu : ((netif, i), u) ∈ deliveriesOf t tr :=
    List.mem_of_mem_filter (hfilter ▸ List.mem_singleton_self _)
  rw [← h.delivered]
  exact List.mem_map.mpr ⟨_, hu, rfl⟩

/-- A frame that got as far as the interface with the index `k`. -/
theorem Reached.serves_iff {k netif : ℕ} {i : Fin n} (h : Reached top t f up k tr)
    (hcalls : DeliversFrame t f tr) (hk : top.interfaces[k]? = some (netif, i))
    (hne : netif ≠ f.sender) (hpush : up i ↔ PushRaised t tr) :
    ServesRunning top t f up tr ↔ top.RunningFirst f up ∧ ¬ PushRaised t tr := by
  obtain ⟨rest, hsplit⟩ := Topology.receivers_split (f := f) hk hne
  -- the interface at which the loop ended divides the receivers
  have hnodup : (top.receivers f k ++ (netif, i) :: rest).Nodup := by
    rw [← hsplit]
    exact (top.receivers_nodup f _).of_map
  have hlast : ∀ x ∈ (netif, i) :: rest, x ∉ top.receivers f k := fun x hx hx' =>
    List.disjoint_of_nodup_append hnodup hx' hx
  -- of the interfaces from there on only those of hosts that do not run can be served
  have hdown : ServesRunning top t f up tr → ∀ x ∈ (netif, i) :: rest, ¬ up x.2 := by
    intro hserved x hx hup
    refine hlast x hx (h.mem_of_served hserved ?_ hup)
    rw [hsplit]
    exact List.mem_append_right _ hx
  constructor
  · intro hserved
    have hnot := hdown hserved
    refine ⟨?_, fun hraised => hnot _ List.mem_cons_self (hpush.mpr hraised)⟩
    rw [Topology.RunningFirst, hsplit, List.pairwise_append]
    refine ⟨?_, ?_, fun x hx y _ _ => h.running x hx⟩
    · exact List.pairwise_of_forall_mem_list fun x hx y _ _ => h.running x hx
    · exact List.pairwise_of_forall_mem_list fun x _ y hy hup => absurd hup (hnot y hy)
  · rintro ⟨hfirst, hnone⟩ m j hmem hm hup
    have hfull : (m, j) ∈ top.receivers f top.interfaces.length := by
      simpa [Topology.receivers, hmem] using hm
    rw [Topology.RunningFirst, hsplit, List.pairwise_append] at hfirst
    rw [hsplit] at hfull
    rcases List.mem_append.mp hfull with hreached | hlater
    · exact h.served hcalls hreached
    · rcases List.mem_cons.mp hlater with heq | hrest
      · cases heq
        exact absurd (hpush.mp hup) hnone
      · exact absurd (hpush.mp ((List.pairwise_cons.mp hfirst.2.1).1 _ hrest hup)) hnone

/-- **Where `_broadcast` has ended**, it has served every host that runs
exactly if these are first and no push raised. -/
theorem Served.serves_iff {d : Dispatch} {o : Outcome V} (h : Served top t f up tr d)
    (hend : d.ends o = true) (hcalls : DeliversFrame t f tr) (hallowed : Allowed t tr)
    (hnorm : ∀ x, .dispatchRaised t x ∉ tr) :
    ServesRunning top t f up tr ↔ top.RunningFirst f up ∧ ¬ PushRaised t tr := by
  cases d with
  | returned =>
    obtain ⟨hreached, hnone⟩ := h hallowed
    refine iff_of_true (fun netif i hmem hne _ => ?_) ⟨?_, hnone⟩
    · exact hreached.served hcalls (by simpa [Topology.receivers, hmem] using hne)
    · exact List.pairwise_of_forall_mem_list fun x hx y _ _ => hreached.running x hx
  | raised x =>
    rcases h with ⟨y, hy⟩ | ⟨k, netif, i, hk, hne, hreached, hpush⟩
    · exact absurd hy (hnorm y)
    · exact hreached.serves_iff hcalls hk hne hpush
  | filtering | observing | delivering => cases o <;> cases hend

end Places

/-! ## Along the run of a dispatch -/

section Runs

variable [AddCommGroup T] [LinearOrder T]

/-- The steps while the bus executes `_broadcast` as the task `t` and the
hosts of `up` are those that run. -/
def DispatchSteps (top : Topology n) (timeoutMax : T) (t : Task T Obj) (rest : List (Task T Obj))
    (up : Fin n → Prop) (N : Net T V n) (ev : Option (NetEvent T V n)) (N' : Net T V n) : Prop :=
  NetSteps top timeoutMax N ev N' ∧ N'.Dispatches t rest up

/-- **Every push is admitted**: where `on_incoming_data` is called for a host
that runs, the new entry meets no comparison that raises in the host's
queue. -/
def PushesAdmitted (top : Topology n) (timeoutMax : T) (t : Task T Obj) (up : Fin n → Prop)
    (N : Net T V n) (tr : List (NetEvent T V n)) (N' : Net T V n) : Prop :=
  ∀ pre netif i e post N₁ N₂, tr = pre ++ .delivered t netif i e :: post →
    Emulation top timeoutMax N pre N₁ →
    NetSteps top timeoutMax N₁ (some (.delivered t netif i e)) N₂ →
    Emulation top timeoutMax N₂ post N' → up i →
    ∀ u ∈ e.pushed?, (N₁.sys (.host i)).executor.Admits u

variable {top : Topology n} {timeoutMax : T} {t : Task T Obj} {rest : List (Task T Obj)} {f : Frame}
  {up : Fin n → Prop} {N N' N₀ : Net T V n} {ev : Option (NetEvent T V n)}
  {tr : List (NetEvent T V n)}

theorem emulation_of_dispatch (h : Run (DispatchSteps top timeoutMax t rest up) N tr N') :
    Emulation top timeoutMax N tr N' :=
  h.mono fun _ _ _ hs => hs.1

/-- A call of `schedule_delayed` is rejected exactly if the loop does not run. -/
theorem Transition.running_iff_of_isCall {O : Type} [RichCompare O] {s s' : Sys T O V}
    {e : Event T O V} (hs : Transition timeoutMax s (some e) s') (he : e.isCall = true) :
    s.executor.status = .running ↔ e ≠ .rejected := by
  cases hs with
  | rejected hr hst => simpa using hst
  | accepted hr hst | scheduleRaised hr hst => simpa using hst
  | _ => cases he

/-- What a push that raises says of the queue, and one that does not. -/
theorem Transition.admits {O : Type} [RichCompare O] {s s' : Sys T O V} {e : Event T O V}
    (hs : Transition timeoutMax s (some e) s') {u : Task T O} (hu : u ∈ e.pushed?) :
    s.executor.Admits u ↔ e.accepted? = some u := by
  rw [Executor.admits_iff]
  cases hs with
  | accepted hr hst htime hfut hpush =>
    obtain rfl := Option.some.inj hu
    simp [hpush, Event.accepted?]
  | scheduleRaised hr hst htime hfut hpush =>
    obtain rfl := Option.some.inj hu
    simp [hpush, Event.accepted?]
  | _ => cases hu

/-- The step of the host that a frame is delivered to. -/
theorem NetSteps.host {netif : ℕ} {i : Fin n} {e : Event T Obj V}
    (hs : NetSteps top timeoutMax N (some (.delivered t netif i e)) N') :
    Transition timeoutMax (N.sys (.host i)) (some e) (N'.sys (.host i)) := by
  exact (NetSteps.of_on hs (NetEvent.on_delivered _ _ _ _)).transition

/-- **The step lemma.** -/
theorem Served.netStep (h : Served top t f up tr N.dispatch) (hf : t.frame? = some f)
    (hN : N.Dispatches t rest up) (hs : DispatchSteps top timeoutMax t rest up N ev N') :
    Served top t f up (tr ++ ev.toList) N'.dispatch := by
  obtain ⟨hstep, hN'⟩ := hs
  have hframe := hstep.transition.frameMove
  cases hframe with
  | other hdis hev hinv =>
    rw [hdis]
    refine h.frame fun e he ht => ?_
    rw [Option.mem_toList.mp he, Option.bind_some, ht] at hev
    cases hev
  | take hev he hdis =>
    -- the worker would have been between two tasks
    subst hev
    have hbus := NetSteps.of_on hstep (NetEvent.on_component .bus _)
    rcases hbus.transition.executing hN'.executing with ⟨-, e', he', hnot⟩ | ⟨hbatch, -⟩
    · obtain rfl := Option.some.inj he'
      rw [he] at hnot
      cases hnot
    · rw [hN.executing] at hbatch
      cases hbatch
  | move hw hsame hf' hd =>
    rw [hN.executing] at hw
    obtain ⟨rfl, rfl⟩ := Worker.executing.inj hw
    obtain rfl := Option.some.inj (hf'.symm.trans hf)
    exact h.step hd
  | @call t' rest' f' k netif i e hw hsame hf' hd hk hne he hev hdis =>
    rw [hN.executing] at hw
    obtain ⟨rfl, rfl⟩ := Worker.executing.inj hw
    obtain rfl := Option.some.inj (hf'.symm.trans hf)
    subst hev
    rw [hd] at h
    rw [hdis]
    refine h.deliver hk hne he ?_
    rw [← hN.running]
    exact hstep.host.running_iff_of_isCall he

/-- **The run lemma.** -/
theorem served_of_run (hf : t.frame? = some f) (hN : N.Dispatches t rest up)
    (hbegin : N.dispatch = .filtering 0)
    (h : Run (DispatchSteps top timeoutMax t rest up) N tr N') :
    Served top t f up tr N'.dispatch := by
  refine (h.invariant (I := fun tr N' => N'.Dispatches t rest up ∧ Served top t f up tr N'.dispatch)
    ⟨hN, ?_⟩ ?_).2
  · rw [hbegin]
    exact ⟨rfl, by simp [PushRaised]⟩
  · rintro tr N₁ ev N₂ - ⟨hN₁, hserved⟩ hs
    exact ⟨hs.2, hserved.netStep hf hN₁ hs⟩

/-- A push raised where one was not admitted. -/
theorem pushesAdmitted_iff (hN : N.Dispatches t rest up)
    (h : Run (DispatchSteps top timeoutMax t rest up) N tr N') :
    PushesAdmitted top timeoutMax t up N tr N' ↔ ¬ PushRaised t tr := by
  constructor
  · rintro hadmitted ⟨netif, i, u, x, hmem⟩
    obtain ⟨pre, post, N₁, N₂, htr, hpre, hs, hpost⟩ := h.exists_of_mem hmem
    have hN₁ : N₁.Dispatches t rest up :=
      hpre.state_invariant hN fun _ _ _ _ hs => hs.2
    have hhost := hs.1.host
    have hup : up i := (hN₁.running i).mp ((hhost.running_iff_of_isCall rfl).mpr (by simp))
    have hadm := hadmitted pre netif i _ post N₁ N₂ htr (emulation_of_dispatch hpre) hs.1
      (emulation_of_dispatch hpost) hup u rfl
    rw [hhost.admits rfl] at hadm
    cases hadm
  · intro hnone pre netif i e post N₁ N₂ htr hpre hs hpost hup u hu
    rw [hs.host.admits hu]
    cases e with
    | accepted d v => exact hu
    | scheduleRaised v x =>
      refine absurd ⟨netif, i, v, x, ?_⟩ hnone
      rw [htr]
      exact List.mem_append_right _ List.mem_cons_self
    | _ => cases hu

/-- **No host starves another exactly if the hosts that run are registered
first and their queues admit the frame.** At the end of the dispatch of a
frame that all filters accept, every host that runs has had the frame
scheduled exactly once for each of its interfaces but the sender's, if and
only if no interface of a host that does not run comes before one of a host
that does, and every push is admitted. -/
theorem running_served_iff (hf : t.frame? = some f) (hN : N.Dispatches t rest up)
    (hbegin : N.dispatch = .filtering 0) (h : Run (DispatchSteps top timeoutMax t rest up) N tr N')
    {o : Outcome V} (hend : N'.dispatch.ends o = true) (hallowed : Allowed t tr)
    (hnorm : ∀ x, .dispatchRaised t x ∉ tr) :
    ServesRunning top t f up tr ↔
      top.RunningFirst f up ∧ PushesAdmitted top timeoutMax t up N tr N' := by
  rw [pushesAdmitted_iff hN h]
  refine (served_of_run hf hN hbegin h).serves_iff hend ?_ hallowed hnorm
  rintro ⟨⟨netif, i⟩, u⟩ hu
  obtain ⟨d, hdel⟩ := mem_deliveriesOf.mp hu
  obtain ⟨f', hf', -, -, hcalls⟩ := delivery_calls (emulation_of_dispatch h) hdel
  obtain rfl := Option.some.inj (hf'.symm.trans hf)
  exact (hcalls.pushed u rfl).2

end Runs

/-! ## A stopped host after the others, and one before -/

/-- One interface for each of three hosts. -/
def threeHosts : Topology 3 := ⟨[(7, 0), (8, 1), (9, 2)], by decide⟩

/-- A frame of the first host. -/
def firstFrame : Task ℤ Obj := ⟨0, 0, .broadcast, (⟨7, [5]⟩ : Frame).args, [], 0⟩

/-- An executor that runs. -/
def upAndRunning : Sys ℤ Obj ℕ × List (Event ℤ Obj ℕ) :=
  outcome (Sys.step 100) (Sys.new 0) [(0, .start), (0, .enterRun)] (by decide)

/-- The bus when it has taken the frame. -/
def frameTaken : Sys ℤ Obj ℕ × List (Event ℤ Obj ℕ) :=
  outcome (Sys.step 100) upAndRunning.1
    [(0, .schedule 0 0 .broadcast (⟨7, [5]⟩ : Frame).args []), (0, .turn 0), (0, .take)] (by decide)

/-- The bus begins to dispatch the frame; the host `down` was not started. -/
def withoutHost (down : Fin 3) : Net ℤ ℕ 3 :=
  { (Net.new 0 : Net ℤ ℕ 3) with
    control := .started
    sys := fun c =>
      match c with
      | .bus => frameTaken.1
      | .host i => if i = down then Sys.new 0 else upAndRunning.1 }

instance {up : Fin n → Prop} [DecidablePred up] (t : Task ℤ Obj) (rest : List (Task ℤ Obj))
    (N : Net ℤ ℕ n) : Decidable (N.Dispatches t rest up) :=
  decidable_of_iff ((N.sys .bus).worker = .executing t rest ∧
      ∀ i, (N.sys (.host i)).executor.status = .running ↔ up i)
    ⟨fun h => ⟨h.1, h.2⟩, fun h => ⟨h.1, h.2⟩⟩

/-- The moves of `_broadcast`, while the hosts but `down` run. -/
abbrev dispatchStep (down : Fin 3) :
    Net ℤ ℕ 3 → ℤ × Move ℤ ℕ 3 → Option (Net ℤ ℕ 3 × Option (NetEvent ℤ ℕ 3)) :=
  guarded (Net.step threeHosts 100) fun _ N => N.Dispatches firstFrame [] (· ≠ down)

/-- The dispatch until the last host rejects the frame. -/
def lastRejects : Net ℤ ℕ 3 × List (NetEvent ℤ ℕ 3) :=
  outcome (dispatchStep 2) (withoutHost 2) (List.replicate 5 (0, .dispatch (.ok true))) (by decide)

theorem lastRejects_events : lastRejects.2 =
    [.delivered firstFrame 8 1 (.accepted 0 ⟨0, 0, .inputData 8, [.bytes [5]], [], 0⟩),
      .delivered firstFrame 9 2 .rejected] := by
  decide

theorem running_served_lastRejects :
    ServesRunning threeHosts firstFrame ⟨7, [5]⟩ (· ≠ 2) lastRejects.2 := by
  have hrun : Run (DispatchSteps threeHosts 100 firstFrame [] (· ≠ 2)) (withoutHost 2)
      lastRejects.2 lastRejects.1 := run_guarded_outcome _ _ _ _ _
  have hbegin : (withoutHost 2).Dispatches firstFrame [] (· ≠ 2) := by decide
  have hcalm : ¬ PushRaised firstFrame lastRejects.2 := by simp [PushRaised, lastRejects_events]
  have hfirst : threeHosts.RunningFirst ⟨7, [5]⟩ (· ≠ 2) := by
    unfold Topology.RunningFirst
    decide
  have hend : lastRejects.1.dispatch.ends (.exception .stopped : Outcome ℕ) = true := by decide
  exact (running_served_iff rfl hbegin rfl hrun hend (by simp [Allowed, lastRejects_events])
    (by simp [lastRejects_events])).mpr ⟨hfirst, (pushesAdmitted_iff hbegin hrun).mpr hcalm⟩

/-- The dispatch until the second host rejects the frame. -/
def secondRejects : Net ℤ ℕ 3 × List (NetEvent ℤ ℕ 3) :=
  outcome (dispatchStep 1) (withoutHost 1) (List.replicate 4 (0, .dispatch (.ok true))) (by decide)

/-- **A host that does not run starves the next one**: the call of its
`on_incoming_data` ends the dispatch, and the last host, which runs, gets
nothing. -/
theorem stopped_host_starves :
    ∃ tr N, Run (DispatchSteps threeHosts 100 firstFrame [] (· ≠ 1)) (withoutHost 1) tr N ∧
      N.dispatch = .raised .stopped ∧ Allowed firstFrame tr ∧
      (∀ x, .dispatchRaised firstFrame x ∉ tr) ∧ (9, 2) ∈ threeHosts.interfaces ∧
      ((withoutHost 1).sys (.host 2)).executor.status = .running ∧
      tr = [.delivered firstFrame 8 1 .rejected] ∧
      ¬ ServesRunning threeHosts firstFrame ⟨7, [5]⟩ (· ≠ 1) tr := by
  have hevents : secondRejects.2 = [.delivered firstFrame 8 1 .rejected] := by decide
  refine ⟨secondRejects.2, secondRejects.1, run_guarded_outcome _ _ _ _ _, by decide,
    by simp [Allowed, hevents], by simp [hevents], by decide, by decide, hevents, ?_⟩
  intro hserved
  obtain ⟨u, -, -, hfilter⟩ := hserved 9 2 (by decide) (by decide) (by decide)
  rw [hevents] at hfilter
  simp [NetEvent.delivery?, Event.accepted?] at hfilter

end PyLwip
