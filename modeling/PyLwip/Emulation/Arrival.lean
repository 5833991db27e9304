import PyLwip.Scheduler.Result
import PyLwip.Emulation.Termination
import PyLwip.Emulation.FrameLoss

/-!
# Every frame arrives

A frame that the bus accepted waits in two queues one after the other: in the
bus's for `_broadcast`, and in each host's for `input_data`. In a fair run no
queue keeps it for ever, and every `_broadcast` comes to its end; so the frame
is received by every interface but the sender's, unless something in its way
says that it is not to be.
-/

namespace PyLwip

open EventSystem

variable {T V : Type} {n : ℕ}

/-! ## The way of a frame -/

/-- The executor of `c` is not stopped, and its thread has not ended. -/
def Net.Alive (N : Net T V n) (c : Component n) : Prop :=
  (N.sys c).executor.status = .running ∧ (N.sys c).worker.ended = false

instance (N : Net T V n) (c : Component n) : Decidable (N.Alive c) :=
  inferInstanceAs (Decidable (_ ∧ _))

/-- **What ends the way of the frame of `t`** to the interface `netif` of the host
`k`: a filter refuses it, a filter or an observer raises, some host does not
accept a delivery of it, the bus is stopped or its thread ends, or that is so
of the host `k` once it has accepted its delivery. -/
inductive Hindered (N : ℕ → Net T V n) (ev : ℕ → Option (NetEvent T V n)) (t : Task T Obj)
    (netif : ℕ) (k : Fin n) (j : ℕ) : Prop
  | refused {m : ℕ} (h : ev j = some (.filtered t m false))
  | raised {x : PyError} (h : ev j = some (.dispatchRaised t x))
  | notAccepted {netif' : ℕ} {k' : Fin n} {e : Event T Obj V}
      (h : ev j = some (.delivered t netif' k' e)) (he : e.accepted? = none)
  | bus (h : ¬ (N j).Alive .bus)
  | host {m : ℕ} {d : T} {u : Task T Obj} (hm : m ≤ j)
      (hdel : ev m = some (.delivered t netif k (.accepted d u))) (h : ¬ (N j).Alive (.host k))

/-- At the position `j` the host `k` calls `input_data` of its interface `netif`
for the frame `f` of `t`. -/
def Arrives (ev : ℕ → Option (NetEvent T V n)) (t : Task T Obj) (f : Frame) (netif : ℕ)
    (k : Fin n) (j : ℕ) : Prop :=
  ∃ (u : Task T Obj) (d r : T), u.action = .inputData netif ∧ u.args = [.bytes f.data] ∧
    (∃ m < j, ev m = some (.delivered t netif k (.accepted d u))) ∧
    ev j = some (.component (.host k) (.invoked u r))

namespace NetTimeline

variable [AddCommGroup T] [LinearOrder T] {top : Topology n} {timeoutMax : T} {N : ℕ → Net T V n}
  {ev : ℕ → Option (NetEvent T V n)} {clock : ℕ → T} {label : ℕ → Option (T × Move T V n)}
  {i : ℕ} {t : Task T Obj} {d : T}

/-- What an executor emits and is not the end of a call is not a delivery. -/
theorem component_of_on (h : NetTimeline top timeoutMax N ev clock label) {c : Component n}
    {e : Event T Obj V} (hon : (ev i).bind (NetEvent.on c) = some e) (hcall : e.isCall = false) :
    ev i = some (.component c e) := by
  cases hev : ev i with
  | none =>
    rw [hev] at hon
    cases hon
  | some e' =>
    rw [hev] at hon
    cases e' with
    | component c' e' =>
      obtain ⟨rfl, rfl⟩ := NetEvent.on_component_eq.mp hon
      rfl
    | delivered t netif k e' =>
      obtain ⟨-, rfl⟩ := NetEvent.on_delivered_eq.mp hon
      obtain ⟨now, hreached⟩ := h.reached (i + 1)
      obtain ⟨f, -, -, -, hcalls⟩ := delivery_calls hreached
        (mem_traceTo.mpr ⟨i, by omega, hev⟩)
      rw [hcalls.isCall] at hcall
      cases hcall
    | _ => cases hon

/-- A frame is dispatched after it was accepted. -/
theorem le_of_dispatches (h : NetTimeline top timeoutMax N ev clock label)
    (hacc : ev i = some (.component .bus (.accepted d t)))
    (hend : ((N i).sys .bus).worker.ended = false) {j : ℕ} {e : NetEvent T V n}
    (he : ev j = some e) (ht : e.dispatches? = some t) : i ≤ j := by
  by_contra hlt
  obtain ⟨now, hreached⟩ := h.reached i
  have hrun := Emulation.component hreached .bus
  have hpops := popsReturn_of_alive hrun hend
  have hinv := invoked_of_dispatched hreached hpops (mem_traceTo.mpr ⟨j, by omega, he⟩) ht
  have hold := (conserved_of_run hrun hpops).future_lt_of_invoked hinv
  obtain ⟨r, m, -, -, hstep⟩ := (h.next i).resolve_right fun hpause => by simp [hacc] at hpause
  rw [hacc] at hstep
  have hs := (netTransition_of_step hstep).of_on (NetEvent.on_component_eq.mpr ⟨rfl, rfl⟩)
  have hnew := (hs.transition.nextFuture.2 t rfl).1
  omega

variable [IsOrderedAddMonoid T]

/-- **`_broadcast` is called for an accepted frame, and ends.** -/
theorem completed_of_accepted (h : NetTimeline top timeoutMax N ev clock label)
    (hacc : ev i = some (.component .bus (.accepted d t)))
    (hup : ∀ j, i ≤ j → (N j).Alive .bus) :
    Eventually i fun j => t ∈ completedTasks (eventsOf .bus (traceTo ev j)) := by
  have hbus := h.component .bus
  have hkept : ∀ j, (ev j).bind (NetEvent.on .bus) ≠ some (.cancelled t.future true) := by
    intro j hj
    obtain ⟨now, hreached⟩ := h.reached (j + 1)
    refine not_cancelled_on_bus hreached t.future true ?_
    rw [eventsOf, filterMap_traceTo]
    exact mem_traceTo.mpr ⟨j, by omega, hj⟩
  have hacc' : (ev i).bind (NetEvent.on .bus) = some (.accepted d t) := by
    rw [hacc]
    exact NetEvent.on_component_eq.mpr ⟨rfl, rfl⟩
  obtain ⟨j, hij, hinv⟩ := hbus.invoked_of_accepted hacc' hkept
  obtain ⟨r, hinv⟩ := hinv.resolve_right fun hhalted =>
    hhalted.elim (· (hup j hij).1) (by simp [(hup j hij).2])
  have hexec : ∃ rest, ((N (j + 1)).sys .bus).worker = .executing t rest := by
    rcases hbus.next j with ⟨r', a, -, hstep, -⟩ | ⟨-, hnone, -⟩
    · rw [hinv] at hstep
      exact (transition_of_step hstep).invoking
    · rw [hinv] at hnone
      cases hnone
  obtain ⟨rest, hexec⟩ := hexec
  obtain ⟨m, hjm, hcomp⟩ := hbus.completed_of_executing hexec
  have him : i ≤ m := by omega
  obtain ⟨o, hcomp⟩ := hcomp.resolve_right (by simp [(hup m him).2])
  refine ⟨m + 1, by omega, mem_completedTasks.mpr ⟨o, ?_⟩⟩
  rw [eventsOf, filterMap_traceTo]
  exact mem_traceTo.mpr ⟨m, by omega, hcomp⟩

/-- **A delivery is received** if its host goes on running. -/
theorem arrives_of_delivered (h : NetTimeline top timeoutMax N ev clock label) {netif : ℕ}
    {k : Fin n} {u : Task T Obj} {f : Frame} {j : ℕ} (hf : t.frame? = some f)
    (hdel : ev j = some (.delivered t netif k (.accepted d u)))
    (hup : ∀ m, j ≤ m → (N m).Alive (.host k)) :
    Eventually j (Arrives ev t f netif k) := by
  have hkept : ∀ m, (ev m).bind (NetEvent.on (.host k)) ≠ some (.cancelled u.future true) := by
    intro m hm
    obtain ⟨now, hreached⟩ := h.reached (max j m + 1)
    refine delivery_not_cancelled hreached (mem_traceTo.mpr ⟨j, by omega, hdel⟩) (b := true) ?_
    rw [eventsOf, filterMap_traceTo]
    exact mem_traceTo.mpr ⟨m, by omega, hm⟩
  have hacc : (ev j).bind (NetEvent.on (.host k)) = some (.accepted d u) := by
    rw [hdel]
    exact NetEvent.on_delivered_eq.mpr ⟨rfl, rfl⟩
  obtain ⟨m, hjm, hinv⟩ := (h.component (.host k)).invoked_of_accepted hacc hkept
  obtain ⟨r, hinv⟩ := hinv.resolve_right fun hhalted =>
    hhalted.elim (· (hup m hjm).1) (by simp [(hup m hjm).2])
  obtain ⟨now, hreached⟩ := h.reached (j + 1)
  obtain ⟨f', hf', -, -, hcalls⟩ := delivery_calls hreached (mem_traceTo.mpr ⟨j, by omega, hdel⟩)
  obtain rfl := Option.some.inj (hf.symm.trans hf')
  obtain ⟨-, haction, hargs⟩ := hcalls.pushed u rfl
  have hev := h.component_of_on hinv rfl
  refine ⟨m, hjm, u, d, r, haction, hargs, ⟨j, lt_of_le_of_ne hjm ?_, hdel⟩, hev⟩
  rintro rfl
  rw [hdel] at hev
  cases hev

omit [IsOrderedAddMonoid T] in
/-- **A frame that nothing hinders is delivered to every interface** but the
sender's. -/
theorem delivered_of_completed (h : NetTimeline top timeoutMax N ev clock label)
    (hacc : ev i = some (.component .bus (.accepted d t))) {netif : ℕ} {k : Fin n}
    (hclear : ∀ j, i ≤ j → ¬ Hindered N ev t netif k j) {f : Frame} (hf : t.frame? = some f)
    {j : ℕ} (hcomp : t ∈ completedTasks (eventsOf .bus (traceTo ev j))) (hij : i ≤ j)
    (hmem : (netif, k) ∈ top.interfaces) (hne : netif ≠ f.sender) :
    ∃ m, i ≤ m ∧ ∃ d' u, ev m = some (.delivered t netif k (.accepted d' u)) := by
  have hbus : ∀ m, i ≤ m → ((N m).sys .bus).worker.ended = false := fun m him =>
    (not_not.mp fun hnot => hclear m him (.bus hnot)).2
  -- what the trace says of the frame it says of positions from `i` on
  have hafter : ∀ e ∈ traceTo ev j, e.dispatches? = some t → ∃ m, i ≤ m ∧ ev m = some e := by
    intro e he ht
    obtain ⟨m, -, hm⟩ := mem_traceTo.mp he
    exact ⟨m, h.le_of_dispatches hacc (hbus i le_rfl) hm ht, hm⟩
  obtain ⟨now, hreached⟩ := h.reached j
  have hpops := popsReturn_of_alive (Emulation.component hreached .bus) (hbus j hij)
  rcases ended_of_completed hreached hpops hcomp hf with ⟨x, hx⟩ | ⟨-, hrefused | hdelivered⟩
  · obtain ⟨m, him, hm⟩ := hafter _ hx rfl
    exact absurd (.raised hm) (hclear m him)
  · obtain ⟨netif', k', e, he, hnone⟩ := hrefused
    obtain ⟨m, him, hm⟩ := hafter _ he rfl
    exact absurd (.notAccepted hm hnone) (hclear m him)
  · have hallowed : Allowed t (traceTo ev j) := by
      intro b hb
      obtain ⟨m, him, hm⟩ := hafter _ hb rfl
      exact hclear m him (.refused hm)
    have hreceiver : (netif, k) ∈ top.receivers f top.interfaces.length := by
      simpa [Topology.receivers, hmem] using hne
    rw [← hdelivered hallowed] at hreceiver
    obtain ⟨⟨_, u⟩, hu, rfl⟩ := List.mem_map.mp hreceiver
    obtain ⟨d', hdel⟩ := mem_deliveriesOf.mp hu
    obtain ⟨m, him, hm⟩ := hafter _ hdel rfl
    exact ⟨m, him, d', u, hm⟩

/-- **Every frame arrives.** In every infinite run in which every thread that can
go on for ever moves, the clock passes every reading and the registered
filters and observers are bounded: once the bus has accepted a frame, every
interface on the bus but the sender's has `input_data` called for it in the
end, by its own host — unless a filter refuses the frame, a filter or an
observer raises for it, a host does not accept its delivery, or the bus or
the host that has accepted it is stopped or its thread ends. -/
theorem frame_arrives (h : NetTimeline top timeoutMax N ev clock label)
    (hacc : ev i = some (.component .bus (.accepted d t))) :
    ∃ f, t.frame? = some f ∧ ∀ netif k, (netif, k) ∈ top.interfaces → netif ≠ f.sender →
      Eventually i fun j => Hindered N ev t netif k j ∨ Arrives ev t f netif k j := by
  obtain ⟨now, hreached⟩ := h.reached (i + 1)
  obtain ⟨f, hcalls⟩ := calls_on_bus hreached (e := .accepted d t)
    (mem_eventsOf_bus.mpr (mem_traceTo.mpr ⟨i, by omega, hacc⟩)) rfl
  have hf : t.frame? = some f := Task.frame?_of_args (hcalls.pushed t rfl).2.2
  refine ⟨f, hf, fun netif k hmem hne => ?_⟩
  by_cases hhindered : Eventually i (Hindered N ev t netif k)
  · exact hhindered.mono fun _ _ => .inl
  have hclear : ∀ j, i ≤ j → ¬ Hindered N ev t netif k j := fun j hij hj => hhindered ⟨j, hij, hj⟩
  -- the queue of the bus, its `_broadcast`, and the queue of the host
  obtain ⟨j, hij, hcomp⟩ := h.completed_of_accepted hacc fun j hij =>
    not_not.mp fun hnot => hclear j hij (.bus hnot)
  obtain ⟨m, him, d', u, hdel⟩ := h.delivered_of_completed hacc hclear hf hcomp hij hmem hne
  have harrives := h.arrives_of_delivered hf hdel fun j hmj =>
    not_not.mp fun hnot => hclear j (him.trans hmj) (.host hmj hdel hnot)
  exact (harrives.mono fun _ _ => .inr).of_le him

end NetTimeline

/-! ## A frame that arrives -/

/-- The network is started, and a frame is broadcast. -/
def frameReceived : List (ℤ × Move ℤ ℕ 1) :=
  [(0, .control), (1, .control), (2, .control), (3, .control), (4, .work .bus .enterRun),
    (5, .work onlyHost .enterRun), (6, .broadcast ⟨9, [5]⟩), (7, .work .bus (.turn 7)),
    (8, .work .bus .take), (9, .dispatch (.ok true)), (10, .dispatch (.ok true)),
    (11, .dispatch (.ok true)), (12, .dispatch (.ok true)), (13, .work .bus (.finish (.result 0))),
    (14, .work .bus .settle), (15, .work .bus (.turn 15)), (16, .work onlyHost (.turn 16)),
    (17, .work onlyHost .take), (18, .work onlyHost (.finish (.result 0))),
    (19, .work onlyHost .settle), (20, .work onlyHost (.turn 20))]

theorem rest_frameReceived :
    ((netAt frameReceived frameReceived.length).sys .bus).worker = .waiting none false ∧
      ((netAt frameReceived frameReceived.length).sys onlyHost).worker = .waiting none false ∧
      (netAt frameReceived frameReceived.length).control = .started := by
  decide +kernel

theorem netTimeline_frameReceived :
    NetTimeline oneHost 100 (netAt frameReceived) (eventAt frameReceived) (fun i => (i : ℤ))
      (performed (Net.step oneHost 100) (Net.new 0) frameReceived) := by
  obtain ⟨hbus, hhost, hcaller⟩ := rest_frameReceived
  refine netTimeline_of_labels (by decide) (rest_of_both (fun _ => ?_) (fun _ => ?_)) ?_
  · simp [hbus, Worker.Runnable]
  · simp [hhost, Worker.Runnable]
  · rw [Net.CallerRunnable, hcaller]
    exact id

/-- Both executors run once they have begun. -/
theorem alive_frameReceived {j : ℕ} (hj : 6 ≤ j) (c : Component 1) :
    (netAt frameReceived j).Alive c := by
  have hall : ∀ j < frameReceived.length + 1, 6 ≤ j → ∀ c ∈ components 1,
      (netAt frameReceived j).Alive c := by
    decide +kernel
  have hlast := hall _ (Nat.lt_succ_self _) (by decide) c (mem_components c)
  rcases Nat.le_total j frameReceived.length with hle | hle
  · exact hall j (by omega) hj c (mem_components c)
  · rwa [netAt, states_of_length_le hle]

/-- A frame is not refused. -/
def NetEvent.accepts : NetEvent T V n → Bool
  | .filtered _ _ accepted => accepted
  | .dispatchRaised _ _ => false
  | .delivered _ _ _ e => e.accepted?.isSome
  | _ => true

theorem accepts_frameReceived {j : ℕ} {e : NetEvent ℤ ℕ 1} (he : eventAt frameReceived j = some e) :
    e.accepts = true := by
  have hall : ∀ j < frameReceived.length, ∀ e ∈ eventAt frameReceived j, e.accepts = true := by
    decide +kernel
  rcases Nat.lt_or_ge j frameReceived.length with hlt | hge
  · exact hall j hlt e he
  · rw [eventAt, events_of_length_le hge] at he
    cases he

theorem frame_arrives_frameReceived :
    Eventually 6 (Arrives (eventAt frameReceived)
      ⟨6, 0, .broadcast, (⟨9, [5]⟩ : Frame).args, [], 0⟩ ⟨9, [5]⟩ 7 0) := by
  obtain ⟨f, hf, harrives⟩ := netTimeline_frameReceived.frame_arrives (i := 6) (d := 0)
    (t := ⟨6, 0, .broadcast, (⟨9, [5]⟩ : Frame).args, [], 0⟩) (by decide +kernel)
  obtain rfl := Option.some.inj hf
  obtain ⟨j, hj, harrives⟩ := harrives 7 0 (by decide) (by decide)
  refine ⟨j, hj, harrives.resolve_left ?_⟩
  rintro (h | h | ⟨h, he⟩ | h | ⟨-, -, h⟩)
  · simpa [NetEvent.accepts] using accepts_frameReceived h
  · simpa [NetEvent.accepts] using accepts_frameReceived h
  · simpa [NetEvent.accepts, he] using accepts_frameReceived h
  · exact h (alive_frameReceived hj .bus)
  · exact h (alive_frameReceived hj _)

end PyLwip
