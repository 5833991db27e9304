import PyLwip.Emulation.Dispatch
import PyLwip.Emulation.Startup

/-!
# The order of two frames

A frame passes through two queues, the bus's and the host's, and either one
orders by clock readings. Where the readings are equal the queue compares
the tasks themselves, down to the bytes of the frames, and a later frame
with smaller bytes overtakes an earlier one. Where ties go to the earlier
call, in every state and every executor, both queues serve first come first
and the frames keep their order from the calls of `broadcast` to the calls
of `input_data`.
-/

namespace PyLwip

open EventSystem

variable {T V : Type} {n : ℕ}

section Order

variable [AddCommGroup T] [LinearOrder T] {top : Topology n} {timeoutMax now : T}
  {N : Net T V n} {tr p q a b : List (NetEvent T V n)} {t u : Task T Obj} {d : T}

/-- In every executor of the network ties go to the earlier call. -/
def Net.TieOrdered (N : Net T V n) : Prop := ∀ c ∈ components n, (N.sys c).TieOrdered

instance (N : Net T V n) : Decidable N.TieOrdered :=
  inferInstanceAs (Decidable (∀ c ∈ components n, (N.sys c).TieOrdered))

/-- The steps into states in which ties go to the earlier call. -/
abbrev TieNetSteps (top : Topology n) (timeoutMax : T) (N : Net T V n)
    (ev : Option (NetEvent T V n)) (N' : Net T V n) : Prop :=
  NetSteps top timeoutMax N ev N' ∧ N'.TieOrdered

theorem emulation_of_ties {N₀ : Net T V n} (h : Run (TieNetSteps top timeoutMax) N₀ tr N) :
    Emulation top timeoutMax N₀ tr N :=
  h.mono fun _ _ _ h => h.1

theorem tieSteps_component {N₀ : Net T V n} (h : Run (TieNetSteps top timeoutMax) N₀ tr N)
    (c : Component n) : Run (TieSteps timeoutMax) (N₀.sys c) (eventsOf c tr) (N.sys c) := by
  refine Run.project (f := fun N => N.sys c) (fun N ev N' hs => ?_) h
  exact (hs.1.transition.component c).imp_left fun hstep => ⟨hstep, hs.2 c (mem_components c)⟩

theorem popsReturn_of_ties (h : Run (TieNetSteps top timeoutMax) (Net.new now) tr N)
    (c : Component n) : PopsReturn (eventsOf c tr) :=
  (arriving_of_run (tieSteps_component h c)).pops

/-- Where an action starts, all that started before have ended. -/
theorem Conserved.completed_of_invoking {O : Type} [RichCompare O] {tr : List (Event T O V)}
    {s s' : Sys T O V} {t u : Task T O} {r : T} (hc : Conserved tr s)
    (hs : Transition timeoutMax s (some (.invoked u r)) s') (ht : t ∈ invokedTasks tr) :
    t ∈ completedTasks tr := by
  cases hs with
  | invoke hr hw =>
    have hmem := hc.invoked.mem_iff.mp ht
    simpa [hw, Worker.current] using hmem

/-- **The bus dispatches in order**: where it invokes `u`, the dispatch of `t`
is over. -/
theorem completed_before_invoked (h : Run (TieNetSteps top timeoutMax) (Net.new now) tr N)
    (hu : tr = p ++ .component .bus (.accepted d u) :: q)
    (ht : t ∈ acceptedTasks (eventsOf .bus p)) {r : T}
    (hinv : tr = a ++ .component .bus (.invoked u r) :: b) :
    t ∈ completedTasks (eventsOf .bus a) := by
  have hemu := emulation_of_ties h
  obtain ⟨d', ht⟩ := mem_acceptedTasks.mp ht
  -- both calls were made by `broadcast`
  have hmem : .accepted d' t ∈ eventsOf .bus tr := by
    rw [hu, eventsOf_append]
    exact List.mem_append_left _ ht
  obtain ⟨f, hcalls⟩ := calls_on_bus hemu hmem rfl
  have hmem' : .accepted d u ∈ eventsOf .bus tr := mem_eventsOf_bus.mpr (by simp [hu])
  obtain ⟨f', hcalls'⟩ := calls_on_bus hemu hmem' rfl
  obtain rfl : d' = 0 := hcalls.delay d' rfl
  obtain rfl : d = 0 := hcalls'.delay d rfl
  have hfirst := immediate_first_served (tieSteps_component h .bus)
    (by rw [hu, eventsOf_split (NetEvent.on_component _ _)]) ht
    ((hcalls.pushed t rfl).1.trans (hcalls'.pushed u rfl).1.symm)
    (not_cancelled_on_bus hemu _ _)
    (by rw [hinv, eventsOf_split (NetEvent.on_component _ _)])
  subst hinv
  obtain ⟨N₁, N₂, hpre, hs, -⟩ := hemu.split
  have hc := Emulation.conserved hpre (popsReturn_of_ties h .bus)
  have hstep := NetSteps.of_on hs (NetEvent.on_component .bus _)
  exact hc.completed_of_invoking hstep.transition hfirst

/-- And so it is wherever the frame of `u` is filtered, observed or
delivered. -/
theorem completed_before_dispatched (h : Run (TieNetSteps top timeoutMax) (Net.new now) tr N)
    (hu : tr = p ++ .component .bus (.accepted d u) :: q)
    (ht : t ∈ acceptedTasks (eventsOf .bus p)) {e : NetEvent T V n}
    (hdis : e.dispatches? = some u) (he : tr = a ++ e :: b) :
    t ∈ completedTasks (eventsOf .bus a) := by
  have hpops := popsReturn_of_ties h .bus
  have hemu := emulation_of_ties h
  rw [he] at hemu
  rw [he] at hpops
  obtain ⟨N₁, N₂, hpre, hs, -⟩ := hemu.split
  have hc := Emulation.conserved hpre hpops
  obtain ⟨rest, hw⟩ := hs.transition.executing hdis
  have hinv : u ∈ invokedTasks (eventsOf .bus a) :=
    hc.invoked.mem_iff.mpr (List.mem_append_left _ (by simp [hw, Worker.current]))
  obtain ⟨r, hr⟩ := mem_invokedTasks.mp hinv
  obtain ⟨a', a'', rfl⟩ := List.append_of_mem (mem_eventsOf_bus.mp hr)
  have hbefore := completed_before_invoked h hu ht (a := a') (b := a'' ++ e :: b) (r := r)
    (by simp [he])
  exact mem_seen_left hbefore

/-! ## From the calls of `broadcast` to the calls of `input_data` -/

/-- **The frame of `t` is ahead of that of `u`**, wherever the frame of `u`
comes. -/
structure InOrder (t u : Task T Obj) (tr : List (NetEvent T V n)) : Prop where
  /-- The dispatch of `t` is over when that of `u` begins. -/
  dispatched : ∀ a r b, tr = a ++ .component .bus (.invoked u r) :: b →
    t ∈ completedTasks (eventsOf .bus a)
  /-- No observer sees the frame of `t` after one has seen that of `u`; and
  unless a filter or an observer raised at the frame of `t`, those registered
  before its dispatch have seen it. -/
  observed : ∀ a j w b, tr = a ++ .observed u j w :: b → (∀ j' w', .observed t j' w' ∉ b) ∧
    ((∀ x, .dispatchRaised t x ∉ tr) → ∀ j' < registeredBefore t tr, j' ∈ observersOf t a)
  /-- At a host that both are delivered to, the `input_data` action for the
  frame of `t` starts before the one for that of `u`. -/
  received : ∀ i netif netif' d d' u₁ u₂, .delivered t netif i (.accepted d u₁) ∈ tr →
    .delivered u netif' i (.accepted d' u₂) ∈ tr →
    ∀ a r b, tr = a ++ .component (.host i) (.invoked u₂ r) :: b →
      u₁ ∈ invokedTasks (eventsOf (.host i) a)

/-- What observers have seen of a frame whose dispatch is over. -/
theorem observed_of_completed (h : Run (TieNetSteps top timeoutMax) (Net.new now) tr N)
    (ht : t ∈ acceptedTasks (eventsOf .bus tr)) (htr : tr = a ++ b)
    (hover : t ∈ completedTasks (eventsOf .bus a)) (hnorm : ∀ x, .dispatchRaised t x ∉ tr) {j : ℕ}
    (hj : j < registeredBefore t tr) : j ∈ observersOf t a := by
  have hemu := emulation_of_ties h
  have hpops := popsReturn_of_ties h .bus
  obtain ⟨d', ht⟩ := mem_acceptedTasks.mp ht
  obtain ⟨f, hcalls⟩ := calls_on_bus hemu ht rfl
  have hf : t.frame? = some f := Task.frame?_of_args (hcalls.pushed t rfl).2.2
  subst htr
  obtain ⟨N₁, hpre, -⟩ := hemu.split_append
  have hc := Emulation.conserved hpre hpops
  rw [eventsOf_append] at hpops
  rcases ended_of_completed hpre hpops.left hover hf with ⟨x, hx⟩ | ⟨⟨k, hk, hle⟩, -⟩
  · exact absurd (List.mem_append_left _ hx) (hnorm x)
  · obtain ⟨o, ho⟩ := mem_completedTasks.mp hover
    obtain ⟨r, hr⟩ := mem_invokedTasks.mp (hc.invoked_of_completed ho)
    have hstart : ∃ e ∈ a, e.starts t = true :=
      ⟨_, mem_eventsOf_bus.mp hr, by simp [NetEvent.starts]⟩
    rw [registeredBefore_append hstart] at hj
    rw [hk, List.mem_range]
    omega

/-- **Frames keep their order** in every run in whose states ties go to the
earlier call: of two accepted calls of `broadcast` the earlier one's frame is
dispatched, observed and received first. -/
theorem frames_keep_order (h : Run (TieNetSteps top timeoutMax) (Net.new now) tr N)
    (hu : tr = p ++ .component .bus (.accepted d u) :: q)
    (ht : t ∈ acceptedTasks (eventsOf .bus p)) : InOrder t u tr := by
  have hemu := emulation_of_ties h
  have hpops := popsReturn_of_ties h .bus
  have hacc : t ∈ acceptedTasks (eventsOf .bus tr) := hu ▸ mem_seen_left ht
  refine ⟨fun a r b hinv => completed_before_invoked h hu ht hinv, ?_, ?_⟩
  · intro a j w b hobs
    have hover := completed_before_dispatched h hu ht rfl hobs
    refine ⟨fun j' w' hmem => ?_, fun hnorm j' hj' => ?_⟩
    · rw [hobs] at hemu hpops
      exact not_dispatched_after hemu hpops hover (List.mem_cons_of_mem _ hmem) rfl
    · exact observed_of_completed h hacc hobs hover hnorm hj'
  · intro i netif netif' d₁ d₂ u₁ u₂ h₁ h₂ a r b hinv
    obtain ⟨f₁, -, -, -, hcalls₁⟩ := delivery_calls hemu h₁
    obtain ⟨f₂, -, -, -, hcalls₂⟩ := delivery_calls hemu h₂
    obtain rfl : d₁ = 0 := hcalls₁.delay d₁ rfl
    obtain rfl : d₂ = 0 := hcalls₂.delay d₂ rfl
    obtain ⟨p', q', hsplit⟩ := List.append_of_mem h₂
    -- the frame of `t` was delivered before that of `u`
    have hover := completed_before_dispatched h hu ht rfl hsplit
    have hearlier : .accepted 0 u₁ ∈ eventsOf (.host i) p' := by
      rw [hsplit] at h₁ hemu hpops
      rcases List.mem_append.mp h₁ with h₁ | h₁
      · exact List.mem_filterMap.mpr ⟨_, h₁, NetEvent.on_delivered _ _ _ _⟩
      · exact absurd rfl (not_dispatched_after hemu hpops hover h₁)
    exact immediate_first_served (tieSteps_component h (.host i))
      (by rw [hsplit, eventsOf_split (NetEvent.on_delivered _ _ _ _)]) hearlier
      ((hcalls₁.pushed u₁ rfl).1.trans (hcalls₂.pushed u₂ rfl).1.symm)
      (delivery_not_cancelled hemu h₁)
      (by rw [hinv, eventsOf_split (NetEvent.on_component _ _)])

end Order

/-! ## Frames in order, and out of order -/

/-- A network of one host is started, both workers have begun, and an observer
is registered. -/
def watched : List (ℤ × Move ℤ ℕ 1) :=
  [(0, .control), (0, .control), (0, .control), (0, .control), (0, .work .bus .enterRun),
    (0, .work onlyHost .enterRun), (0, .addObserver)]

/-- The bus dispatches the next task of its batch, to the one observer and
the one host. -/
def dispatched (r : ℤ) : List (ℤ × Move ℤ ℕ 1) :=
  [(r, .work .bus .take), (r, .dispatch (.ok true)), (r, .dispatch (.ok true)),
    (r, .dispatch (.ok true)), (r, .dispatch (.ok true)), (r, .dispatch (.ok true)),
    (r, .work .bus (.finish (.result 0))), (r, .work .bus .settle)]

/-- The host takes both. -/
def received : List (ℤ × Move ℤ ℕ 1) :=
  [(4, .work onlyHost (.turn 4)), (4, .work onlyHost .take),
    (4, .work onlyHost (.finish (.result 0))), (4, .work onlyHost .settle),
    (4, .work onlyHost .take)]

/-- Two frames at one clock reading, the first with the smaller bytes. -/
def ordered : Net ℤ ℕ 1 × List (NetEvent ℤ ℕ 1) :=
  outcome (guarded (Net.step oneHost 100) fun _ N => N.TieOrdered) (Net.new 0)
    (watched ++ [(1, .broadcast ⟨9, [1]⟩), (1, .broadcast ⟨9, [2]⟩), (2, .work .bus (.turn 2))] ++
      dispatched 2 ++ dispatched 3 ++ received) (by decide)

/-- The tasks of the two frames. -/
def orderedTasks : Task ℤ Obj × Task ℤ Obj :=
  (⟨1, 0, .broadcast, Frame.args ⟨9, [1]⟩, [], 0⟩, ⟨1, 0, .broadcast, Frame.args ⟨9, [2]⟩, [], 1⟩)

theorem frames_keep_order_ordered :
    InOrder orderedTasks.1 orderedTasks.2 ordered.2 ∧
      (invokedTasks (eventsOf (.host 0) ordered.2)).map Task.args =
        [[.bytes [1]], [.bytes [2]]] := by
  have hrun : Run (TieNetSteps oneHost 100) (Net.new 0) ordered.2 ordered.1 :=
    run_guarded_outcome _ _ _ _ _
  have hsplit : ordered.2 = ordered.2.take 8 ++
      .component .bus (.accepted 0 orderedTasks.2) :: ordered.2.drop 9 := by decide
  exact ⟨frames_keep_order hrun hsplit (by decide), by decide⟩

/-- The first with the greater bytes. -/
def overtakenFrame : Net ℤ ℕ 1 × List (NetEvent ℤ ℕ 1) :=
  outcome (Net.step oneHost 100) (Net.new 0)
    (watched ++ [(1, .broadcast ⟨9, [2]⟩), (1, .broadcast ⟨9, [1]⟩), (2, .work .bus (.turn 2))] ++
      dispatched 2 ++ dispatched 3 ++ received) (by decide)

/-- **A frame can overtake another**: of two frames that are broadcast at one
clock reading, the later one has the smaller bytes, and is dispatched and
received first. -/
theorem frame_overtakes :
    ∃ (tr : List (NetEvent ℤ ℕ 1)) (N : Net ℤ ℕ 1) (t u : Task ℤ Obj),
      Emulation oneHost 100 (Net.new 0) tr N ∧
      (∀ c ∈ components 1, (N.sys c).executor.status = .running) ∧
      acceptedTasks (eventsOf .bus tr) = [t, u] ∧ invokedTasks (eventsOf .bus tr) = [u, t] ∧
      t.args = Frame.args ⟨9, [2]⟩ ∧ u.args = Frame.args ⟨9, [1]⟩ ∧
      (invokedTasks (eventsOf (.host 0) tr)).map Task.args = [[.bytes [1]], [.bytes [2]]] := by
  have hrun : Emulation oneHost 100 (Net.new 0) overtakenFrame.2 overtakenFrame.1 :=
    run_outcome _ _ _ _
  exact ⟨_, _, ⟨1, 0, .broadcast, Frame.args ⟨9, [2]⟩, [], 0⟩,
    ⟨1, 0, .broadcast, Frame.args ⟨9, [1]⟩, [], 1⟩, hrun, by decide⟩

end PyLwip
