import PyLwip.Scheduler.Fifo
import PyLwip.Emulation.Network

/-!
# What one step of the network can do

`NetTransition` lists the moves of `Net.step`, and `netTransition_of_step`
says that there are no others; nothing after this file unfolds `step`. Each
of them is a step of one executor or of none, so a run of the network is a
run of every executor in it, with the events that concern it.
-/

namespace PyLwip

open EventSystem

variable {T V : Type} {n : ℕ}

/-! ## The moves -/

/-- The event that the executor of `c` takes part in. -/
def NetEvent.on (c : Component n) : NetEvent T V n → Option (Event T Obj V)
  | .component c' e => if c' = c then some e else none
  | .delivered _ _ i e => if .host i = c then some e else none
  | _ => none

/-- What the executor of `c` took part in. -/
abbrev eventsOf (c : Component n) (tr : List (NetEvent T V n)) : List (Event T Obj V) :=
  tr.filterMap (NetEvent.on c)

theorem eventsOf_append (c : Component n) (tr tr' : List (NetEvent T V n)) :
    eventsOf c (tr ++ tr') = eventsOf c tr ++ eventsOf c tr' :=
  List.filterMap_append

theorem mem_seen_left {c : Component n} {f : Event T Obj V → Option (Task T Obj)}
    {tr tr' : List (NetEvent T V n)} {t : Task T Obj} (h : t ∈ seen f (eventsOf c tr)) :
    t ∈ seen f (eventsOf c (tr ++ tr')) := by
  rw [eventsOf_append, seen_append]
  exact List.mem_append_left _ h

theorem mem_seen_right {c : Component n} {f : Event T Obj V → Option (Task T Obj)}
    {tr tr' : List (NetEvent T V n)} {t : Task T Obj} (h : t ∈ seen f (eventsOf c tr')) :
    t ∈ seen f (eventsOf c (tr ++ tr')) := by
  rw [eventsOf_append, seen_append]
  exact List.mem_append_right _ h

theorem eventsOf_split {c : Component n} {e : NetEvent T V n} {e' : Event T Obj V}
    {tr tr' : List (NetEvent T V n)} (hon : e.on c = some e') :
    eventsOf c (tr ++ e :: tr') = eventsOf c tr ++ e' :: eventsOf c tr' := by
  rw [eventsOf_append, eventsOf, eventsOf, eventsOf, List.filterMap_cons_some hon]

theorem NetEvent.on_component (c : Component n) (e : Event T Obj V) :
    (NetEvent.component c e).on c = some e := by
  simp [NetEvent.on]

theorem NetEvent.on_delivered (t : Task T Obj) (netif : ℕ) (i : Fin n) (e : Event T Obj V) :
    (NetEvent.delivered t netif i e).on (.host i) = some e := by
  simp [NetEvent.on]

/-- The bus is not called by `_broadcast`. -/
theorem NetEvent.on_bus_iff {e : NetEvent T V n} {e' : Event T Obj V} :
    e.on .bus = some e' ↔ e = .component .bus e' := by
  cases e <;> simp [NetEvent.on]

theorem mem_eventsOf_bus {e : Event T Obj V} {tr : List (NetEvent T V n)} :
    e ∈ eventsOf .bus tr ↔ .component .bus e ∈ tr := by
  simp [eventsOf, NetEvent.on_bus_iff]

theorem NetEvent.on_component_eq {c c' : Component n} {e e' : Event T Obj V} :
    (some (NetEvent.component c' e)).bind (NetEvent.on c) = some e' ↔ c' = c ∧ e = e' := by
  by_cases hc : c' = c <;> simp [NetEvent.on, hc]

theorem NetEvent.on_delivered_eq {c : Component n} {t : Task T Obj} {netif : ℕ}
    {i : Fin n} {e e' : Event T Obj V} :
    (some (NetEvent.delivered t netif i e)).bind (NetEvent.on c) = some e' ↔
      .host i = c ∧ e = e' := by
  by_cases hc : .host i = c <;> simp [NetEvent.on, hc]

/-- **The moves of `_broadcast`** for the task `t` with the frame `f`, but for
the calls of `on_incoming_data`. -/
inductive DispatchStep (top : Topology n) (filters observers : ℕ) (t : Task T Obj) (f : Frame) :
    Dispatch → Option (NetEvent T V n) → Dispatch → Prop
  | accepted {i : ℕ} (hi : i < filters) :
      DispatchStep top filters observers t f (.filtering i) (some (.filtered t i true))
        (.filtering (i + 1))
  | refused {i : ℕ} (hi : i < filters) :
      DispatchStep top filters observers t f (.filtering i) (some (.filtered t i false))
        (.observing false 0)
  | filtersPassed {i : ℕ} (hi : ¬ i < filters) :
      DispatchStep top filters observers t f (.filtering i) none (.observing true 0)
  | observed {b : Bool} {j : ℕ} (hj : j < observers) :
      DispatchStep top filters observers t f (.observing b j) (some (.observed t j b))
        (.observing b (j + 1))
  | observersPassed {b : Bool} {j : ℕ} (hj : ¬ j < observers) :
      DispatchStep top filters observers t f (.observing b j) none
        (if b then .delivering 0 else .returned)
  | raised {d : Dispatch} {x : PyError} :
      DispatchStep top filters observers t f d (some (.dispatchRaised t x)) (.raised x)
  | sender {k : ℕ} {i : Fin n} (hk : top.interfaces[k]? = some (f.sender, i)) :
      DispatchStep top filters observers t f (.delivering k) none (.delivering (k + 1))
  | interfacesPassed {k : ℕ} (hk : top.interfaces[k]? = none) :
      DispatchStep top filters observers t f (.delivering k) none .returned

theorem DispatchStep.on_eq_none {top : Topology n} {filters observers : ℕ} {t : Task T Obj}
    {f : Frame} {d d' : Dispatch} {ev : Option (NetEvent T V n)}
    (h : DispatchStep top filters observers t f d ev d') (c : Component n) :
    ev.bind (NetEvent.on c) = none := by
  cases h <;> rfl

/-- **The moves of the network**, at the clock reading `r`. -/
inductive NetTransition [AddCommGroup T] [LinearOrder T] (top : Topology n) (timeoutMax : T)
    (N : Net T V n) : Option (NetEvent T V n) → Net T V n → Prop
  | broadcast {r : T} {s' : Sys T Obj V} {e : Event T Obj V} (f : Frame)
      (hs : Steps timeoutMax (N.sys .bus) (some e) s') (he : e.Calls 0 .broadcast f.args) :
      NetTransition top timeoutMax N (some (.component .bus e))
        { N with now := r, sys := Function.update N.sys .bus s' }
  | request {r : T} {i : Fin n} {s' : Sys T Obj V} {e : Event T Obj V}
      {exposed' : Fin n → List ℕ} (hs : Steps timeoutMax (N.sys (.host i)) (some e) s')
      (he : e.isCall = true) (hexp : exposed' = N.exposed ∨ ∃ d t, e = .accepted d t ∧
        exposed' = Function.update N.exposed i (t.future :: N.exposed i)) :
      NetTransition top timeoutMax N (some (.component (.host i) e))
        { N with
          now := r, sys := Function.update N.sys (.host i) s', exposed := exposed' }
  | cancel {r : T} {i : Fin n} {m : ℕ} {b : Bool} {s' : Sys T Obj V} (hm : m ∈ N.exposed i)
      (hs : Steps timeoutMax (N.sys (.host i)) (some (.cancelled m b)) s') :
      NetTransition top timeoutMax N (some (.component (.host i) (.cancelled m b)))
        { N with now := r, sys := Function.update N.sys (.host i) s' }
  | addFilter {r : T} :
      NetTransition top timeoutMax N none { N with now := r, filters := N.filters + 1 }
  | addObserver {r : T} :
      NetTransition top timeoutMax N (some .observerAdded)
        { N with now := r, observers := N.observers + 1 }
  | startCalled {r : T} (hc : N.control = .built) :
      NetTransition top timeoutMax N (some .startCalled)
        { N with now := r, control := .starting (components n) }
  | launch {r : T} {c : Component n} {todo : List (Component n)} {s' : Sys T Obj V}
      (hc : N.control = .starting (c :: todo))
      (hs : Steps timeoutMax (N.sys c) (some .launched) s') :
      NetTransition top timeoutMax N (some (.component c .launched))
        { N with now := r, sys := Function.update N.sys c s', control := .starting todo }
  | startReturned {r : T} (hc : N.control = .starting []) :
      NetTransition top timeoutMax N (some .startReturned)
        { N with now := r, control := .started }
  | stopCalled {r : T} (hc : N.control = .started) :
      NetTransition top timeoutMax N (some .stopCalled)
        { N with now := r, control := .stopping (components n) }
  | stop {r : T} {c : Component n} {todo : List (Component n)} {s' : Sys T Obj V}
      (hc : N.control = .stopping (c :: todo))
      (hs : Steps timeoutMax (N.sys c) (some (.stopRequested true)) s') :
      NetTransition top timeoutMax N (some (.component c (.stopRequested true)))
        { N with now := r, sys := Function.update N.sys c s', control := .joining c todo }
  | join {r : T} {c : Component n} {todo : List (Component n)}
      (hc : N.control = .joining c todo) (hw : (N.sys c).worker.ended = true) :
      NetTransition top timeoutMax N none { N with now := r, control := .stopping todo }
  | stopReturned {r : T} (hc : N.control = .stopping []) :
      NetTransition top timeoutMax N (some .stopReturned)
        { N with now := r, control := .stopped }
  | work {r : T} {c : Component n} {s' : Sys T Obj V} {ev : Option (Event T Obj V)}
      (hs : Steps timeoutMax (N.sys c) ev s') (hev : ∀ e ∈ ev, e.ofWorker = true)
      (hbus : c = .bus → ∀ e ∈ ev, e.invoked? = none ∧ e.completed? = none) :
      NetTransition top timeoutMax N (ev.map (.component c))
        { N with now := r, sys := Function.update N.sys c s' }
  | take {r : T} {s' : Sys T Obj V} {e : Event T Obj V}
      (hs : Steps timeoutMax (N.sys .bus) (some e) s') (hev : e.ofWorker = true)
      (hcomp : e.completed? = none) :
      NetTransition top timeoutMax N (some (.component .bus e))
        { N with now := r, sys := Function.update N.sys .bus s', dispatch := .filtering 0 }
  | finish {r : T} {o : Outcome V} {s' : Sys T Obj V} {e : Event T Obj V}
      (hends : N.dispatch.ends o = true) (hs : Steps timeoutMax (N.sys .bus) (some e) s')
      (hev : e.ofWorker = true) (hinv : e.invoked? = none)
      (hcomp : ∀ t o', e = .completed t o' → o' = o) :
      NetTransition top timeoutMax N (some (.component .bus e))
        { N with now := r, sys := Function.update N.sys .bus s' }
  | dispatch {r : T} {t : Task T Obj} {rest : List (Task T Obj)} {f : Frame}
      {ev : Option (NetEvent T V n)} {d : Dispatch}
      (hw : (N.sys .bus).worker = .executing t rest) (hf : t.frame? = some f)
      (hd : DispatchStep top N.filters N.observers t f N.dispatch ev d) :
      NetTransition top timeoutMax N ev { N with now := r, dispatch := d }
  | deliver {r : T} {t : Task T Obj} {rest : List (Task T Obj)} {f : Frame} {k netif : ℕ}
      {i : Fin n} {s' : Sys T Obj V} {e : Event T Obj V}
      (hw : (N.sys .bus).worker = .executing t rest) (hf : t.frame? = some f)
      (hd : N.dispatch = .delivering k) (hk : top.interfaces[k]? = some (netif, i))
      (hne : netif ≠ f.sender) (hs : Steps timeoutMax (N.sys (.host i)) (some e) s')
      (he : e.Calls 0 (.inputData netif) [.bytes f.data]) :
      NetTransition top timeoutMax N (some (.delivered t netif i e))
        { N with
          now := r, sys := Function.update N.sys (.host i) s', dispatch := .afterCall k e }

/-- The steps of a network. -/
abbrev NetSteps [AddCommGroup T] [LinearOrder T] (top : Topology n) (timeoutMax : T) :
    Net T V n → Option (NetEvent T V n) → Net T V n → Prop :=
  StepOf (Net.step top timeoutMax)

/-- An interleaving of all threads of a network from `N` on. -/
abbrev Emulation [AddCommGroup T] [LinearOrder T] (top : Topology n) (timeoutMax : T) :
    Net T V n → List (NetEvent T V n) → Net T V n → Prop :=
  Run (NetSteps top timeoutMax)

section Inversion

variable [AddCommGroup T] [LinearOrder T] {top : Topology n} {timeoutMax r : T}
  {N N' : Net T V n} {ev : Option (NetEvent T V n)}

theorem tell_eq_some {c : Component n} {a : Act T Obj V}
    (h : N.tell timeoutMax r c a = some (N', ev)) :
    ∃ s' e, Sys.step timeoutMax (N.sys c) (r, a) = some (s', e) ∧
      N' = { N with sys := Function.update N.sys c s' } ∧ ev = e.map (.component c) := by
  obtain ⟨⟨s', e⟩, hs, heq⟩ := Option.map_eq_some_iff.mp h
  obtain ⟨rfl, rfl⟩ := Prod.mk.inj heq
  exact ⟨s', e, hs, rfl, rfl⟩

/-- A call of an executor, and what the caller makes of it. -/
theorem map_tell_eq_some {c : Component n} {a : Act T Obj V}
    {g : Net T V n × Option (NetEvent T V n) → Net T V n × Option (NetEvent T V n)}
    (h : (N.tell timeoutMax r c a).map g = some (N', ev)) :
    ∃ s' e, Sys.step timeoutMax (N.sys c) (r, a) = some (s', e) ∧
      g ({ N with sys := Function.update N.sys c s' }, e.map (.component c)) = (N', ev) := by
  obtain ⟨⟨N₁, ev₁⟩, htell, heq⟩ := Option.map_eq_some_iff.mp h
  obtain ⟨s', e, hs, rfl, rfl⟩ := tell_eq_some htell
  exact ⟨s', e, hs, heq⟩

theorem netTransition_of_request {i : Fin n} {delay : T} {action : Obj} {args : List Obj}
    (h : ({ N with now := r } : Net T V n).tell timeoutMax r (.host i)
      (.schedule delay 0 action args []) = some (N', ev)) :
    NetTransition top timeoutMax N ev N' := by
  obtain ⟨s', e, hs, rfl, rfl⟩ := tell_eq_some h
  obtain ⟨e, rfl, he⟩ := calls_of_step hs
  exact .request ⟨_, hs⟩ he.isCall (.inl rfl)

theorem netTransition_of_execute {i : Fin n} {delay : T} {action : Obj} {args : List Obj}
    (h : ({ N with now := r } : Net T V n).tell timeoutMax r (.host i)
      (.schedule delay 0 action args []) = some (N', ev)) :
    NetTransition top timeoutMax N ev (N'.expose i ev) := by
  obtain ⟨s', e, hs, rfl, rfl⟩ := tell_eq_some h
  obtain ⟨e, rfl, he⟩ := calls_of_step hs
  have hcall := he.isCall
  cases e with
  | accepted d t => exact .request ⟨_, hs⟩ rfl (.inr ⟨d, t, rfl, rfl⟩)
  | rejected => exact .request ⟨_, hs⟩ rfl (.inl rfl)
  | scheduleRaised => exact .request ⟨_, hs⟩ rfl (.inl rfl)
  | _ => cases hcall

theorem netTransition_of_controlStep
    (h : ({ N with now := r } : Net T V n).controlStep timeoutMax r = some (N', ev)) :
    NetTransition top timeoutMax N ev N' := by
  simp only [Net.controlStep] at h
  split at h
  · next hc => cases h; exact .startCalled hc
  · next c todo hc =>
    obtain ⟨s', e, hs, heq⟩ := map_tell_eq_some h
    cases heq
    have hev : e = some .launched := emits_of_step hs
    subst hev
    exact .launch hc ⟨_, hs⟩
  · next hc => cases h; exact .startReturned hc
  · next hc => cases h; exact .stopCalled hc
  · next c todo hc =>
    obtain ⟨s', e, hs, heq⟩ := map_tell_eq_some h
    cases heq
    have hev : e = some (.stopRequested true) := emits_of_step hs
    subst hev
    exact .stop hc ⟨_, hs⟩
  · next c todo hc =>
    split at h
    · next hw => cases h; exact .join hc hw
    · cases h
  · next hc => cases h; exact .stopReturned hc
  · cases h

theorem netTransition_of_dispatchStep {answer : Except PyError Bool} {t : Task T Obj}
    {rest : List (Task T Obj)} {f : Frame} (hw : (N.sys .bus).worker = .executing t rest)
    (hf : t.frame? = some f)
    (h : ({ N with now := r } : Net T V n).dispatchStep top timeoutMax r answer t f =
      some (N', ev)) : NetTransition top timeoutMax N ev N' := by
  -- a move that calls no host
  have hmove : ∀ {ev d}, DispatchStep top N.filters N.observers t f N.dispatch ev d →
      NetTransition top timeoutMax N ev { N with now := r, dispatch := d } := .dispatch hw hf
  simp only [Net.dispatchStep] at h
  split at h
  · next i hd =>
    rw [hd] at hmove
    split at h
    · next hi =>
      split at h <;> cases h
      · exact hmove (.accepted hi)
      · exact hmove (.refused hi)
      · exact hmove .raised
    · next hi => cases h; exact hmove (.filtersPassed hi)
  · next b j hd =>
    rw [hd] at hmove
    split at h
    · next hj =>
      split at h <;> cases h
      · exact hmove (.observed hj)
      · exact hmove .raised
    · next hj => cases h; exact hmove (.observersPassed hj)
  · next k hd =>
    split at h
    · next interface hk =>
      obtain ⟨netif, i⟩ := interface
      unfold Net.deliver at h
      split at h
      · next hne =>
        split at h
        · next s e hs =>
          cases h
          obtain ⟨e', he', hcalls⟩ := calls_of_step hs
          cases he'
          exact .deliver hw hf hd hk hne ⟨_, hs⟩ hcalls
        · cases h
      · next hsame =>
        cases h
        rw [hd] at hmove
        obtain rfl : netif = f.sender := by simpa using hsame
        exact hmove (.sender hk)
    · next hk =>
      cases h
      rw [hd] at hmove
      exact hmove (.interfacesPassed hk)
  · cases h
  · cases h

theorem netTransition_of_work {c : Component n} {a : Act T Obj V}
    (h : ({ N with now := r } : Net T V n).work timeoutMax r c a = some (N', ev)) :
    NetTransition top timeoutMax N ev N' := by
  unfold Net.work at h
  split at h
  · obtain ⟨s', e, hs, heq⟩ := map_tell_eq_some h
    cases heq
    obtain ⟨e, rfl⟩ := emits_of_step hs
    have he := emitted_of_step hs rfl
    refine .take ⟨_, hs⟩ he.ofWorker ?_
    cases e with
    | completed t o => cases he.completed t o rfl
    | _ => rfl
  · next o =>
    split at h
    · next hends =>
      obtain ⟨s', e, hs, rfl, rfl⟩ := tell_eq_some h
      obtain ⟨e, rfl⟩ := emits_of_step hs
      have he := emitted_of_step hs rfl
      refine .finish hends ⟨_, hs⟩ he.ofWorker (he.invoked (by simp)) fun t o' ho => ?_
      exact (Act.finish.inj (he.completed t o' ho)).symm
    · cases h
  · next htake hfinish =>
    split at h
    · next ha =>
      obtain ⟨s', e, hs, rfl, rfl⟩ := tell_eq_some h
      refine .work ⟨_, hs⟩ (fun e he => ?_) fun hbus e he => ?_
      · cases he
        exact (emitted_of_step hs ha).ofWorker
      · cases he
        have hem := emitted_of_step hs ha
        refine ⟨hem.invoked fun htk => htake hbus htk, ?_⟩
        cases e with
        | completed t o => exact absurd (hem.completed t o rfl) (hfinish o hbus)
        | _ => rfl
    · cases h

/-- **There are no other moves.** -/
theorem netTransition_of_step {l : T × Move T V n} (h : N.step top timeoutMax l = some (N', ev)) :
    NetTransition top timeoutMax N ev N' := by
  obtain ⟨r, a⟩ := l
  unfold Net.step at h
  split at h
  · cases a with
    | broadcast f =>
      obtain ⟨s', e, hs, rfl, rfl⟩ := tell_eq_some h
      obtain ⟨e, rfl, he⟩ := calls_of_step hs
      exact .broadcast f ⟨_, hs⟩ he
    | setUpInterfaces i => exact netTransition_of_request h
    | onIncomingData i netif data => exact netTransition_of_request h
    | execute i action delay =>
      obtain ⟨⟨N₁, ev₁⟩, ht, heq⟩ := Option.map_eq_some_iff.mp h
      cases heq
      exact netTransition_of_execute ht
    | cancel i m =>
      simp only [Net.act] at h
      split at h
      · next hm =>
        obtain ⟨s', e, hs, rfl, rfl⟩ := tell_eq_some h
        obtain ⟨b, rfl⟩ := emits_of_step hs
        exact .cancel hm ⟨_, hs⟩
      · cases h
    | addFilter => cases h; exact .addFilter
    | addObserver => cases h; exact .addObserver
    | control => exact netTransition_of_controlStep h
    | work c a => exact netTransition_of_work h
    | dispatch answer =>
      simp only [Net.act] at h
      split at h
      · next t rest hw =>
        obtain ⟨f, hf, hd⟩ := Option.bind_eq_some_iff.mp h
        exact netTransition_of_dispatchStep hw hf hd
      · cases h
  · cases h

theorem NetSteps.transition (h : NetSteps top timeoutMax N ev N') :
    NetTransition top timeoutMax N ev N' :=
  let ⟨_, hl⟩ := h
  netTransition_of_step hl

/-! ## Who adds an observer -/

theorem observers_of_tell {c : Component n} {a : Act T Obj V}
    (h : N.tell timeoutMax r c a = some (N', ev)) : N'.observers = N.observers := by
  obtain ⟨s', e, -, rfl, -⟩ := tell_eq_some h
  rfl

theorem observers_of_map_tell {c : Component n} {a : Act T Obj V}
    {g : Net T V n × Option (NetEvent T V n) → Net T V n × Option (NetEvent T V n)}
    (h : (N.tell timeoutMax r c a).map g = some (N', ev))
    (hg : ∀ x, (g x).1.observers = x.1.observers) : N'.observers = N.observers := by
  obtain ⟨s', e, -, heq⟩ := map_tell_eq_some h
  have hkeeps := hg ({ N with sys := Function.update N.sys c s' }, e.map (.component c))
  rwa [heq] at hkeeps

theorem observers_of_controlStep (h : N.controlStep timeoutMax r = some (N', ev)) :
    N'.observers = N.observers := by
  unfold Net.controlStep at h
  split at h
  · cases h; rfl
  · exact observers_of_map_tell h fun _ => rfl
  · cases h; rfl
  · cases h; rfl
  · exact observers_of_map_tell h fun _ => rfl
  · split at h
    · cases h; rfl
    · cases h
  · cases h; rfl
  · cases h

theorem observers_of_work {c : Component n} {a : Act T Obj V}
    (h : N.work timeoutMax r c a = some (N', ev)) : N'.observers = N.observers := by
  unfold Net.work at h
  split at h
  · exact observers_of_map_tell h fun _ => rfl
  · split at h
    · exact observers_of_tell h
    · cases h
  · split at h
    · exact observers_of_tell h
    · cases h

theorem observers_of_dispatchStep {answer : Except PyError Bool} {t : Task T Obj} {f : Frame}
    (h : N.dispatchStep top timeoutMax r answer t f = some (N', ev)) :
    N'.observers = N.observers := by
  unfold Net.dispatchStep Net.deliver at h
  repeat' split at h
  all_goals cases h
  all_goals rfl

/-- **Only `add_observer` adds an observer.** -/
theorem observers_of_step {move : Move T V n}
    (h : Net.step top timeoutMax N (r, move) = some (N', ev)) (hmove : move ≠ .addObserver) :
    N'.observers = N.observers := by
  unfold Net.step at h
  split at h
  · cases move with
    | addObserver => exact absurd rfl hmove
    | addFilter => cases h; rfl
    | broadcast | setUpInterfaces | onIncomingData => exact (observers_of_tell h :)
    | cancel i future =>
      simp only [Net.act] at h
      split at h
      · exact (observers_of_tell h :)
      · cases h
    | execute i action delay =>
      refine (observers_of_map_tell h fun x => ?_ :)
      unfold Net.expose
      split <;> rfl
    | control => exact (observers_of_controlStep h :)
    | work c a => exact (observers_of_work h :)
    | dispatch answer =>
      simp only [Net.act] at h
      split at h
      · obtain ⟨f, -, hd⟩ := Option.bind_eq_some_iff.mp h
        exact (observers_of_dispatchStep hd :)
      · cases h
  · cases h

theorem observers_of_addObserver (h : Net.step top timeoutMax N (r, .addObserver) = some (N', ev)) :
    N'.observers = N.observers + 1 := by
  unfold Net.step at h
  split at h
  · cases h; rfl
  · cases h

end Inversion

/-! ## The executors in a network -/

section Projection

variable [AddCommGroup T] [LinearOrder T] {top : Topology n} {timeoutMax : T}
  {N N' : Net T V n} {ev : Option (NetEvent T V n)} {tr : List (NetEvent T V n)}

/-- **A step of the network is a step of an executor or leaves it alone.** -/
theorem NetTransition.component (hs : NetTransition top timeoutMax N ev N') (c : Component n) :
    Steps timeoutMax (N.sys c) (ev.bind (NetEvent.on c)) (N'.sys c) ∨
      ev.bind (NetEvent.on c) = none ∧ N'.sys c = N.sys c := by
  -- a step of the executor of `c'`, with an event of that executor
  have hone : ∀ {c' s' e}, Steps timeoutMax (N.sys c') (some e) s' →
      Steps timeoutMax (N.sys c) (if c' = c then some e else none)
          (Function.update N.sys c' s' c) ∨
        (if c' = c then some e else none) = none ∧ Function.update N.sys c' s' c = N.sys c := by
    intro c' s' e hs
    by_cases hc : c' = c
    · subst hc
      exact .inl (by simpa using hs)
    · exact .inr (by simp [hc, Function.update_of_ne (Ne.symm hc)])
  cases hs with
  | broadcast f hs | request hs | cancel hm hs | launch hc hs | stop hc hs | take hs
  | finish hends hs | deliver hw hf hd hk hne hs => exact hone hs
  | @work r c' s' ev hs =>
    cases ev with
    | none =>
      by_cases hc : c' = c
      · subst hc
        exact .inl (by simpa using hs)
      · exact .inr ⟨rfl, by simp [Function.update_of_ne (Ne.symm hc)]⟩
    | some e => exact hone hs
  | dispatch hw hf hd => exact .inr ⟨hd.on_eq_none c, rfl⟩
  | _ => exact .inr ⟨rfl, rfl⟩

/-- **Where an event of the executor of `c` comes from**: the worker, a call,
or the caller of `start` and `stop`. The bus is called by `broadcast` alone,
and a future is cancelled by who was handed it. -/
inductive Origin (N N' : Net T V n) (c : Component n) : Event T Obj V → Prop
  | worker {e : Event T Obj V} (he : e.ofWorker = true) : Origin N N' c e
  | call {e : Event T Obj V} (he : e.isCall = true)
      (hbus : c = .bus → ∃ f : Frame, e.Calls 0 .broadcast f.args) : Origin N N' c e
  | cancel {i : Fin n} {m : ℕ} {b : Bool} (hc : c = .host i) (hm : m ∈ N.exposed i) :
      Origin N N' c (.cancelled m b)
  | launch {todo : List (Component n)} (hc : N.control = .starting (c :: todo))
      (hc' : N'.control = .starting todo) : Origin N N' c .launched
  | stop {todo : List (Component n)} (hc : N.control = .stopping (c :: todo))
      (hc' : N'.control = .joining c todo) : Origin N N' c (.stopRequested true)

theorem NetTransition.origin (hs : NetTransition top timeoutMax N ev N') {c : Component n}
    {e : Event T Obj V} (hon : ev.bind (NetEvent.on c) = some e) : Origin N N' c e := by
  cases hs with
  | broadcast f hs hcalls =>
    obtain ⟨rfl, rfl⟩ := NetEvent.on_component_eq.mp hon
    exact .call hcalls.isCall fun _ => ⟨f, hcalls⟩
  | request hs he =>
    obtain ⟨rfl, rfl⟩ := NetEvent.on_component_eq.mp hon
    exact .call he fun hc => by cases hc
  | deliver hw hf hd hk hne hs hcalls =>
    obtain ⟨rfl, rfl⟩ := NetEvent.on_delivered_eq.mp hon
    exact .call hcalls.isCall fun hc => by cases hc
  | cancel hm =>
    obtain ⟨rfl, rfl⟩ := NetEvent.on_component_eq.mp hon
    exact .cancel rfl hm
  | launch hc =>
    obtain ⟨rfl, rfl⟩ := NetEvent.on_component_eq.mp hon
    exact .launch hc rfl
  | stop hc =>
    obtain ⟨rfl, rfl⟩ := NetEvent.on_component_eq.mp hon
    exact .stop hc rfl
  | @work r c' s' ev hs hev =>
    cases ev with
    | none => cases hon
    | some e' =>
      obtain ⟨rfl, rfl⟩ := NetEvent.on_component_eq.mp hon
      exact .worker (hev _ rfl)
  | take hs hev | finish hends hs hev =>
    obtain ⟨rfl, rfl⟩ := NetEvent.on_component_eq.mp hon
    exact .worker hev
  | dispatch hw hf hd => rw [hd.on_eq_none] at hon; cases hon
  | _ => cases hon

/-- A step that an executor sees an event of is a step of that executor. -/
theorem NetTransition.of_on (hs : NetTransition top timeoutMax N ev N') {c : Component n}
    {e : Event T Obj V} (hon : ev.bind (NetEvent.on c) = some e) :
    Steps timeoutMax (N.sys c) (some e) (N'.sys c) := by
  rcases hs.component c with hstep | ⟨hnone, -⟩
  · rwa [hon] at hstep
  · rw [hon] at hnone
    cases hnone

theorem NetSteps.of_on {c : Component n} {e : Event T Obj V} {e' : NetEvent T V n}
    (hs : NetSteps top timeoutMax N (some e') N') (hon : e'.on c = some e) :
    Steps timeoutMax (N.sys c) (some e) (N'.sys c) :=
  hs.transition.of_on hon

/-- **A run of the network is a run of each of its executors.** -/
theorem Emulation.component (h : Emulation top timeoutMax N tr N') (c : Component n) :
    Interleaving timeoutMax (N.sys c) (eventsOf c tr) (N'.sys c) :=
  Run.project (f := fun N => N.sys c) (fun _ _ _ hs => hs.transition.component c) h

/-- The tasks of an executor are conserved before any point of a run in which
its pops return. -/
theorem Emulation.conserved {now : T} {tr' : List (NetEvent T V n)}
    (h : Emulation top timeoutMax (Net.new now) tr N) {c : Component n}
    (hpops : PopsReturn (eventsOf c (tr ++ tr'))) : Conserved (eventsOf c tr) (N.sys c) := by
  rw [eventsOf, List.filterMap_append] at hpops
  exact conserved_of_run (h.component c) hpops.left

/-- Every event of an executor has an origin in the run. -/
theorem origin_of_mem (h : Emulation top timeoutMax N tr N') {c : Component n}
    {e : Event T Obj V} (he : e ∈ eventsOf c tr) :
    ∃ pre e' post N₁ N₂, tr = pre ++ e' :: post ∧ e'.on c = some e ∧
      Emulation top timeoutMax N pre N₁ ∧ NetSteps top timeoutMax N₁ (some e') N₂ ∧
      Emulation top timeoutMax N₂ post N' ∧ Origin N₁ N₂ c e := by
  obtain ⟨e', he', hon⟩ := List.mem_filterMap.mp he
  obtain ⟨pre, post, N₁, N₂, htr, hpre, hs, hpost⟩ := h.exists_of_mem he'
  exact ⟨pre, e', post, N₁, N₂, htr, hon, hpre, hs, hpost, hs.transition.origin hon⟩

end Projection

end PyLwip
