import PyLwip.Emulation.Frames
import Mathlib.Data.List.TakeWhile

/-!
# What `_broadcast` does with a frame

`_broadcast` asks the filters, passes the frame to the observers, and calls
`on_incoming_data` for the interfaces, one after the other. `Progress` says
for each place in its body what of this is in the trace, so that at its end
the trace tells all of it: every observer registered before has seen the
frame once, and every interface but the sender's was called once unless a
filter refused.
-/

namespace PyLwip

open EventSystem

variable {T V : Type} {n : ℕ}

/-! ## What a trace says of a frame -/

namespace NetEvent

/-- An observer is registered. -/
def registers : NetEvent T V n → Bool
  | .observerAdded => true
  | _ => false

variable [DecidableEq T]

/-- The observer that is passed the frame of `t`. -/
def observer? (t : Task T Obj) : NetEvent T V n → Option ℕ
  | .observed u j _ => if u = t then some j else none
  | _ => none

/-- The interface, its host, and the task that the host accepted for the
frame of `t`. -/
def delivery? (t : Task T Obj) : NetEvent T V n → Option ((ℕ × Fin n) × Task T Obj)
  | .delivered u netif i e => if u = t then e.accepted?.map (Prod.mk (netif, i)) else none
  | _ => none

/-- The dispatch of the frame of `t` begins. -/
def starts (t : Task T Obj) : NetEvent T V n → Bool
  | .component .bus (.invoked u _) => decide (u = t)
  | _ => false

end NetEvent

/-- How many observers are registered. -/
def registered (tr : List (NetEvent T V n)) : ℕ := tr.countP NetEvent.registers

/-- No filter refused the frame of `t`. -/
def Allowed (t : Task T Obj) (tr : List (NetEvent T V n)) : Prop := ∀ i, .filtered t i false ∉ tr

/-- No event of `tr` is about the frame of `t`. -/
def Untouched (t : Task T Obj) (tr : List (NetEvent T V n)) : Prop :=
  ∀ e ∈ tr, e.dispatches? ≠ some t

theorem allowed_append {t : Task T Obj} {tr tr' : List (NetEvent T V n)} (h : Untouched t tr') :
    Allowed t (tr ++ tr') ↔ Allowed t tr := by
  constructor
  · exact fun ha i hi => ha i (List.mem_append_left _ hi)
  · intro ha i hi
    rcases List.mem_append.mp hi with hi | hi
    · exact ha i hi
    · exact h _ hi rfl

/-- The interfaces up to the index `k` that the frame is delivered to. -/
def Topology.receivers (top : Topology n) (f : Frame) (k : ℕ) : List (ℕ × Fin n) :=
  (top.interfaces.take k).filter fun x => x.1 ≠ f.sender

section Traces

variable [DecidableEq T]

/-- The observers that were passed the frame of `t`, in order. -/
abbrev observersOf (t : Task T Obj) (tr : List (NetEvent T V n)) : List ℕ :=
  tr.filterMap (NetEvent.observer? t)

/-- The deliveries of the frame of `t` that were accepted, in order. -/
abbrev deliveriesOf (t : Task T Obj) (tr : List (NetEvent T V n)) :
    List ((ℕ × Fin n) × Task T Obj) :=
  tr.filterMap (NetEvent.delivery? t)

/-- How many observers were registered before the dispatch of the frame of
`t`. -/
def registeredBefore (t : Task T Obj) (tr : List (NetEvent T V n)) : ℕ :=
  registered (tr.takeWhile fun e => !e.starts t)

/-- Every observer registered before the dispatch was passed the frame of `t`,
and none of them twice. -/
def Shown (t : Task T Obj) (tr : List (NetEvent T V n)) : Prop :=
  ∃ k, observersOf t tr = List.range k ∧ registeredBefore t tr ≤ k

/-- **What is done at each place of `_broadcast`** for the task `t` with the
frame `f`. -/
def Progress (top : Topology n) (t : Task T Obj) (f : Frame) (tr : List (NetEvent T V n)) :
    Dispatch → Prop
  | .filtering _ => Allowed t tr ∧ observersOf t tr = [] ∧ deliveriesOf t tr = []
  | .observing b j =>
    (b = true ↔ Allowed t tr) ∧ observersOf t tr = List.range j ∧ deliveriesOf t tr = []
  | .delivering k =>
    Allowed t tr ∧ Shown t tr ∧ (deliveriesOf t tr).map Prod.fst = top.receivers f k
  | .returned => Shown t tr ∧
    (Allowed t tr → (deliveriesOf t tr).map Prod.fst = top.receivers f top.interfaces.length)
  | .raised _ => (∃ x, .dispatchRaised t x ∈ tr) ∨
    Shown t tr ∧ ∃ netif i e, .delivered t netif i e ∈ tr ∧ e.accepted? = none

/-! ## Events of other frames -/

variable {t : Task T Obj} {tr tr' : List (NetEvent T V n)} {ev : Option (NetEvent T V n)}

theorem observersOf_eq_nil (h : Untouched t tr) : observersOf t tr = [] := by
  refine List.filterMap_eq_nil_iff.mpr fun e he => ?_
  have := h e he
  cases e <;> simp_all [NetEvent.observer?, NetEvent.dispatches?]

theorem deliveriesOf_eq_nil (h : Untouched t tr) : deliveriesOf t tr = [] := by
  refine List.filterMap_eq_nil_iff.mpr fun e he => ?_
  have := h e he
  cases e <;> simp_all [NetEvent.delivery?, NetEvent.dispatches?]

theorem observersOf_append (h : Untouched t tr') :
    observersOf t (tr ++ tr') = observersOf t tr := by
  have hnil : tr'.filterMap (NetEvent.observer? t) = [] := observersOf_eq_nil h
  rw [observersOf, List.filterMap_append, hnil, List.append_nil]

theorem deliveriesOf_append (h : Untouched t tr') :
    deliveriesOf t (tr ++ tr') = deliveriesOf t tr := by
  have hnil : tr'.filterMap (NetEvent.delivery? t) = [] := deliveriesOf_eq_nil h
  rw [deliveriesOf, List.filterMap_append, hnil, List.append_nil]

/-- What is registered before the dispatch is settled once it begins. -/
theorem registeredBefore_append (h : ∃ e ∈ tr, e.starts t = true) :
    registeredBefore t (tr ++ tr') = registeredBefore t tr := by
  obtain ⟨e, he, hstart⟩ := h
  have hlt : (tr.takeWhile fun e => !e.starts t).length ≠ tr.length := by
    intro hlen
    have hall := (List.takeWhile_prefix fun e : NetEvent T V n => !e.starts t).eq_of_length hlen
    have := List.takeWhile_eq_self_iff.mp hall e he
    simp [hstart] at this
  rw [registeredBefore, registeredBefore, List.takeWhile_append, if_neg hlt]

theorem registeredBefore_le : registeredBefore t tr ≤ registered tr :=
  (List.takeWhile_sublist _).countP_le

theorem Shown.frame (h : Shown t tr) (hstart : ∃ e ∈ tr, e.starts t = true)
    (hobs : observersOf t (tr ++ tr') = observersOf t tr) : Shown t (tr ++ tr') := by
  obtain ⟨k, hk, hle⟩ := h
  exact ⟨k, hobs.trans hk, by rwa [registeredBefore_append hstart]⟩

/-- **The frame lemma**: the events of other frames leave the progress of a
frame as it is. -/
theorem Progress.frame {top : Topology n} {f : Frame} {d : Dispatch}
    (h : Progress top t f tr d) (hstart : ∃ e ∈ tr, e.starts t = true)
    (hother : Untouched t tr') : Progress top t f (tr ++ tr') d := by
  have hobs : observersOf t (tr ++ tr') = observersOf t tr := observersOf_append hother
  cases d with
  | filtering i | observing b j =>
    simpa only [Progress, hobs, deliveriesOf_append hother, allowed_append hother] using h
  | delivering k =>
    obtain ⟨hallowed, hshown, hdel⟩ := h
    exact ⟨(allowed_append hother).mpr hallowed, hshown.frame hstart hobs,
      by rwa [deliveriesOf_append hother]⟩
  | returned =>
    obtain ⟨hshown, hdel⟩ := h
    refine ⟨hshown.frame hstart hobs, ?_⟩
    rwa [deliveriesOf_append hother, allowed_append hother]
  | raised x =>
    rcases h with ⟨y, hy⟩ | ⟨hshown, netif, i, e, he, hnone⟩
    · exact .inl ⟨y, List.mem_append_left _ hy⟩
    · exact .inr ⟨hshown.frame hstart hobs, netif, i, e, List.mem_append_left _ he, hnone⟩

/-! ## The moves of `_broadcast` -/

theorem Topology.receivers_succ_sender {top : Topology n} {f : Frame} {k : ℕ} {i : Fin n}
    (hk : top.interfaces[k]? = some (f.sender, i)) :
    top.receivers f (k + 1) = top.receivers f k := by
  simp [receivers, List.take_add_one, hk]

theorem Topology.receivers_succ {top : Topology n} {f : Frame} {k netif : ℕ} {i : Fin n}
    (hk : top.interfaces[k]? = some (netif, i)) (hne : netif ≠ f.sender) :
    top.receivers f (k + 1) = top.receivers f k ++ [(netif, i)] := by
  simp [receivers, List.take_add_one, hk, hne]

theorem Topology.receivers_of_none {top : Topology n} {f : Frame} {k : ℕ}
    (hk : top.interfaces[k]? = none) :
    top.receivers f k = top.receivers f top.interfaces.length := by
  have hle : top.interfaces.length ≤ k := List.getElem?_eq_none_iff.mp hk
  simp [receivers, List.take_of_length_le hle]

/-- Of the interfaces that a frame is delivered to none is there twice. -/
theorem Topology.receivers_nodup (top : Topology n) (f : Frame) (k : ℕ) :
    ((top.receivers f k).map Prod.fst).Nodup :=
  top.nodup.sublist (((List.filter_sublist).trans (List.take_sublist _ _)).map _)

/-- **The step lemma** for the moves that call no host. -/
theorem Progress.step {top : Topology n} {f : Frame} {d d' : Dispatch} {filters observers : ℕ}
    (h : Progress top t f tr d) (hreg : registered tr ≤ observers)
    (hs : DispatchStep top filters observers t f d ev d') :
    Progress top t f (tr ++ ev.toList) d' := by
  cases hs with
  | accepted hi =>
    obtain ⟨hallowed, hobs, hdel⟩ := h
    exact ⟨by simpa [Allowed] using hallowed, by simpa [NetEvent.observer?] using hobs,
      by simpa [NetEvent.delivery?] using hdel⟩
  | @refused i hi =>
    obtain ⟨-, hobs, hdel⟩ := h
    have hrefused : ¬ Allowed t (tr ++ [.filtered t i false]) := fun hallowed =>
      hallowed i (by simp)
    exact ⟨by simpa using hrefused, by simpa [NetEvent.observer?] using hobs,
      by simpa [NetEvent.delivery?] using hdel⟩
  | filtersPassed hi =>
    obtain ⟨hallowed, hobs, hdel⟩ := h
    exact ⟨by simpa using hallowed, by simpa using hobs, by simpa using hdel⟩
  | @observed b j hj =>
    obtain ⟨hallowed, hobs, hdel⟩ := h
    refine ⟨by simpa [Allowed] using hallowed, ?_, by simpa [NetEvent.delivery?] using hdel⟩
    simp [NetEvent.observer?, hobs, List.range_succ]
  | @observersPassed b j hj =>
    obtain ⟨hallowed, hobs, hdel⟩ := h
    have hshown : Shown t tr := ⟨j, hobs, registeredBefore_le.trans (by omega)⟩
    simp only [Option.toList_none, List.append_nil]
    cases b with
    | true => exact ⟨hallowed.mp rfl, hshown, by simp [hdel, Topology.receivers]⟩
    | false => exact ⟨hshown, fun ha => absurd (hallowed.mpr ha) (by simp)⟩
  | raised => exact .inl ⟨_, List.mem_append_right _ (List.mem_singleton_self _)⟩
  | sender hk =>
    simp only [Option.toList_none, List.append_nil]
    rwa [Progress, Topology.receivers_succ_sender hk]
  | interfacesPassed hk =>
    obtain ⟨hallowed, hshown, hdel⟩ := h
    simp only [Option.toList_none, List.append_nil]
    exact ⟨hshown, fun _ => hdel.trans (Topology.receivers_of_none hk)⟩

/-- The step lemma for a call of `on_incoming_data`. -/
theorem Progress.deliver {top : Topology n} {f : Frame} {k netif : ℕ} {i : Fin n}
    {e : Event T Obj V} (h : Progress top t f tr (.delivering k))
    (hstart : ∃ e ∈ tr, e.starts t = true) (hk : top.interfaces[k]? = some (netif, i))
    (hne : netif ≠ f.sender) (hcall : e.isCall = true) :
    Progress top t f (tr ++ [.delivered t netif i e]) (.afterCall k e) := by
  obtain ⟨hallowed, hshown, hdel⟩ := h
  have hshown' : Shown t (tr ++ [.delivered t netif i e]) :=
    hshown.frame hstart (by simp [NetEvent.observer?])
  cases e with
  | accepted d u =>
    refine ⟨by simpa [Allowed] using hallowed, hshown', ?_⟩
    simp [NetEvent.delivery?, Event.accepted?, hdel, Topology.receivers_succ hk hne]
  | rejected => exact .inr ⟨hshown', netif, i, .rejected, by simp, rfl⟩
  | scheduleRaised u x => exact .inr ⟨hshown', netif, i, .scheduleRaised u x, by simp, rfl⟩
  | _ => cases hcall

/-- Where `_broadcast` begins nothing is done yet. -/
theorem Progress.init {top : Topology n} {f : Frame} (h : Untouched t tr) :
    Progress top t f tr (.filtering 0) :=
  ⟨fun _ hi => h _ hi rfl, observersOf_eq_nil h, deliveriesOf_eq_nil h⟩

end Traces

/-! ## Along a run -/

section Runs

variable [AddCommGroup T] [LinearOrder T] {top : Topology n} {timeoutMax now : T}
  {N N' : Net T V n} {ev : Option (NetEvent T V n)} {tr : List (NetEvent T V n)}

/-- The worker executes a task because it did, or has just invoked it. -/
theorem Transition.executing {O : Type} [RichCompare O] {s s' : Sys T O V}
    {ev : Option (Event T O V)} (hs : Transition timeoutMax s ev s') {t : Task T O}
    {rest : List (Task T O)} (hw : s'.worker = .executing t rest) :
    (s.worker = .executing t rest ∧ ∃ e, ev = some e ∧ e.ofWorker = false) ∨
      s.worker = .batch (t :: rest) ∧ s.future t.future = .pending ∧
        ∃ r, ev = some (.invoked t r) := by
  cases hs with
  | rejected | cancel | scheduleRaised => exact .inl ⟨hw, _, rfl, rfl⟩
  | accepted | stop =>
    refine .inl ⟨?_, _, rfl, rfl⟩
    cases hb : s.worker <;> simp_all [Worker.notify]
  | invoke hr hb hf =>
    cases hw
    exact .inr ⟨hb, hf, _, rfl⟩
  | _ => cases hw

theorem NetTransition.observers (hs : NetTransition top timeoutMax N ev N') :
    N'.observers = N.observers + registered ev.toList := by
  cases hs with
  | dispatch hw hf hd => cases ev with
    | none => rfl
    | some e =>
      have hreg : e.registers = false := by
        generalize N.dispatch = d at hd
        cases hd <;> rfl
      simp [registered, hreg]
  | @work r c s' ev => cases ev <;> rfl
  | _ => rfl

/-- What a bus passes to an observer. -/
theorem NetTransition.observed {t : Task T Obj} {j : ℕ} {b : Bool}
    (hs : NetTransition top timeoutMax N (some (.observed t j b)) N') :
    t.frame?.isSome ∧ j < N.observers := by
  generalize hev : some (NetEvent.observed t j b) = ev at hs
  cases hs with
  | dispatch hw hf hd =>
    generalize N.dispatch = d at hd
    cases hd with
    | observed hj =>
      cases hev
      exact ⟨by simp [hf], hj⟩
    | _ => cases hev
  | @work r c s' ev => cases ev <;> cases hev
  | _ => cases hev

/-- **What a step does to the frame that the bus executes**: nothing, or it
takes a task, or is the next move of `_broadcast`. -/
inductive FrameMove (top : Topology n) (N : Net T V n) (ev : Option (NetEvent T V n))
    (N' : Net T V n) : Prop
  | other (hdis : N'.dispatch = N.dispatch) (hev : ev.bind NetEvent.dispatches? = none)
      (hinv : ∀ e, ev.bind (NetEvent.on .bus) = some e → e.invoked? = none)
  | take {e : Event T Obj V} (hev : ev = some (.component .bus e)) (he : e.ofWorker = true)
      (hdis : N'.dispatch = .filtering 0)
  | move {t : Task T Obj} {rest : List (Task T Obj)} {f : Frame}
      (hw : (N.sys .bus).worker = .executing t rest) (hsame : N'.sys .bus = N.sys .bus)
      (hf : t.frame? = some f)
      (hd : DispatchStep top N.filters N.observers t f N.dispatch ev N'.dispatch)
  | call {t : Task T Obj} {rest : List (Task T Obj)} {f : Frame} {k netif : ℕ} {i : Fin n}
      {e : Event T Obj V} (hw : (N.sys .bus).worker = .executing t rest)
      (hsame : N'.sys .bus = N.sys .bus) (hf : t.frame? = some f)
      (hd : N.dispatch = .delivering k) (hk : top.interfaces[k]? = some (netif, i))
      (hne : netif ≠ f.sender) (he : e.isCall = true) (hev : ev = some (.delivered t netif i e))
      (hdis : N'.dispatch = .afterCall k e)

theorem NetTransition.frameMove (hs : NetTransition top timeoutMax N ev N') :
    FrameMove top N ev N' := by
  cases hs with
  | take hs hev => exact .take rfl hev rfl
  | dispatch hw hf hd => exact .move hw rfl hf hd
  | deliver hw hf hd hk hne hs he =>
    exact .call hw (by simp) hf hd hk hne he.isCall rfl rfl
  | broadcast f hs he =>
    refine .other rfl rfl fun e hon => ?_
    obtain ⟨-, rfl⟩ := NetEvent.on_component_eq.mp hon
    exact Event.invoked?_of_isCall he.isCall
  | finish hends hs hev hinv =>
    refine .other rfl rfl fun e hon => ?_
    obtain ⟨-, rfl⟩ := NetEvent.on_component_eq.mp hon
    exact hinv
  | @work r c s' ev hs hev hbus =>
    refine .other rfl (by cases ev <;> rfl) fun e hon => ?_
    cases ev with
    | none => cases hon
    | some e' =>
      obtain ⟨hc, rfl⟩ := NetEvent.on_component_eq.mp hon
      exact (hbus hc e' rfl).1
  | request | cancel =>
    refine .other rfl rfl fun e hon => ?_
    obtain ⟨hc, -⟩ := NetEvent.on_component_eq.mp hon
    cases hc
  | launch | stop =>
    refine .other rfl rfl fun e hon => ?_
    obtain ⟨-, rfl⟩ := NetEvent.on_component_eq.mp hon
    rfl
  | _ => exact .other rfl rfl fun e hon => by cases hon

/-- **The dispatch of the frame that the bus executes**, in a state and the
trace that leads to it. -/
structure Dispatching (top : Topology n) (tr : List (NetEvent T V n)) (N : Net T V n) : Prop where
  observers : N.observers = registered tr
  progress : ∀ t rest f, (N.sys .bus).worker = .executing t rest → t.frame? = some f →
    (∃ e ∈ tr, e.starts t = true) ∧ Progress top t f tr N.dispatch

/-- **The step lemma.** -/
theorem Dispatching.step (h : Dispatching top tr N)
    (hc : Conserved (eventsOf .bus tr) (N.sys .bus))
    (hinv : ∀ e ∈ tr, ∀ t, e.dispatches? = some t → t ∈ invokedTasks (eventsOf .bus tr))
    (hs : NetTransition top timeoutMax N ev N') : Dispatching top (tr ++ ev.toList) N' := by
  refine ⟨?_, fun t rest f hexec hf => ?_⟩
  · rw [hs.observers, h.observers, registered, registered, registered, List.countP_append]
  have hgrow : (∃ e ∈ tr, e.starts t = true) → ∃ e ∈ tr ++ ev.toList, e.starts t = true :=
    fun ⟨e, he, hstart⟩ => ⟨e, List.mem_append_left _ he, hstart⟩
  have hstep := hs.component .bus
  -- where the bus stays with its task, this is the one executed before
  have hcurrent : ∀ {u rest' g}, (N.sys .bus).worker = .executing u rest' →
      N'.sys .bus = N.sys .bus → u.frame? = some g →
      u = t ∧ g = f ∧ (∃ e ∈ tr, e.starts u = true) ∧ Progress top u g tr N.dispatch := by
    intro u rest' g hw hsame hg
    have hprog := h.progress u rest' g hw hg
    rw [hsame, hw] at hexec
    obtain ⟨rfl, rfl⟩ := Worker.executing.inj hexec
    exact ⟨rfl, Option.some.inj (hg.symm.trans hf), hprog⟩
  cases hs.frameMove with
  | other hdis hev hnot =>
    have hw : (N.sys .bus).worker = .executing t rest := by
      rcases hstep with hstep | ⟨-, heq⟩
      · rcases hstep.transition.executing hexec with ⟨hw, -⟩ | ⟨-, -, r, hinvoked⟩
        · exact hw
        · cases hnot _ hinvoked
      · rwa [← heq]
    obtain ⟨hstart, hprog⟩ := h.progress t rest f hw hf
    rw [hdis]
    refine ⟨hgrow hstart, hprog.frame hstart fun e he ht => ?_⟩
    rw [Option.mem_toList.mp he, Option.bind_some, ht] at hev
    cases hev
  | @take e hev he hdis =>
    have hon : ev.bind (NetEvent.on .bus) = some e := by
      rw [hev]
      exact NetEvent.on_component_eq.mpr ⟨rfl, rfl⟩
    rcases (hs.of_on hon).transition.executing hexec with
      ⟨-, e', he', hnot⟩ | ⟨-, hpending, r, hinvoked⟩
    · obtain rfl := Option.some.inj he'
      rw [he] at hnot
      cases hnot
    · obtain rfl := Option.some.inj hinvoked
      -- nothing has happened to the frame of a task whose future is pending
      have hnone : Untouched t tr := by
        intro e he ht
        rcases hc.future_of_invoked (hinv e he t ht) with hf | ⟨o, hf⟩ <;>
        · rw [hpending] at hf
          cases hf
      subst hev
      rw [hdis]
      refine ⟨⟨_, List.mem_append_right _ (List.mem_singleton_self _), by simp [NetEvent.starts]⟩,
        Progress.init fun e he => ?_⟩
      rcases List.mem_append.mp he with he | he
      · exact hnone e he
      · rw [List.mem_singleton.mp he]
        simp [NetEvent.dispatches?]
  | move hw hsame hf' hd =>
    obtain ⟨rfl, rfl, hstart, hprog⟩ := hcurrent hw hsame hf'
    exact ⟨hgrow hstart, hprog.step h.observers.ge hd⟩
  | call hw hsame hf' hd hk hne he hev hdis =>
    obtain ⟨rfl, rfl, hstart, hprog⟩ := hcurrent hw hsame hf'
    rw [hd] at hprog
    subst hev
    rw [hdis]
    exact ⟨hgrow hstart, hprog.deliver hstart hk hne he⟩

/-- **The run lemma.** -/
theorem dispatching_of_run (h : Emulation top timeoutMax (Net.new now) tr N)
    (hpops : PopsReturn (eventsOf .bus tr)) : Dispatching top tr N := by
  refine h.invariant (I := fun tr N => PopsReturn (eventsOf .bus tr) → Dispatching top tr N)
    (fun _ => ⟨rfl, fun t rest f hw => by cases hw⟩) ?_ hpops
  intro tr N ev N' hrun ih hs hpops
  rw [eventsOf_append] at hpops
  exact (ih hpops.left).step (conserved_of_run (Emulation.component hrun .bus) hpops.left)
    (fun e he t ht => invoked_of_dispatched hrun hpops.left he ht) hs.transition

/-! ## At its end -/

/-- A task is completed when it is executed. -/
theorem Transition.completing {O : Type} [RichCompare O] {s s' : Sys T O V} {t : Task T O}
    {o : Outcome V} (hs : Transition timeoutMax s (some (.completed t o)) s') :
    ∃ rest, s.worker = .executing t rest := by
  cases hs with
  | complete hr hw => exact ⟨_, hw⟩

/-- **A task of the bus is completed where `_broadcast` has ended.** -/
theorem NetTransition.finishing (hs : NetTransition top timeoutMax N ev N') {t : Task T Obj}
    {o : Outcome V} (hon : ev.bind (NetEvent.on .bus) = some (.completed t o)) :
    N.dispatch.ends o = true ∧ ∃ rest, (N.sys .bus).worker = .executing t rest := by
  constructor
  · cases hs with
    | finish hends hs hev hinv hcomp =>
      obtain ⟨-, rfl⟩ := NetEvent.on_component_eq.mp hon
      rwa [hcomp t o rfl]
    | broadcast f hs he =>
      obtain ⟨-, rfl⟩ := NetEvent.on_component_eq.mp hon
      cases he.isCall
    | take hs hev hcomp =>
      obtain ⟨-, rfl⟩ := NetEvent.on_component_eq.mp hon
      cases hcomp
    | @work r c s' ev hs hev hbus =>
      cases ev with
      | none => cases hon
      | some e =>
        obtain ⟨hc, rfl⟩ := NetEvent.on_component_eq.mp hon
        cases (hbus hc _ rfl).2
    | request hs he =>
      obtain ⟨-, rfl⟩ := NetEvent.on_component_eq.mp hon
      cases he
    | deliver hw hf hd hk hne hs he =>
      obtain ⟨-, rfl⟩ := NetEvent.on_delivered_eq.mp hon
      cases he.isCall
    | cancel | launch | stop =>
      obtain ⟨-, he⟩ := NetEvent.on_component_eq.mp hon
      cases he
    | dispatch hw hf hd => rw [hd.on_eq_none] at hon; cases hon
    | _ => cases hon
  · exact (hs.of_on hon).transition.completing

/-- What is done with a frame when its task is completed: a filter or an
observer raised; or every observer registered before was shown the frame,
and a host refused the call or every receiver was called once. -/
theorem ended_of_completed (h : Emulation top timeoutMax (Net.new now) tr N)
    (hpops : PopsReturn (eventsOf .bus tr)) {t : Task T Obj} {f : Frame}
    (ht : t ∈ completedTasks (eventsOf .bus tr)) (hf : t.frame? = some f) :
    (∃ x, .dispatchRaised t x ∈ tr) ∨ Shown t tr ∧
      ((∃ netif i e, .delivered t netif i e ∈ tr ∧ e.accepted? = none) ∨
        (Allowed t tr →
          (deliveriesOf t tr).map Prod.fst = top.receivers f top.interfaces.length)) := by
  obtain ⟨o, ho⟩ := mem_completedTasks.mp ht
  obtain ⟨pre, e, post, N₁, N₂, rfl, hon, hpre, hs, -, -⟩ := origin_of_mem h ho
  obtain ⟨hends, rest, hw⟩ := hs.transition.finishing hon
  have hpops' := hpops
  rw [eventsOf_append] at hpops'
  obtain ⟨hstart, hprog⟩ :=
    (dispatching_of_run hpre hpops'.left).progress t rest f hw hf
  have hsplit : pre ++ e :: post = (pre ++ [e]) ++ post := by simp
  -- nothing is done with the frame from the completion on
  have huntouched : Untouched t (e :: post) := by
    intro e' he'
    rcases List.mem_cons.mp he' with rfl | he'
    · rw [NetEvent.on_bus_iff.mp hon]
      simp [NetEvent.dispatches?]
    · rw [hsplit] at h hpops
      refine not_dispatched_after h hpops (mem_completedTasks.mpr ⟨o, ?_⟩) he'
      exact List.mem_filterMap.mpr ⟨e, by simp, hon⟩
  have hend := hprog.frame hstart huntouched
  cases hd : N₁.dispatch with
  | returned =>
    rw [hd] at hend
    exact .inr ⟨hend.1, .inr hend.2⟩
  | raised x =>
    rw [hd] at hend
    rcases hend with hraised | ⟨hshown, hrefused⟩
    · exact .inl hraised
    · exact .inr ⟨hshown, .inl hrefused⟩
  | filtering | observing | delivering =>
    rw [hd] at hends
    cases hends

end Runs

end PyLwip
