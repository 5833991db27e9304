import PyLwip.Scheduler.Liveness
import PyLwip.Emulation.Shutdown

/-!
# When `EthernetNetwork.stop` returns

`stop` joins the thread of each component after it has stopped it. Whether it
comes back is a question about infinite runs: the scheduler of the operating
system lets every thread that can go on move at some time, the clock passes
every reading, and nobody registers filters and observers without end.

In such a run every body of `_broadcast` comes to its end, so the executors in
a network are executors of fair runs. The stop of a component that is in its
loop ends its thread. The stop of one whose thread has not executed the first
block of `run` is undone by that block, and then `join` waits for ever.
-/

namespace PyLwip

open EventSystem

variable {T V : Type} {n : ℕ}

/-! ## The moves of one thread -/

/-- The thread of the component that makes the move. The bus executes
`_broadcast`. -/
def Move.thread : Move T V n → Option (Component n)
  | .work c _ => some c
  | .dispatch _ => some .bus
  | _ => none

/-- The calls that `_broadcast` has still to make at most, with no more than
`B` filters and observers and with `m` interfaces. -/
def Dispatch.remaining (B m : ℕ) : Dispatch → ℕ
  | .filtering i => (B - i) + B + m + 3
  | .observing _ j => (B - j) + m + 2
  | .delivering k => (m - k) + 1
  | .returned | .raised _ => 0

section Steps

variable [AddCommGroup T] [LinearOrder T] {top : Topology n} {timeoutMax r : T}
  {N N' : Net T V n} {ev : Option (NetEvent T V n)} {m : Move T V n}

/-- What the executor of `c` does in a step: an act at the reading `r`, or
nothing. -/
def ActsBy (timeoutMax r : T) (c : Component n) (a : Option (Act T Obj V)) (N : Net T V n)
    (ev : Option (NetEvent T V n)) (N' : Net T V n) : Prop :=
  match a with
  | some a => Sys.step timeoutMax (N.sys c) (r, a) = some (N'.sys c, ev.bind (NetEvent.on c))
  | none => ev.bind (NetEvent.on c) = none ∧ N'.sys c = N.sys c

/-- A call of an executor, seen from any of them. -/
theorem actsBy_of_tell {c₀ : Component n} {a : Act T Obj V}
    (h : N.tell timeoutMax r c₀ a = some (N', ev)) (c : Component n) :
    ActsBy timeoutMax r c (if c₀ = c then some a else none) N ev N' := by
  obtain ⟨s', e, hs, rfl, rfl⟩ := tell_eq_some h
  by_cases hc : c₀ = c
  · subst hc
    rw [if_pos rfl]
    cases e <;> simpa [ActsBy, NetEvent.on] using hs
  · rw [if_neg hc]
    refine ⟨?_, by simp [Function.update_of_ne (Ne.symm hc)]⟩
    cases e <;> simp [NetEvent.on, hc]

/-- Likewise where the caller does something with what it gets. -/
theorem actsBy_of_map_tell {c₀ : Component n} {a : Act T Obj V}
    {g : Net T V n × Option (NetEvent T V n) → Net T V n × Option (NetEvent T V n)}
    (h : (N.tell timeoutMax r c₀ a).map g = some (N', ev))
    (hg : ∀ x, (g x).1.sys = x.1.sys ∧ (g x).2 = x.2) (c : Component n) :
    ActsBy timeoutMax r c (if c₀ = c then some a else none) N ev N' := by
  obtain ⟨⟨N₁, ev₁⟩, htell, heq⟩ := Option.map_eq_some_iff.mp h
  have hkeeps := hg (N₁, ev₁)
  rw [heq] at hkeeps
  obtain ⟨hsys, rfl⟩ : N'.sys = N₁.sys ∧ ev = ev₁ := hkeeps
  have hacts := actsBy_of_tell htell c
  unfold ActsBy at hacts ⊢
  rwa [hsys]

theorem actsBy_of_controlStep (h : N.controlStep timeoutMax r = some (N', ev))
    (c : Component n) : ∃ a, ActsBy timeoutMax r c a N ev N' := by
  unfold Net.controlStep at h
  split at h
  · cases h; exact ⟨none, rfl, rfl⟩
  · exact ⟨_, actsBy_of_map_tell h (fun _ => ⟨rfl, rfl⟩) c⟩
  · cases h; exact ⟨none, rfl, rfl⟩
  · cases h; exact ⟨none, rfl, rfl⟩
  · exact ⟨_, actsBy_of_map_tell h (fun _ => ⟨rfl, rfl⟩) c⟩
  · split at h
    · cases h; exact ⟨none, rfl, rfl⟩
    · cases h
  · cases h; exact ⟨none, rfl, rfl⟩
  · cases h

theorem actsBy_of_work {c₀ : Component n} {a : Act T Obj V}
    (h : N.work timeoutMax r c₀ a = some (N', ev)) (c : Component n) :
    ActsBy timeoutMax r c (if c₀ = c then some a else none) N ev N' ∧ a.byWorker = true := by
  unfold Net.work at h
  split at h
  · exact ⟨actsBy_of_map_tell h (fun _ => ⟨rfl, rfl⟩) c, rfl⟩
  · split at h
    · exact ⟨actsBy_of_tell h c, rfl⟩
    · cases h
  · split at h
    · next ha => exact ⟨actsBy_of_tell h c, ha⟩
    · cases h

theorem actsBy_of_dispatchStep {answer : Except PyError Bool} {t : Task T Obj} {f : Frame}
    (h : N.dispatchStep top timeoutMax r answer t f = some (N', ev)) (c : Component n) :
    ∃ a, ActsBy timeoutMax r c a N ev N' := by
  unfold Net.dispatchStep at h
  split at h
  · split at h
    · split at h <;>
      · cases h
        exact ⟨none, rfl, rfl⟩
    · cases h; exact ⟨none, rfl, rfl⟩
  · split at h
    · split at h <;>
      · cases h
        exact ⟨none, rfl, rfl⟩
    · cases h; exact ⟨none, rfl, rfl⟩
  · split at h
    · next interface _ =>
      unfold Net.deliver at h
      split at h
      · split at h
        · next s e hs =>
          cases h
          by_cases hc : .host interface.2 = c
          · subst hc
            exact ⟨some _, by simpa [ActsBy, NetEvent.on] using hs⟩
          · exact ⟨none, by simp [NetEvent.on, hc], by simp [Function.update_of_ne (Ne.symm hc)]⟩
        · cases h
      · cases h; exact ⟨none, rfl, rfl⟩
    · cases h; exact ⟨none, rfl, rfl⟩
  · cases h
  · cases h

/-- **A move is an act of an executor or none of its business**, and an act of
the worker if it is the worker's move. -/
theorem actsBy_of_step (h : Net.step top timeoutMax N (r, m) = some (N', ev)) (c : Component n) :
    ∃ a, ActsBy timeoutMax r c a N ev N' ∧
      ∀ a', m = .work c a' → ∃ b ∈ a, b.byWorker = true := by
  unfold Net.step at h
  split at h
  · cases m with
    | broadcast f | setUpInterfaces i | onIncomingData i netif data =>
      exact ⟨_, actsBy_of_tell h c, by simp⟩
    | execute i action delay =>
      refine ⟨_, actsBy_of_map_tell h (fun x => ⟨?_, rfl⟩) c, by simp⟩
      unfold Net.expose
      split <;> rfl
    | cancel i future =>
      simp only [Net.act] at h
      split at h
      · exact ⟨_, actsBy_of_tell h c, by simp⟩
      · cases h
    | addFilter => cases h; exact ⟨none, ⟨rfl, rfl⟩, by simp⟩
    | addObserver => cases h; exact ⟨none, ⟨rfl, rfl⟩, by simp⟩
    | control =>
      obtain ⟨a, ha⟩ := actsBy_of_controlStep h c
      exact ⟨a, ha, by simp⟩
    | work c₀ a =>
      obtain ⟨hacts, hby⟩ := actsBy_of_work h c
      refine ⟨_, hacts, fun a' ha' => ?_⟩
      obtain ⟨rfl, rfl⟩ := Move.work.inj ha'
      exact ⟨a, by simp, hby⟩
    | dispatch answer =>
      simp only [Net.act] at h
      split at h
      · obtain ⟨f, -, hd⟩ := Option.bind_eq_some_iff.mp h
        obtain ⟨a, ha⟩ := actsBy_of_dispatchStep hd c
        exact ⟨a, ha, by simp⟩
      · cases h
  · cases h

/-! ## Who moves `_broadcast` and the caller -/

theorem frame_of_tell {c : Component n} {a : Act T Obj V}
    (h : N.tell timeoutMax r c a = some (N', ev)) :
    N'.dispatch = N.dispatch ∧ N'.control = N.control := by
  obtain ⟨s', e, -, rfl, -⟩ := tell_eq_some h
  exact ⟨rfl, rfl⟩

theorem dispatch_of_controlStep (h : N.controlStep timeoutMax r = some (N', ev)) :
    N'.dispatch = N.dispatch := by
  have htell : ∀ {c a g}, (N.tell timeoutMax r c a).map g = some (N', ev) →
      (∀ x, (g x).1.dispatch = x.1.dispatch) → N'.dispatch = N.dispatch := by
    intro c a g h hg
    obtain ⟨⟨N₁, ev₁⟩, ht, heq⟩ := Option.map_eq_some_iff.mp h
    have hkeeps := hg (N₁, ev₁)
    rw [heq] at hkeeps
    exact hkeeps.trans (frame_of_tell ht).1
  unfold Net.controlStep at h
  split at h
  · cases h; rfl
  · exact htell h fun _ => rfl
  · cases h; rfl
  · cases h; rfl
  · exact htell h fun _ => rfl
  · split at h
    · cases h; rfl
    · cases h
  · cases h; rfl
  · cases h

theorem frame_of_work {c : Component n} {a : Act T Obj V}
    (h : N.work timeoutMax r c a = some (N', ev)) :
    (c ≠ .bus → N'.dispatch = N.dispatch) ∧ N'.control = N.control := by
  unfold Net.work at h
  split at h
  · obtain ⟨s', e, -, heq⟩ := map_tell_eq_some h
    cases heq
    exact ⟨fun hc => absurd rfl hc, rfl⟩
  · split at h
    · exact ⟨fun hc => absurd rfl hc, (frame_of_tell h).2⟩
    · cases h
  · split at h
    · exact ⟨fun _ => (frame_of_tell h).1, (frame_of_tell h).2⟩
    · cases h

/-- **A call of `_broadcast` is one less to make.** -/
theorem remaining_of_dispatchStep {answer : Except PyError Bool} {t : Task T Obj} {f : Frame}
    (h : N.dispatchStep top timeoutMax r answer t f = some (N', ev)) {B : ℕ}
    (hf : N.filters ≤ B) (ho : N.observers ≤ B) :
    N'.dispatch.remaining B top.interfaces.length < N.dispatch.remaining B top.interfaces.length ∧
      N'.control = N.control := by
  unfold Net.dispatchStep at h
  split at h
  · next i hd =>
    rw [hd]
    split at h
    · split at h <;>
      · cases h
        simp only [Dispatch.remaining, and_true]
        omega
    · cases h
      simp only [Dispatch.remaining, and_true]
      omega
  · next b j hd =>
    rw [hd]
    split at h
    · split at h <;>
      · cases h
        simp only [Dispatch.remaining, and_true]
        omega
    · cases h
      refine ⟨?_, rfl⟩
      cases b with
      | true => simp only [Dispatch.remaining, if_true]; omega
      | false => simp [Dispatch.remaining]
  · next k hd =>
    rw [hd]
    split at h
    · next interface hk =>
      have hlt : k < top.interfaces.length := (List.getElem?_eq_some_iff.mp hk).1
      unfold Net.deliver at h
      split at h
      · split at h
        · next s e hs =>
          cases h
          have hcall : (Dispatch.afterCall k e).remaining B top.interfaces.length ≤
              (Dispatch.delivering (k + 1)).remaining B top.interfaces.length := by
            unfold Dispatch.afterCall
            split <;> simp [Dispatch.remaining]
          refine ⟨hcall.trans_lt ?_, rfl⟩
          simp only [Dispatch.remaining]
          omega
        · cases h
      · cases h
        simp only [Dispatch.remaining, and_true]
        omega
    · cases h
      simp [Dispatch.remaining]
  · cases h
  · cases h

/-- **`_broadcast` is moved by the thread of the bus**, and the caller by its
own lines. -/
theorem frame_of_step (h : Net.step top timeoutMax N (r, m) = some (N', ev)) :
    (m.thread ≠ some .bus → N'.dispatch = N.dispatch) ∧
      (m ≠ .control → N'.control = N.control) := by
  unfold Net.step at h
  split at h
  · cases m with
    | broadcast f | setUpInterfaces i | onIncomingData i netif data =>
      exact ⟨fun _ => (frame_of_tell h).1, fun _ => (frame_of_tell h).2⟩
    | execute i action delay =>
      obtain ⟨s', e, -, heq⟩ := map_tell_eq_some h
      unfold Net.expose at heq
      split at heq <;>
      · cases heq
        exact ⟨fun _ => rfl, fun _ => rfl⟩
    | cancel i future =>
      simp only [Net.act] at h
      split at h
      · exact ⟨fun _ => (frame_of_tell h).1, fun _ => (frame_of_tell h).2⟩
      · cases h
    | addFilter | addObserver => cases h; exact ⟨fun _ => rfl, fun _ => rfl⟩
    | control => exact ⟨fun _ => (dispatch_of_controlStep h :), fun hm => absurd rfl hm⟩
    | work c a =>
      obtain ⟨hdispatch, hcontrol⟩ := frame_of_work h
      exact ⟨fun hc => hdispatch fun hbus => hc (congrArg some hbus), fun _ => hcontrol⟩
    | dispatch answer =>
      refine ⟨fun hm => absurd rfl hm, fun _ => ?_⟩
      simp only [Net.act] at h
      split at h
      · obtain ⟨f, -, hd⟩ := Option.bind_eq_some_iff.mp h
        exact (remaining_of_dispatchStep hd (le_max_left _ _) (le_max_right _ _)).2
      · cases h
  · cases h

theorem remaining_of_dispatch {answer : Except PyError Bool}
    (h : Net.step top timeoutMax N (r, .dispatch answer) = some (N', ev)) {B : ℕ}
    (hf : N.filters ≤ B) (ho : N.observers ≤ B) :
    N'.dispatch.remaining B top.interfaces.length <
      N.dispatch.remaining B top.interfaces.length := by
  unfold Net.step at h
  split at h
  · simp only [Net.act] at h
    split at h
    · obtain ⟨f, -, hd⟩ := Option.bind_eq_some_iff.mp h
      exact (remaining_of_dispatchStep hd hf ho).1
    · cases h
  · cases h

/-- `join` waits for the thread. -/
theorem NetTransition.joining (hs : NetTransition top timeoutMax N ev N') {c : Component n}
    {todo : List (Component n)} (hc : N.control = .joining c todo) :
    N'.control = .joining c todo ∨
      (N.sys c).worker.ended = true ∧ N'.control = .stopping todo := by
  cases hs with
  | join hj hend =>
    rw [hc] at hj
    cases hj
    exact .inr ⟨hend, rfl⟩
  | startCalled hj | launch hj | startReturned hj | stopCalled hj | stop hj | stopReturned hj =>
    rw [hc] at hj
    cases hj
  | _ => exact .inl hc

/-- The step that stops a component finds the caller at it. -/
theorem NetTransition.of_stopRequested {c : Component n}
    (hs : NetTransition top timeoutMax N (some (.component c (.stopRequested true))) N') :
    ∃ todo, N.control = .stopping (c :: todo) ∧ N'.control = .joining c todo := by
  cases hs.origin (NetEvent.on_component c _) with
  | stop hc hc' => exact ⟨_, hc, hc'⟩
  | worker he | call he => cases he

end Steps

/-! ## Infinite runs of a network -/

/-- The caller of `start` or `stop` can go on: it is in the middle of one of
them, and does not wait for a thread that has not ended. -/
def Net.CallerRunnable (N : Net T V n) : Prop :=
  match N.control with
  | .starting _ | .stopping _ => True
  | .joining c _ => (N.sys c).worker.ended = true
  | _ => False

/-- **An infinite run of a network**: from each position to the next a move at
a reading of the clock, or a pause. Every reading is passed, every thread that
can go on for ever moves, and so does the caller of `start` and `stop`; and
there is a bound on the filters and observers that are registered. -/
structure NetTimeline [AddCommGroup T] [LinearOrder T] (top : Topology n) (timeoutMax : T)
    (N : ℕ → Net T V n) (ev : ℕ → Option (NetEvent T V n)) (clock : ℕ → T)
    (label : ℕ → Option (T × Move T V n)) : Prop where
  start : ∃ now, N 0 = Net.new now
  next : ∀ i, (∃ r m, label i = some (r, m) ∧ clock i ≤ r ∧
    Net.step top timeoutMax (N i) (r, m) = some (N (i + 1), ev i)) ∨
    label i = none ∧ ev i = none ∧ N (i + 1) = N i
  clock_mono : Monotone clock
  clock_unbounded : ∀ τ, ∃ i, τ ≤ clock i
  threads : ∀ c, WeaklyFair (fun i => ((N i).sys c).worker.Runnable (clock i))
    fun i => ∃ r m, label i = some (r, m) ∧ m.thread = some c
  caller : WeaklyFair (fun i => (N i).CallerRunnable) fun i => ∃ r, label i = some (r, .control)
  registered : ∃ B, ∀ i, (N i).filters ≤ B ∧ (N i).observers ≤ B

namespace NetTimeline

variable [AddCommGroup T] [LinearOrder T] {top : Topology n} {timeoutMax : T} {N : ℕ → Net T V n}
  {ev : ℕ → Option (NetEvent T V n)} {clock : ℕ → T} {label : ℕ → Option (T × Move T V n)}
  {i j : ℕ} {c : Component n} {todo : List (Component n)}

/-- From every position to every later one there is a finite run. -/
theorem run (h : NetTimeline top timeoutMax N ev clock label) (hij : i ≤ j) :
    ∃ tr, Emulation top timeoutMax (N i) tr (N j) := by
  induction j, hij using Nat.le_induction with
  | base => exact ⟨[], Run.refl⟩
  | succ j hij ih =>
    obtain ⟨tr, hrun⟩ := ih
    rcases h.next j with ⟨r, m, -, -, hstep⟩ | ⟨-, -, heq⟩
    · exact ⟨_, hrun.step ⟨_, hstep⟩⟩
    · exact ⟨tr, heq ▸ hrun⟩

theorem reached (h : NetTimeline top timeoutMax N ev clock label) (i : ℕ) :
    ∃ now, Emulation top timeoutMax (Net.new now) (traceTo ev i) (N i) := by
  obtain ⟨now, hnow⟩ := h.start
  refine ⟨now, ?_⟩
  induction i with
  | zero => exact hnow ▸ Run.refl
  | succ i ih =>
    rw [traceTo_succ]
    rcases h.next i with ⟨r, m, -, -, hstep⟩ | ⟨-, hev, heq⟩
    · exact ih.step ⟨_, hstep⟩
    · rw [hev, heq]
      simpa using ih

/-- **A body of `_broadcast` comes to its end**: the thread of the bus makes no
calls of it for ever. -/
theorem bus_works (h : NetTimeline top timeoutMax N ev clock label) :
    WeaklyFair (fun i => ((N i).sys .bus).worker.Runnable (clock i))
      fun i => ∃ r a, label i = some (r, .work .bus a) := by
  obtain ⟨B, hB⟩ := h.registered
  intro i
  refine Eventually.of_rank (P := fun _ => True)
    (fun j => (N j).dispatch.remaining B top.interfaces.length) ?_ ?_ (h.threads .bus) trivial
  · intro j hij _
    by_cases hwork : ∃ r a, label j = some (r, .work .bus a)
    · exact .inl (.now fun _ => hwork)
    refine .inr ⟨trivial, ?_⟩
    rcases h.next j with ⟨r, m, hlabel, -, hstep⟩ | ⟨hlabel, -, heq⟩
    · by_cases hbus : m.thread = some .bus
      · -- its only other moves are those of `_broadcast`
        cases m with
        | work c a =>
          obtain rfl : c = .bus := Option.some.inj hbus
          exact absurd ⟨r, a, hlabel⟩ hwork
        | dispatch answer =>
          have hlt := remaining_of_dispatch hstep (hB j).1 (hB j).2
          exact ⟨hlt.le, fun _ => hlt⟩
        | _ => cases hbus
      · rw [(frame_of_step hstep).1 hbus]
        refine ⟨le_rfl, ?_⟩
        rintro ⟨r', m', hlabel', hm'⟩
        rw [hlabel] at hlabel'
        cases hlabel'
        exact absurd hm' hbus
    · rw [heq]
      refine ⟨le_rfl, ?_⟩
      rintro ⟨r, m, hlabel', -⟩
      rw [hlabel] at hlabel'
      cases hlabel'
  · intro j _ _ hnot
    by_contra hrun
    exact hnot fun h => absurd h hrun

/-- **The executors in a network** are executors of fair runs. -/
theorem component (h : NetTimeline top timeoutMax N ev clock label) (c : Component n) :
    Timeline timeoutMax (fun i => (N i).sys c) (fun i => (ev i).bind (NetEvent.on c)) clock
      fun i => ∃ r a, label i = some (r, .work c a) where
  start := by
    obtain ⟨now, hnow⟩ := h.start
    exact ⟨now, by rw [hnow]; rfl⟩
  next i := by
    rcases h.next i with ⟨r, m, hlabel, hclock, hstep⟩ | ⟨hlabel, hev, heq⟩
    · obtain ⟨a, hacts, hwork⟩ := actsBy_of_step hstep c
      have hby : (∃ r' a', label i = some (r', .work c a')) → ∃ b ∈ a, b.byWorker = true := by
        rintro ⟨r', a', hlabel'⟩
        rw [hlabel] at hlabel'
        cases hlabel'
        exact hwork a' rfl
      cases a with
      | some a =>
        refine .inl ⟨r, a, hclock, hacts, fun hm => ?_⟩
        obtain ⟨b, hb, hbw⟩ := hby hm
        cases hb
        exact hbw
      | none =>
        refine .inr ⟨fun hm => ?_, hacts⟩
        obtain ⟨b, hb, -⟩ := hby hm
        cases hb
    · refine .inr ⟨?_, by rw [hev]; rfl, by rw [heq]⟩
      rintro ⟨r, a, hlabel'⟩
      rw [hlabel] at hlabel'
      cases hlabel'
  clock_mono := h.clock_mono
  clock_unbounded := h.clock_unbounded
  fair := by
    cases c with
    | bus => exact h.bus_works
    | host k =>
      intro i
      obtain ⟨j, hij, hj⟩ := h.threads (.host k) i
      refine ⟨j, hij, fun hrun => ?_⟩
      obtain ⟨r, m, hlabel, hm⟩ := hj hrun
      cases m with
      | work c a =>
        obtain rfl : c = .host k := Option.some.inj hm
        exact ⟨r, a, hlabel⟩
      | _ => cases hm

/-! ## Where the caller stands -/

variable [IsOrderedAddMonoid T]

end NetTimeline

/-! ## A network that is stopped, and one that is stopped too early -/

/-- The networks that a list of labels leads through, from the one with a single
host on. -/
abbrev netAt (ls : List (ℤ × Move ℤ ℕ 1)) : ℕ → Net ℤ ℕ 1 :=
  states (Net.step oneHost 100) (Net.new 0) ls

abbrev eventAt (ls : List (ℤ × Move ℤ ℕ 1)) : ℕ → Option (NetEvent ℤ ℕ 1) :=
  events (Net.step oneHost 100) (Net.new 0) ls

/-- Labels that are not before their positions lead through a fair run of a
network if they leave threads and a caller that cannot go on. -/
theorem netTimeline_of_labels {ls : List (ℤ × Move ℤ ℕ 1)}
    (hclock : ∀ (i : ℕ) (_ : i < ls.length), (i : ℤ) ≤ ls[i].1)
    (hrest : ∀ c now, ¬ ((netAt ls ls.length).sys c).worker.Runnable now)
    (hcaller : ¬ (netAt ls ls.length).CallerRunnable) :
    NetTimeline oneHost 100 (netAt ls) (eventAt ls) (fun i => (i : ℤ))
      (performed (Net.step oneHost 100) (Net.new 0) ls) where
  start := ⟨0, rfl⟩
  next i := by
    refine (states_succ (Net.step oneHost 100) (Net.new 0) ls i).imp_left ?_
    rintro ⟨l, hl, hstep⟩
    obtain ⟨hi, rfl⟩ := List.getElem?_eq_some_iff.mp (getElem?_of_performed hl)
    exact ⟨_, _, hl, hclock i hi, hstep⟩
  clock_mono _ _ hij := Int.ofNat_le.mpr hij
  clock_unbounded τ := ⟨τ.toNat, Int.self_le_toNat τ⟩
  threads c i := by
    refine ⟨max i ls.length, le_max_left _ _, fun hrun => ?_⟩
    simp only [states_of_length_le (le_max_right i ls.length)] at hrun
    exact absurd hrun (hrest c _)
  caller i := by
    refine ⟨max i ls.length, le_max_left _ _, fun hrun => ?_⟩
    simp only [states_of_length_le (le_max_right i ls.length)] at hrun
    exact absurd hrun hcaller
  registered := by
    obtain ⟨B, hB⟩ := states_bounded (Net.step oneHost 100) (Net.new 0) ls
      fun N => N.filters + N.observers
    exact ⟨B, fun i => ⟨(Nat.le_add_right _ _).trans (hB i), (Nat.le_add_left _ _).trans (hB i)⟩⟩

/-- Both workers are all there are. -/
theorem rest_of_both {N : Net ℤ ℕ 1} (hbus : ∀ now, ¬ (N.sys .bus).worker.Runnable now)
    (hhost : ∀ now, ¬ (N.sys onlyHost).worker.Runnable now) (c : Component 1) (now : ℤ) :
    ¬ (N.sys c).worker.Runnable now := by
  cases c with
  | bus => exact hbus now
  | host i =>
    obtain rfl : i = 0 := Subsingleton.elim _ _
    exact hhost now

end PyLwip
