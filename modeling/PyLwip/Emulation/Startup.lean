import PyLwip.Scheduler.StopRequest
import PyLwip.Emulation.Moves

/-!
# What a started component accepts

`start` launches the threads, and the status becomes `Running` in the first
block of `run`, on the thread. When `start` returns, some of the workers may
not have come so far, and until they have, their executors reject every
call. From then on nothing is rejected until `stop` is called.
-/

namespace PyLwip

open EventSystem

variable {T V : Type} {n : ℕ}

/-! ## Where the caller stands -/

/-- `stop` was called. -/
def Control.stopBegun : Control n → Bool
  | .stopping _ | .joining _ _ | .stopped => true
  | _ => false

/-- The components whose threads `start` has not launched. -/
def Control.unlaunched : Control n → List (Component n)
  | .built => components n
  | .starting todo => todo
  | _ => []

section Control

variable [AddCommGroup T] [LinearOrder T] {top : Topology n} {timeoutMax : T}
  {N N' : Net T V n} {ev : Option (NetEvent T V n)} {tr : List (NetEvent T V n)}

/-- `stop` begins with its call, and does not end. -/
theorem NetTransition.stopBegun (hs : NetTransition top timeoutMax N ev N') :
    (N.control.stopBegun = true → N'.control.stopBegun = true) ∧
      (ev ≠ some .stopCalled → N'.control.stopBegun = true → N.control.stopBegun = true) := by
  cases hs with
  | startCalled hc | launch hc | startReturned hc => simp [hc, Control.stopBegun]
  | stopCalled hc => exact ⟨fun _ => rfl, fun h => absurd rfl h⟩
  | stop hc | join hc | stopReturned hc => simp [hc, Control.stopBegun]
  | _ => exact ⟨id, fun _ => id⟩

theorem stopBegun_of_run (h : Emulation top timeoutMax N tr N')
    (h₀ : N.control.stopBegun = false) (hstop : .stopCalled ∉ tr) :
    N'.control.stopBegun = false := by
  refine h.invariant (I := fun tr N => .stopCalled ∉ tr → N.control.stopBegun = false)
    (fun _ => h₀) ?_ hstop
  intro tr N ev N' _ ih hs hstop
  have hbefore := ih fun h => hstop (List.mem_append_left _ h)
  by_contra hbegun
  have := hs.transition.stopBegun.2 (by rintro rfl; exact hstop (by simp)) (by simpa using hbegun)
  simp [hbefore] at this

theorem stopBegun_mono (h : Emulation top timeoutMax N tr N')
    (h₀ : N.control.stopBegun = true) : N'.control.stopBegun = true :=
  h.state_invariant (I := fun N => N.control.stopBegun = true) h₀
    fun _ _ _ hbegun hs => hs.transition.stopBegun.1 hbegun

/-- **Before `stop` is called nothing is stopped.** -/
theorem no_stop_before (h : Emulation top timeoutMax N tr N')
    (hbegun : N'.control.stopBegun = false) (c : Component n) (b : Bool) :
    .stopRequested b ∉ eventsOf c tr := by
  intro hb
  obtain ⟨pre, e, post, N₁, N₂, -, -, -, -, hpost, ho⟩ := origin_of_mem h hb
  cases ho with
  | stop hc hc' =>
    have := stopBegun_mono hpost (by rw [hc']; rfl)
    simp [hbegun] at this
  | worker he | call he => cases he

/-- Only what `start` has not come to is unborn. -/
theorem unlaunched_of_unborn {now : T} (h : Emulation top timeoutMax (Net.new now) tr N)
    (c : Component n) (hw : (N.sys c).worker = .unborn) : c ∈ N.control.unlaunched := by
  refine h.state_invariant
    (I := fun N => (N.sys c).worker = .unborn → c ∈ N.control.unlaunched)
    (fun _ => mem_components c) ?_ hw
  intro N ev N' ih hs hw
  have hback : (N.sys c).worker = .unborn := by
    by_contra hne
    rcases hs.transition.component c with hstep | ⟨-, heq⟩
    · exact hstep.transition.not_unborn hne hw
    · exact hne (heq ▸ hw)
  have hmem := ih hback
  cases hs.transition with
  | startCalled => exact mem_components c
  | @launch r c' todo s' hc hstep =>
    rw [hc] at hmem
    refine (List.mem_cons.mp hmem).resolve_left ?_
    rintro rfl
    cases hstep.transition with
    | start => simp at hw
  | startReturned hc | stopCalled hc | stop hc | join hc | stopReturned hc =>
    rw [hc] at hmem
    cases hmem
  | _ => exact hmem

/-! ## When a started component accepts -/

/-- **`c` accepts work** from `N` on: until `stop` is called no call of
`schedule_delayed` on its executor is rejected. -/
def Accepts (top : Topology n) (timeoutMax : T) (c : Component n) (N : Net T V n) : Prop :=
  ∀ tr N', Emulation top timeoutMax N tr N' → .stopCalled ∉ tr → .rejected ∉ eventsOf c tr

theorem tell_rejected {c : Component n} {r : T} (delay : T) (action : Obj) (args : List Obj)
    (hst : (N.sys c).executor.status ≠ .running) (hr : (N.sys c).now ≤ r) :
    ∃ N', N.tell timeoutMax r c (.schedule delay 0 action args []) =
      some (N', some (.component c .rejected)) := by
  have hstop : (N.sys c).executor.status = .stopped ∨ (N.sys c).executor.status = .stoppedSync := by
    cases h : (N.sys c).executor.status <;> simp_all
  simp only [Net.tell, Sys.step, if_pos hr, Sys.act, Sys.schedule, Executor.scheduleDelayed,
    if_pos hstop, Option.map_some]
  exact ⟨_, rfl⟩

/-- Where the status is not `Running` the next call is rejected. -/
theorem Accepts.running {c : Component n} (h : Accepts top timeoutMax c N) :
    (N.sys c).executor.status = .running := by
  by_contra hst
  -- a reading at which the next call can be made
  let r : T := max N.now (N.sys c).now
  have hr : N.now ≤ r := le_max_left _ _
  have htell : ∀ (action : Obj) (args : List Obj), ∃ N',
      ({ N with now := r } : Net T V n).tell timeoutMax r c (.schedule 0 0 action args []) =
        some (N', some (.component c .rejected)) :=
    fun action args => tell_rejected 0 action args hst (le_max_right N.now _)
  have hrejects : ∃ N', NetSteps top timeoutMax N (some (.component c .rejected)) N' := by
    cases c with
    | bus =>
      obtain ⟨N', hN'⟩ := htell .broadcast (Frame.args ⟨0, []⟩)
      exact ⟨N', (r, .broadcast ⟨0, []⟩), by rw [Net.step, if_pos hr]; exact hN'⟩
    | host i =>
      obtain ⟨N', hN'⟩ := htell (.setUpInterfaces i) []
      exact ⟨N', (r, .setUpInterfaces i), by rw [Net.step, if_pos hr]; exact hN'⟩
  obtain ⟨N', hs⟩ := hrejects
  exact h _ N' (Run.single hs) (by simp) (by simp [eventsOf, NetEvent.on])

/-- **A started component accepts work exactly if its worker has begun.**
Whenever `start` has returned and `stop` was not called, a component accepts
every call until `stop` is called if and only if its worker has executed the
first block of `run`. -/
theorem accepts_iff {now : T} (h : Emulation top timeoutMax (Net.new now) tr N)
    (hstarted : N.control = .started) (c : Component n) :
    Accepts top timeoutMax c N ↔ (N.sys c).worker ≠ .launched := by
  have hbegun : N.control.stopBegun = false := by rw [hstarted]; rfl
  constructor
  · intro haccepts hw
    have hent := (entered_of_running (h.component c) haccepts.running).1
    simp [hw, Worker.entered] at hent
  · intro hw tr' N' hrun hstop hrej
    -- `start` has returned, so every thread was launched
    have hborn : (N.sys c).worker ≠ .unborn := fun hunborn => by
      have := unlaunched_of_unborn h c hunborn
      rw [hstarted] at this
      cases this
    have hent : (N.sys c).worker.entered = true := Worker.entered_iff.mpr ⟨hborn, hw⟩
    -- the state that the rejected call finds
    obtain ⟨e, he, hon⟩ := List.mem_filterMap.mp hrej
    obtain ⟨pre, post, rfl⟩ := List.append_of_mem he
    obtain ⟨Nₐ, Nᵦ, hpre, hs, -⟩ := hrun.split
    have hnot : .stopCalled ∉ pre := fun h => hstop (List.mem_append_left _ h)
    have hnone := no_stop_before (h.trans hpre) (stopBegun_of_run hpre hbegun hnot) c
    have hentₐ : (Nₐ.sys c).worker.entered = true :=
      entered_of_run (Emulation.component hpre c) hent
    have hrej' : Steps timeoutMax (Nₐ.sys c) (some .rejected) (Nᵦ.sys c) := NetSteps.of_on hs hon
    exact hrej'.transition.not_running
      (running_of_entered (Emulation.component (h.trans hpre) c) hnone hentₐ)

end Control

/-! ## A component that has begun, and one that has not -/

/-- One host with one interface. -/
def oneHost : Topology 1 := ⟨[(7, 0)], by decide⟩

/-- Its host. -/
def onlyHost : Component 1 := .host 0

/-- `start` returns, and the worker of the bus has begun. -/
def begun : Net ℤ ℕ 1 × List (NetEvent ℤ ℕ 1) :=
  outcome (Net.step oneHost 100) (Net.new 0)
    [(0, .control), (0, .control), (0, .work .bus .enterRun), (0, .control), (1, .control)]
    (by decide)

theorem accepts_begun : Accepts oneHost 100 .bus begun.1 := by
  have hrun : Emulation oneHost 100 (Net.new 0) begun.2 begun.1 := run_outcome _ _ _ _
  exact (accepts_iff hrun (by decide) .bus).mpr (by decide)

/-- `set_up_interfaces` right after `start`, before the host's worker has
begun. -/
def setUpTooEarly : Net ℤ ℕ 1 × List (NetEvent ℤ ℕ 1) :=
  outcome (Net.step oneHost 100) begun.1 [(1, .setUpInterfaces 0)] (by decide)

/-- **A started host can reject `set_up_interfaces`.** -/
theorem started_host_rejects :
    ∃ (tr tr' : List (NetEvent ℤ ℕ 1)) (N N' : Net ℤ ℕ 1),
      Emulation oneHost 100 (Net.new 0) tr N ∧ N.control = .started ∧
      Emulation oneHost 100 N tr' N' ∧ .stopCalled ∉ tr ++ tr' ∧
      .rejected ∈ eventsOf (.host 0) tr' := by
  have hbegun : Emulation oneHost 100 (Net.new 0) begun.2 begun.1 := run_outcome _ _ _ _
  have hearly : Emulation oneHost 100 begun.1 setUpTooEarly.2 setUpTooEarly.1 :=
    run_outcome _ _ _ _
  exact ⟨begun.2, setUpTooEarly.2, begun.1, setUpTooEarly.1, hbegun, by decide, hearly,
    by decide, by decide⟩

end PyLwip
