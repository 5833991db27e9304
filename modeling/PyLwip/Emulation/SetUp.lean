import PyLwip.Emulation.Arrival

/-!
# The call of `set_up_interfaces`

`EthernetNetwork.set_up_interfaces` goes through the hosts: it calls
`Host.set_up_interfaces` of each, which schedules the set-up on the host's
executor, and waits for the result before it goes on. The caller is a thread
of its own beside the network's; what it waits for is a future, and what it
raises is what a call or an action raises.
-/

namespace PyLwip

open EventSystem

variable {T V : Type} {n : ℕ}

/-! ## The caller -/

/-- Where the caller of `set_up_interfaces` stands, with the hosts that are
left. -/
inductive SetUp (T : Type) (n : ℕ)
  /-- The next host's `schedule_delayed` is to be called. -/
  | calling (todo : List (Fin n))
  /-- In `result` of the future of `task`. -/
  | waiting (i : Fin n) (task : Task T Obj) (todo : List (Fin n))
  | returned
  | raised (error : PyError)
  /-- `result` has raised `CancelledError`. -/
  | cancelled
deriving DecidableEq

namespace SetUp

/-- Where the caller stands after its next line, in the network `N` and at a
position with the move `m` and the event `ev`; `none` if it cannot go on
there. -/
def next (N : Net T V n) (m : Option (Move T V n)) (ev : Option (NetEvent T V n)) :
    SetUp T n → Option (SetUp T n)
  | .calling [] => some .returned
  | .calling (i :: todo) =>
    match m, ev with
    | some (.setUpInterfaces i'), some (.component _ (.accepted _ t)) =>
      if i' = i then some (.waiting i t todo) else none
    | some (.setUpInterfaces i'), some (.component _ .rejected) =>
      if i' = i then some (.raised .stopped) else none
    | some (.setUpInterfaces i'), some (.component _ (.scheduleRaised _ x)) =>
      if i' = i then some (.raised x) else none
    | _, _ => none
  | .waiting i t todo =>
    match (N.sys (.host i)).future t.future with
    | .finished (.result _) => some (.calling todo)
    | .finished (.exception x) => some (.raised x)
    | .cancelled | .cancelledAndNotified => some .cancelled
    | .pending | .running => none
  | .returned | .raised _ | .cancelled => none

/-- The line that calls a host. -/
theorem next_calling {N : Net T V n} {m : Option (Move T V n)} {ev : Option (NetEvent T V n)}
    {k : Fin n} {todo : List (Fin n)} {l : SetUp T n}
    (h : next N m ev (.calling (k :: todo)) = some l) :
    m = some (.setUpInterfaces k) ∧
      ((∃ c d t, ev = some (.component c (.accepted d t)) ∧ l = .waiting k t todo) ∨
        ∃ c e x, ev = some (.component c e) ∧ e.accepted? = none ∧ l = .raised x) := by
  simp only [next] at h
  split at h
  · split at h <;> cases h
    next hk => exact ⟨by rw [hk], .inl ⟨_, _, _, rfl, rfl⟩⟩
  · split at h <;> cases h
    next hk => exact ⟨by rw [hk], .inr ⟨_, _, _, rfl, rfl, rfl⟩⟩
  · split at h <;> cases h
    next hk => exact ⟨by rw [hk], .inr ⟨_, _, _, rfl, rfl, rfl⟩⟩
  · cases h

/-- The line that waits for a result. -/
theorem next_waiting {N : Net T V n} {m : Option (Move T V n)} {ev : Option (NetEvent T V n)}
    {k : Fin n} {t : Task T Obj} {todo : List (Fin n)} {l : SetUp T n}
    (h : next N m ev (.waiting k t todo) = some l) :
    (∃ v, (N.sys (.host k)).future t.future = .finished (.result v) ∧ l = .calling todo) ∨
      (∃ x, (N.sys (.host k)).future t.future = .finished (.exception x) ∧ l = .raised x) ∨
      (N.sys (.host k)).isCancelled t.future = true ∧ l = .cancelled := by
  simp only [next] at h
  unfold Sys.isCancelled
  cases hf : (N.sys (.host k)).future t.future with
  | finished o =>
    cases o with
    | result v =>
      simp only [hf] at h
      exact .inl ⟨v, rfl, (Option.some.inj h).symm⟩
    | exception x =>
      simp only [hf] at h
      exact .inr (.inl ⟨x, rfl, (Option.some.inj h).symm⟩)
  | cancelled | cancelledAndNotified =>
    simp only [hf] at h
    exact .inr (.inr ⟨rfl, (Option.some.inj h).symm⟩)
  | pending | running => simp [hf] at h

/-- The caller is not in `result` of a future that is not done, and not at the
end. -/
def Runnable (N : Net T V n) : SetUp T n → Prop
  | .calling _ => True
  | .waiting i t _ => ((N.sys (.host i)).future t.future).isDone = true
  | .returned | .raised _ | .cancelled => False

end SetUp

/-- **A call of `set_up_interfaces`** from the position `i` on: at each position
the caller executes its next line or stays where it is, and where it can go
on for ever it does so. -/
structure SetUpCall (N : ℕ → Net T V n) (ev : ℕ → Option (NetEvent T V n))
    (label : ℕ → Option (T × Move T V n)) (line : ℕ → SetUp T n) (i : ℕ) : Prop where
  start : line i = .calling (List.finRange n)
  next : ∀ j, i ≤ j → line (j + 1) = line j ∨
    (line j).next (N j) ((label j).map Prod.snd) (ev j) = some (line (j + 1))
  fair : WeaklyFair (fun j => (line j).Runnable (N j)) fun j =>
    (line j).next (N j) ((label j).map Prod.snd) (ev j) = some (line (j + 1))

/-- **The host `k` is set up** between the positions `i` and `j`: its
`_set_up_interfaces` was scheduled, and its thread has executed it without
an exception. -/
def SetsUp (ev : ℕ → Option (NetEvent T V n)) (i j : ℕ) (k : Fin n) : Prop :=
  ∃ (t : Task T Obj) (d : T) (v : V) (m p : ℕ), i ≤ m ∧ m < p ∧ p < j ∧
    t.action = .setUpInterfaces k ∧ ev m = some (.component (.host k) (.accepted d t)) ∧
    ev p = some (.component (.host k) (.completed t (.result v)))

theorem SetsUp.mono {ev : ℕ → Option (NetEvent T V n)} {i j j' : ℕ} {k : Fin n}
    (h : SetsUp ev i j k) (hj : j ≤ j') : SetsUp ev i j' k := by
  obtain ⟨t, d, v, m, p, him, hmp, hpj, hrest⟩ := h
  exact ⟨t, d, v, m, p, him, hmp, by omega, hrest⟩

/-- **What keeps `set_up_interfaces` from returning**: a host does not accept the
call, its set-up raises, or its thread leaves the set-up behind. -/
inductive SetUpFails (N : ℕ → Net T V n) (ev : ℕ → Option (NetEvent T V n))
    (line : ℕ → SetUp T n) (j : ℕ) : Prop
  | notAccepted {k : Fin n} {todo : List (Fin n)} {e : Event T Obj V}
      (hline : line j = .calling (k :: todo)) (hgone : line (j + 1) ≠ line j)
      (hev : ev j = some (.component (.host k) e)) (he : e.accepted? = none)
  | raised {k : Fin n} {t : Task T Obj} {todo : List (Fin n)} {x : PyError}
      (hline : line j = .waiting k t todo)
      (hx : ((N j).sys (.host k)).future t.future = .finished (.exception x))
  | leftBehind {k : Fin n} {t : Task T Obj} {todo : List (Fin n)}
      (hline : line j = .waiting k t todo)
      (hleft : Timeline.LeftBehind (fun j => (N j).sys (.host k))
        (fun j => (ev j).bind (NetEvent.on (.host k))) t j)

/-! ## Its lines -/

namespace SetUpCall

variable {N : ℕ → Net T V n} {ev : ℕ → Option (NetEvent T V n)}
  {label : ℕ → Option (T × Move T V n)} {line : ℕ → SetUp T n} {i j : ℕ}

/-- At its end the caller stays. -/
theorem stays (h : SetUpCall N ev label line i) (hij : i ≤ j)
    (hend : ∀ N m ev, (line j).next (V := V) N m ev = none) {k : ℕ} (hjk : j ≤ k) :
    line k = line j := by
  induction k, hjk using Nat.le_induction with
  | base => rfl
  | succ k hjk ih =>
    rcases h.next k (hij.trans hjk) with heq | hnext
    · exact heq.trans ih
    · rw [ih, hend] at hnext
      cases hnext

/-- **A line that can be executed in the end is executed.** -/
theorem moves (h : SetUpCall N ev label line i) (hij : i ≤ j)
    (hrun : Eventually j fun q => ∀ p, q ≤ p → (line j).Runnable (N p)) :
    ∃ p, j ≤ p ∧ line p = line j ∧
      (line j).next (N p) ((label p).map Prod.snd) (ev p) = some (line (p + 1)) := by
  by_contra hnot
  have hsame : ∀ p, j ≤ p → line p = line j := by
    intro p hjp
    induction p, hjp using Nat.le_induction with
    | base => rfl
    | succ p hjp ih =>
      rcases h.next p (hij.trans hjp) with heq | hnext
      · exact heq.trans ih
      · exact absurd ⟨p, hjp, ih, ih ▸ hnext⟩ hnot
  obtain ⟨q, hjq, hq⟩ := hrun
  obtain ⟨p, hqp, hp⟩ := h.fair q
  have hjp : j ≤ p := hjq.trans hqp
  replace hp : (line p).Runnable (N p) →
    (line p).next (N p) ((label p).map Prod.snd) (ev p) = some (line (p + 1)) := hp
  rw [hsame p hjp] at hp
  exact hnot ⟨p, hjp, hsame p hjp, hp (hq p hqp)⟩

end SetUpCall

/-! ## The calls -/

section Calls

variable [AddCommGroup T] [LinearOrder T] {top : Topology n} {timeoutMax r : T}

/-- What a call of `Host.set_up_interfaces` comes to. -/
theorem setUp_of_step {N N' : Net T V n} {ev : Option (NetEvent T V n)} {k : Fin n}
    (h : Net.step top timeoutMax N (r, .setUpInterfaces k) = some (N', ev)) :
    N'.exposed = N.exposed ∧ ∃ e, ev = some (.component (.host k) e) ∧
      e.Calls 0 (.setUpInterfaces k) [] := by
  unfold Net.step at h
  split at h
  · obtain ⟨s', o, hs, rfl, rfl⟩ := tell_eq_some h
    obtain ⟨e, rfl, hcalls⟩ := calls_of_step hs
    exact ⟨rfl, e, rfl, hcalls⟩
  · cases h

namespace NetTimeline

variable {N : ℕ → Net T V n} {ev : ℕ → Option (NetEvent T V n)} {clock : ℕ → T}
  {label : ℕ → Option (T × Move T V n)} {i j : ℕ} {k : Fin n} {t : Task T Obj} {d : T}

/-- **A set-up that was scheduled**, by a caller that does not hand out its
future. -/
structure SetUpAccepted (N : ℕ → Net T V n) (ev : ℕ → Option (NetEvent T V n)) (k : Fin n)
    (t : Task T Obj) (i : ℕ) : Prop where
  action : t.action = .setUpInterfaces k
  accepted : ∃ d, ev i = some (.component (.host k) (.accepted d t))
  withheld : (N (i + 1)).exposed = (N i).exposed

/-- The caller's call. -/
theorem setUp_of_label (h : NetTimeline top timeoutMax N ev clock label)
    (hlabel : (label i).map Prod.snd = some (.setUpInterfaces k)) :
    ∃ e, ev i = some (.component (.host k) e) ∧ e.isCall = true ∧
      ∀ d t, e = .accepted d t → SetUpAccepted N ev k t i := by
  obtain ⟨⟨r, m⟩, hl, rfl⟩ := Option.map_eq_some_iff.mp hlabel
  rcases h.next i with ⟨r', m', hl', -, hstep⟩ | ⟨hl', -⟩
  · rw [hl] at hl'
    cases hl'
    obtain ⟨hexp, e, he, hcalls⟩ := setUp_of_step hstep
    refine ⟨e, he, hcalls.isCall, ?_⟩
    rintro d t rfl
    exact ⟨(hcalls.pushed t rfl).2.1, ⟨d, he⟩, hexp⟩
  · rw [hl] at hl'
    cases hl'

omit [AddCommGroup T] [LinearOrder T] in
/-- The host takes part in it. -/
theorem SetUpAccepted.on (hacc : SetUpAccepted N ev k t i) :
    ∃ d, (ev i).bind (NetEvent.on (.host k)) = some (.accepted d t) := by
  obtain ⟨d, hev⟩ := hacc.accepted
  exact ⟨d, by rw [hev]; exact NetEvent.on_component_eq.mpr ⟨rfl, rfl⟩⟩

/-- The future of a set-up is not handed out. -/
theorem setUp_withheld (h : NetTimeline top timeoutMax N ev clock label)
    (hacc : SetUpAccepted N ev k t i) (hij : i + 1 ≤ j) :
    t.future ∉ (N j).exposed k ∧ t.future < ((N j).sys (.host k)).nextFuture := by
  obtain ⟨d, hon⟩ := hacc.on
  induction j, hij using Nat.le_induction with
  | base =>
    obtain ⟨hfut, hnext⟩ := ((h.component (.host k)).transition hon).nextFuture.2 t rfl
    refine ⟨fun hmem => ?_, by omega⟩
    rw [hacc.withheld] at hmem
    obtain ⟨now, hreached⟩ := h.reached i
    have := (withheld_of_run hreached).numbered k _ hmem
    omega
  | succ j _ ih =>
    obtain ⟨hnot, hlt⟩ := ih
    rcases h.next j with ⟨r, m, -, -, hstep⟩ | ⟨-, -, heq⟩
    · have hs := netTransition_of_step hstep
      refine ⟨fun hmem => ?_, hlt.trans_le (hs.nextFuture _)⟩
      rcases (hs.exposed k _).2 hmem with hmem | ⟨hnew, -⟩
      · exact hnot hmem
      · omega
    · rw [heq]
      exact ⟨hnot, hlt⟩

/-- **Nobody cancels a set-up.** -/
theorem setUp_not_cancelled (h : NetTimeline top timeoutMax N ev clock label)
    (hacc : SetUpAccepted N ev k t i) (hij : i < j) :
    ((N j).sys (.host k)).isCancelled t.future = false := by
  by_contra hcan
  obtain ⟨now, hreached⟩ := h.reached j
  have hmem := cancelled_of_isCancelled (Emulation.component hreached (.host k))
    (Bool.eq_true_of_not_eq_false hcan)
  exact (h.setUp_withheld hacc hij).1 ((withheld_of_run hreached).cancelled k _ _ hmem)

/-- **A set-up whose future is set** was executed by the host's thread. -/
theorem setsUp_of_finished (h : NetTimeline top timeoutMax N ev clock label)
    (hacc : SetUpAccepted N ev k t i) {v : V}
    (hf : ((N j).sys (.host k)).future t.future = .finished (.result v)) {i₀ : ℕ} (hi : i₀ ≤ i) :
    SetsUp ev i₀ j k := by
  obtain ⟨d, hev⟩ := hacc.accepted
  obtain ⟨d', hon⟩ := hacc.on
  obtain ⟨p, hip, hpj, hcomp⟩ := (h.component (.host k)).completed_of_finished hon hf
  exact ⟨t, d, v, i, p, hi, hip, hpj, hacc.action, hev, h.component_of_on hcomp rfl⟩

end NetTimeline

/-! ## What it has done -/

/-- **What the caller has done** where it stands: the hosts that are not left are
set up, and the one that it waits for has accepted the call. -/
def SetUp.Done (N : ℕ → Net T V n) (ev : ℕ → Option (NetEvent T V n)) (i j : ℕ) :
    SetUp T n → Prop
  | .calling todo => ∀ k, k ∈ todo ∨ SetsUp ev i j k
  | .waiting k t todo =>
    (∃ m, i ≤ m ∧ m < j ∧ NetTimeline.SetUpAccepted N ev k t m) ∧
      ∀ k', k' = k ∨ k' ∈ todo ∨ SetsUp ev i j k'
  | .returned => ∀ k, SetsUp ev i j k
  | .raised _ | .cancelled => True

namespace SetUpCall

variable {N : ℕ → Net T V n} {ev : ℕ → Option (NetEvent T V n)} {clock : ℕ → T}
  {label : ℕ → Option (T × Move T V n)} {line : ℕ → SetUp T n} {i j : ℕ} {k : Fin n}
  {t : Task T Obj} {todo : List (Fin n)}

/-- **The step lemma.** -/
theorem done_next (hcall : SetUpCall N ev label line i)
    (h : NetTimeline top timeoutMax N ev clock label) (hij : i ≤ j)
    (hdone : (line j).Done N ev i j) : (line (j + 1)).Done N ev i (j + 1) := by
  rcases hcall.next j hij with heq | hnext
  · rw [heq]
    cases hl : line j with
    | calling todo =>
      rw [hl] at hdone
      exact fun k => (hdone k).imp_right fun h => h.mono (by omega)
    | waiting k t todo =>
      rw [hl] at hdone
      obtain ⟨⟨m, him, hmj, hacc⟩, hrest⟩ := hdone
      exact ⟨⟨m, him, by omega, hacc⟩,
        fun k' => (hrest k').imp_right (·.imp_right fun h => h.mono (by omega))⟩
    | returned =>
      rw [hl] at hdone
      exact fun k => (hdone k).mono (by omega)
    | raised | cancelled => trivial
  · cases hl : line j with
    | calling todo =>
      rw [hl] at hdone hnext
      cases todo with
      | nil =>
        obtain heq : SetUp.returned = line (j + 1) := Option.some.inj hnext
        rw [← heq]
        exact fun k => ((hdone k).resolve_left (by simp)).mono (by omega)
      | cons k todo =>
        obtain ⟨hlabel, ⟨c, d, t, hev, heq⟩ | ⟨c, e, x, -, -, heq⟩⟩ := SetUp.next_calling hnext
        · obtain ⟨e, hev', -, hacc⟩ := h.setUp_of_label hlabel
          rw [hev] at hev'
          cases hev'
          rw [heq]
          refine ⟨⟨j, hij, by omega, hacc d t rfl⟩, fun k' => ?_⟩
          rcases hdone k' with hmem | hset
          · exact (List.mem_cons.mp hmem).imp_right .inl
          · exact .inr (.inr (hset.mono (by omega)))
        · rw [heq]
          trivial
    | waiting k t todo =>
      rw [hl] at hdone hnext
      obtain ⟨⟨m, him, hmj, hacc⟩, hrest⟩ := hdone
      rcases SetUp.next_waiting hnext with ⟨v, hf, heq⟩ | ⟨x, -, heq⟩ | ⟨-, heq⟩
      · rw [heq]
        intro k'
        rcases hrest k' with rfl | hmem | hset
        · exact .inr ((h.setsUp_of_finished hacc hf him).mono (by omega))
        · exact .inl hmem
        · exact .inr (hset.mono (by omega))
      · rw [heq]
        trivial
      · rw [heq]
        trivial
    | returned | raised | cancelled =>
      rw [hl] at hnext
      cases hnext

theorem done (hcall : SetUpCall N ev label line i)
    (h : NetTimeline top timeoutMax N ev clock label) (hij : i ≤ j) :
    (line j).Done N ev i j := by
  induction j, hij using Nat.le_induction with
  | base =>
    rw [hcall.start]
    exact fun k => .inl (List.mem_finRange k)
  | succ j hij ih => exact hcall.done_next h hij ih

/-! ## When it returns -/

/-- The caller comes to the next host unless something fails. -/
theorem calling_next (hcall : SetUpCall N ev label line i)
    (h : NetTimeline top timeoutMax N ev clock label) (hij : i ≤ j)
    (hline : line j = .calling (k :: todo)) (hok : ¬ Eventually i (SetUpFails N ev line)) :
    ∃ p t, j ≤ p ∧ line p = .waiting k t todo := by
  obtain ⟨p, hjp, hp, hnext⟩ := hcall.moves hij (.now fun _ _ => by rw [hline]; trivial)
  rw [hline] at hp hnext
  obtain ⟨hlabel, ⟨c, d, t, hev, heq⟩ | ⟨c, e, x, hev, he, heq⟩⟩ := SetUp.next_calling hnext
  · exact ⟨p + 1, t, by omega, heq⟩
  · obtain ⟨e', hev', -⟩ := h.setUp_of_label hlabel
    rw [hev] at hev'
    cases hev'
    exact absurd ⟨p, hij.trans hjp, .notAccepted hp (by rw [hp, heq]; simp) hev he⟩ hok

omit [AddCommGroup T] [LinearOrder T] in
/-- A caller waits as long as the future is not done. -/
theorem waits (hcall : SetUpCall N ev label line i) (hij : i ≤ j)
    (hline : line j = .waiting k t todo)
    (hnever : ∀ p, j ≤ p → (((N p).sys (.host k)).future t.future).isDone = false) {p : ℕ}
    (hjp : j ≤ p) : line p = .waiting k t todo := by
  induction p, hjp using Nat.le_induction with
  | base => exact hline
  | succ p hjp ih =>
    rcases hcall.next p (hij.trans hjp) with heq | hnext
    · exact heq.trans ih
    · rw [ih] at hnext
      have hnot := hnever p hjp
      rcases SetUp.next_waiting hnext with ⟨v, hf, -⟩ | ⟨x, hf, -⟩ | ⟨hcan, -⟩
      · simp [hf, Future.isDone] at hnot
      · simp [hf, Future.isDone] at hnot
      · cases hf : ((N p).sys (.host k)).future t.future <;>
          simp_all [Sys.isCancelled, Future.isCancelled, Future.isDone]

variable [IsOrderedAddMonoid T]

/-- The caller comes to the end of a wait unless something fails. -/
theorem waiting_next (hcall : SetUpCall N ev label line i)
    (h : NetTimeline top timeoutMax N ev clock label) (hij : i ≤ j)
    (hline : line j = .waiting k t todo) (hok : ¬ Eventually i (SetUpFails N ev line)) :
    ∃ p, j ≤ p ∧ line p = .calling todo := by
  have hdone := hcall.done h hij
  rw [hline] at hdone
  obtain ⟨⟨m, him, hmj, hacc⟩, -⟩ := hdone
  obtain ⟨d, hev⟩ := hacc.accepted
  have hon : (ev m).bind (NetEvent.on (.host k)) = some (.accepted d t) := by
    rw [hev]
    exact NetEvent.on_component_eq.mpr ⟨rfl, rfl⟩
  have host := h.component (.host k)
  by_cases hleft : Eventually m (Timeline.LeftBehind (fun j => (N j).sys (.host k))
      (fun j => (ev j).bind (NetEvent.on (.host k))) t)
  · -- the caller is still there when the set-up is left behind
    obtain ⟨q, hmq, hleft⟩ := hleft
    have hwaits := hcall.waits hij hline (fun p _ => host.not_done_of_leftBehind hleft p)
      (le_max_left j q)
    exact absurd ⟨max j q, hij.trans (le_max_left j q),
      .leftBehind hwaits (host.leftBehind_mono hleft (le_max_right j q))⟩ hok
  · obtain ⟨q, hmq, hq⟩ := host.done_of_accepted hon hleft
    obtain ⟨p, hjp, hp, hnext⟩ := hcall.moves hij ⟨max j q, le_max_left j q, fun p hp => by
      rw [hline]
      exact host.kept (P := fun s => (s.future t.future).isDone = true)
        (fun _ _ _ hs => hs.isDone) ((le_max_right j q).trans hp) hq⟩
    rw [hline] at hp hnext
    rcases SetUp.next_waiting hnext with ⟨v, -, heq⟩ | ⟨x, hx, -⟩ | ⟨hcan, -⟩
    · exact ⟨p + 1, by omega, heq⟩
    · exact absurd ⟨p, hij.trans hjp, .raised hp hx⟩ hok
    · rw [h.setUp_not_cancelled hacc (by omega)] at hcan
      cases hcan

/-- **The caller goes through the hosts** unless something fails. -/
theorem returned_of_calling (hcall : SetUpCall N ev label line i)
    (h : NetTimeline top timeoutMax N ev clock label) (hij : i ≤ j)
    (hline : line j = .calling todo) (hok : ¬ Eventually i (SetUpFails N ev line)) :
    Eventually i fun j => line j = .returned := by
  induction todo generalizing j with
  | nil =>
    obtain ⟨p, hjp, -, hnext⟩ := hcall.moves hij (.now fun _ _ => by rw [hline]; trivial)
    rw [hline] at hnext
    exact ⟨p + 1, by omega, (Option.some.inj hnext).symm⟩
  | cons k todo ih =>
    obtain ⟨p, t, hjp, hwaiting⟩ := hcall.calling_next h hij hline hok
    obtain ⟨q, hpq, hcalling⟩ := hcall.waiting_next h (hij.trans hjp) hwaiting hok
    exact ih (hij.trans (hjp.trans hpq)) hcalling

omit [AddCommGroup T] [LinearOrder T] [IsOrderedAddMonoid T] in
/-- A caller that has not returned at a position has not returned before. -/
theorem not_returned_before (hcall : SetUpCall N ev label line i) {p : ℕ} (hip : i ≤ p)
    (hpj : p ≤ j) (hj : line j ≠ .returned) : line p ≠ .returned := by
  intro hp
  have hstays := hcall.stays hip (fun _ _ _ => by rw [hp]; rfl) hpj
  exact hj (hstays.trans hp)

omit [AddCommGroup T] [LinearOrder T] [IsOrderedAddMonoid T] in
/-- Nor has one that raises later. -/
theorem not_returned_of_raised (hcall : SetUpCall N ev label line i) (hij : i ≤ j) {x : PyError}
    (hraised : line j = .raised x) {p : ℕ} (hip : i ≤ p) : line p ≠ .returned := by
  rcases Nat.le_total p j with hpj | hjp
  · exact hcall.not_returned_before hip hpj (by simp [hraised])
  · rw [hcall.stays hij (fun _ _ _ => by rw [hraised]; rfl) hjp, hraised]
    simp

omit [IsOrderedAddMonoid T] in
/-- An exception of the set-up is raised, or still waited for. -/
theorem raised_of_exception (hcall : SetUpCall N ev label line i)
    (h : NetTimeline top timeoutMax N ev clock label) (hij : i ≤ j)
    (hline : line j = .waiting k t todo) {x : PyError}
    (hx : ((N j).sys (.host k)).future t.future = .finished (.exception x)) {p : ℕ} (hjp : j ≤ p) :
    line p = .waiting k t todo ∨ line p = .raised x := by
  induction p, hjp using Nat.le_induction with
  | base => exact .inl hline
  | succ p hjp ih =>
    rcases hcall.next p (hij.trans hjp) with heq | hnext
    · rwa [heq]
    · rcases ih with hwaiting | hraised
      · have hx' := (h.component (.host k)).finished_mono hjp hx
        rw [hwaiting] at hnext
        rcases SetUp.next_waiting hnext with ⟨v, hf, -⟩ | ⟨y, hf, heq⟩ | ⟨hcan, -⟩
        · simp [hf] at hx'
        · obtain rfl : y = x := by simpa [hf] using hx'
          exact .inr heq
        · simp [Sys.isCancelled, hx', Future.isCancelled] at hcan
      · rw [hraised] at hnext
        cases hnext

omit [IsOrderedAddMonoid T] in
/-- **A caller that fails does not return.** -/
theorem not_returned_of_fails (hcall : SetUpCall N ev label line i)
    (h : NetTimeline top timeoutMax N ev clock label) (hij : i ≤ j)
    (hfails : SetUpFails N ev line j) {p : ℕ} (hip : i ≤ p) : line p ≠ .returned := by
  cases hfails with
  | notAccepted hline hgone hev he =>
    have hnext := (hcall.next j hij).resolve_left hgone
    rw [hline] at hnext
    obtain ⟨-, ⟨c, d, t, hev', -⟩ | ⟨c, e, x, -, -, hraised⟩⟩ := SetUp.next_calling hnext
    · rw [hev] at hev'
      cases hev'
      cases he
    · exact hcall.not_returned_of_raised (by omega) hraised hip
  | raised hline hx =>
    rcases Nat.le_total p j with hpj | hjp
    · exact hcall.not_returned_before hip hpj (by simp [hline])
    · rcases hcall.raised_of_exception h hij hline hx hjp with heq | heq <;> simp [heq]
  | leftBehind hline hleft =>
    rcases Nat.le_total p j with hpj | hjp
    · exact hcall.not_returned_before hip hpj (by simp [hline])
    · have hnever := (h.component (.host _)).not_done_of_leftBehind hleft
      simp [hcall.waits hij hline (fun q _ => hnever q) hjp]

end SetUpCall

/-- **When `set_up_interfaces` returns.** In every infinite run in which every
thread that can go on for ever moves, the clock passes every reading and the
registered filters and observers are bounded, a call of `set_up_interfaces`
returns with all interfaces of every host set up by the host's own thread, if
and only if every host accepts its call, no set-up raises, and no host's
thread ends with its set-up left behind. -/
theorem NetTimeline.set_up_returns_iff {N : ℕ → Net T V n} {ev : ℕ → Option (NetEvent T V n)}
    {clock : ℕ → T} {label : ℕ → Option (T × Move T V n)} {line : ℕ → SetUp T n} {i : ℕ}
    [IsOrderedAddMonoid T] (h : NetTimeline top timeoutMax N ev clock label)
    (hcall : SetUpCall N ev label line i) :
    (Eventually i fun j => line j = .returned ∧ ∀ k, SetsUp ev i j k) ↔
      ¬ Eventually i (SetUpFails N ev line) := by
  constructor
  · rintro ⟨p, hip, hreturned, -⟩ ⟨j, hij, hfails⟩
    exact hcall.not_returned_of_fails h hij hfails hip hreturned
  · intro hok
    refine (hcall.returned_of_calling h le_rfl hcall.start hok).mono fun j hij hreturned => ?_
    have hdone := hcall.done h hij
    rw [hreturned] at hdone
    exact ⟨hreturned, hdone⟩

end Calls

/-! ## A network that is set up -/

/-- The one host is started and set up, and has nothing more to do. -/
def setUpAfterStart : List (ℤ × Move ℤ ℕ 1) :=
  [(0, .control), (1, .control), (2, .control), (3, .control), (4, .work .bus .enterRun),
    (5, .work onlyHost .enterRun), (6, .setUpInterfaces (Fin.last 0)),
    (7, .work onlyHost (.turn 7)), (8, .work onlyHost .take),
    (9, .work onlyHost (.finish (.result 3))),
    (10, .work onlyHost .settle), (11, .work onlyHost (.turn 11)), (12, .work .bus (.turn 12))]

/-- The caller: its call is accepted at the position 6, and its future set after
the position 9. -/
def setUpLine (j : ℕ) : SetUp ℤ 1 :=
  if j ≤ 6 then .calling [Fin.last 0]
  else if j ≤ 10 then .waiting (Fin.last 0) ⟨6, 0, .setUpInterfaces 0, [], [], 0⟩ []
  else if j ≤ 11 then .calling []
  else .returned

theorem netTimeline_setUpAfterStart :
    NetTimeline oneHost 100 (netAt setUpAfterStart) (eventAt setUpAfterStart) (fun i => (i : ℤ))
      (performed (Net.step oneHost 100) (Net.new 0) setUpAfterStart) := by
  have hrest : ∀ c ∈ components 1,
      ((netAt setUpAfterStart setUpAfterStart.length).sys c).worker = .waiting none false := by
    decide +kernel
  have hcaller : (netAt setUpAfterStart setUpAfterStart.length).control = .started := by
    decide +kernel
  refine netTimeline_of_labels (by decide) (fun c now => ?_) ?_
  · simp [hrest c (mem_components c), Worker.Runnable]
  · rw [Net.CallerRunnable, hcaller]
    exact id

theorem setUpLine_of_le {j : ℕ} (hj : 12 ≤ j) : setUpLine j = .returned := by
  simp only [setUpLine]
  split_ifs <;> first | rfl | omega

theorem setUpCall_setUpAfterStart :
    SetUpCall (netAt setUpAfterStart) (eventAt setUpAfterStart)
      (performed (Net.step oneHost 100) (Net.new 0) setUpAfterStart) setUpLine 6 where
  start := rfl
  next j hj := by
    have hall : ∀ j < 12, 6 ≤ j → setUpLine (j + 1) = setUpLine j ∨
        (setUpLine j).next (netAt setUpAfterStart j)
          ((performed (Net.step oneHost 100) (Net.new 0) setUpAfterStart j).map Prod.snd)
          (eventAt setUpAfterStart j) = some (setUpLine (j + 1)) := by
      decide +kernel
    rcases Nat.lt_or_ge j 12 with hlt | hge
    · exact hall j hlt hj
    · exact .inl ((setUpLine_of_le (hge.trans (Nat.le_succ j))).trans (setUpLine_of_le hge).symm)
  fair i := by
    refine ⟨max i 12, le_max_left _ _, fun hrun => ?_⟩
    simp only [setUpLine_of_le (le_max_right i 12)] at hrun
    cases hrun

/-- While the caller waits the host's thread goes on, and the set-up raises
nothing. -/
theorem host_setUpAfterStart :
    (∀ j < 11, 7 ≤ j → ((netAt setUpAfterStart j).sys onlyHost).worker.ended = false) ∧
      (∀ j < 10, 7 ≤ j → (((netAt setUpAfterStart j).sys onlyHost).future 0).isDone = false) ∧
      ((netAt setUpAfterStart 10).sys onlyHost).future 0 = .finished (.result 3) := by
  decide +kernel

/-- The caller waits for one future only. -/
theorem waiting_setUpLine {j : ℕ} {k : Fin 1} {t : Task ℤ Obj} {todo : List (Fin 1)}
    (h : setUpLine j = .waiting k t todo) : 7 ≤ j ∧ j ≤ 10 ∧ t.future = 0 := by
  simp only [setUpLine] at h
  split_ifs at h
  cases h
  exact ⟨by omega, by omega, rfl⟩

theorem set_up_returns_setUpAfterStart :
    Eventually 6 fun j =>
      setUpLine j = .returned ∧ ∀ k, SetsUp (eventAt setUpAfterStart) 6 j k := by
  refine (netTimeline_setUpAfterStart.set_up_returns_iff setUpCall_setUpAfterStart).mpr ?_
  obtain ⟨hgoes, hopen, hset⟩ := host_setUpAfterStart
  rintro ⟨j, hj, hfails⟩
  cases hfails with
  | @notAccepted k todo e hline _ hev he =>
    obtain rfl : j = 6 := by
      simp only [setUpLine] at hline
      split_ifs at hline
      · omega
      · cases hline
    have haccepted : eventAt setUpAfterStart 6 =
        some (.component onlyHost (.accepted 0 ⟨6, 0, .setUpInterfaces 0, [], [], 0⟩)) := by
      decide +kernel
    rw [haccepted] at hev
    cases hev
    cases he
  | @raised k t todo x hline hx =>
    obtain ⟨h7, h10, ht⟩ := waiting_setUpLine hline
    obtain rfl : k = 0 := Subsingleton.elim _ _
    rw [ht] at hx
    rcases Nat.lt_or_eq_of_le h10 with hlt | rfl
    · have hnot := hopen j hlt h7
      rw [onlyHost, hx] at hnot
      cases hnot
    · rw [onlyHost, hx] at hset
      cases hset
  | @leftBehind k t todo hline hleft =>
    obtain ⟨h7, h10, -⟩ := waiting_setUpLine hline
    obtain rfl : k = 0 := Subsingleton.elim _ _
    exact Bool.false_ne_true ((hgoes j (by omega) h7).symm.trans hleft.ended)

end PyLwip
