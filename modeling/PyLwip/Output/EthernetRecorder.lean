import PyLwip.Emulation.Dispatch

/-!
# Recorders on the buses of a process

A process has networks and recorders of its own, and any recorder may observe
any of the buses. A step is a step of one network, so that the dispatches of
different buses interleave call by call; where it is the call of a recorder,
the recorder appends the frame to `recorded_frames`.

This is an attribute of the class: there is one list, whoever is asked for
it. `recorder_independent_iff` says when that is seen.
-/

namespace PyLwip

open EventSystem

variable {ν T V : Type} {hosts : ν → ℕ}

/-! ## The recorders -/

/-- The class `EthernetRecorder` and how many instances it has, which are
numbered as they were created. `recordedFrames` is the list of the class
body, and no instance is ever given one of its own. -/
structure EthernetRecorders where
  recordedFrames : List (List UInt8)
  instances : ℕ
deriving DecidableEq

namespace EthernetRecorders

/-- The class, when its module has been imported. -/
def new : EthernetRecorders := ⟨[], 0⟩

/-- `EthernetRecorder()`. There is no `__init__`. -/
def create (c : EthernetRecorders) : EthernetRecorders := { c with instances := c.instances + 1 }

/-- `recorder.recorded_frames`, which is not found in the instance but in the
class. -/
def framesOf (c : EthernetRecorders) (_recorder : ℕ) : List (List UInt8) := c.recordedFrames

/-- `__call__`. -/
def call (c : EthernetRecorders) (recorder _netif : ℕ) (frameToRecord : List UInt8)
    (_wasForwarded : Bool) : EthernetRecorders :=
  { c with recordedFrames := c.framesOf recorder ++ [frameToRecord] }

end EthernetRecorders

/-- What `add_observer` is given: a recorder, or any other callable. -/
inductive Observer
  | recorder (id : ℕ)
  | other (id : ℕ)
deriving DecidableEq

/-! ## The process -/

/-- The networks of a process, the observers of their buses in the order in
which they were added, and the recorders. -/
structure Process (T V : Type) (hosts : ν → ℕ) where
  nets (k : ν) : Net T V (hosts k)
  registered (k : ν) : List Observer
  recorders : EthernetRecorders

/-- An event of the network `k` comes with the observer that was called, if it
is the call of one. -/
inductive ProcessEvent (T V : Type) (hosts : ν → ℕ)
  | recorderCreated (recorder : ℕ)
  | network (k : ν) (e : NetEvent T V (hosts k)) (called : Option Observer)

/-- A move of a process: a recorder is created or added to a bus, or a network
makes a move. -/
inductive ProcessMove (T V : Type) (hosts : ν → ℕ)
  | createRecorder
  | addObserver (k : ν) (reading : T) (observer : Observer)
  | network (k : ν) (reading : T) (move : Move T V (hosts k))

/-- A call of a recorder by a bus. -/
structure RecorderCall where
  recorder : ℕ
  frame : Frame
  wasForwarded : Bool
deriving DecidableEq

/-- The call of a recorder that an event is. -/
def ProcessEvent.recorderCall? : ProcessEvent T V hosts → Option RecorderCall
  | .network _ (.observed t _ wasForwarded) (some (.recorder r)) =>
    t.frame?.map fun f => ⟨r, f, wasForwarded⟩
  | _ => none

/-- What the call of a recorder does. -/
def EthernetRecorders.observe (c : EthernetRecorders) (ev : Option (ProcessEvent T V hosts)) :
    EthernetRecorders :=
  match ev.bind ProcessEvent.recorderCall? with
  | some call => c.call call.recorder call.frame.sender call.frame.data call.wasForwarded
  | none => c

namespace Process

/-- A process whose networks are built, before any recorder is created. -/
def new (now : T) : Process T V hosts where
  nets _ := Net.new now
  registered _ := []
  recorders := .new

/-- The observer that an event of the network `k` is the call of. -/
def called (P : Process T V hosts) (k : ν) : NetEvent T V (hosts k) → Option Observer
  | .observed _ j _ => (P.registered k)[j]?
  | _ => none

/-- The observer that the bus of the network `k` calls next. -/
def calledNext (P : Process T V hosts) (k : ν) : Option Observer :=
  match (P.nets k).dispatch with
  | .observing _ j => (P.registered k)[j]?
  | _ => none

/-- A move that is one of the network alone. Observers are added by
`addObserver`, and no recorder raises. -/
def admits (P : Process T V hosts) (k : ν) : Move T V (hosts k) → Bool
  | .addObserver => false
  | .dispatch (.error _) =>
    match P.calledNext k with
    | some (.recorder _) => false
    | _ => true
  | _ => true

/-- An observer that there is. -/
def knows (P : Process T V hosts) : Observer → Bool
  | .recorder r => decide (r < P.recorders.instances)
  | .other _ => true

variable [DecidableEq ν] [AddCommGroup T] [LinearOrder T]

/-- A move of one network. -/
def tell (top : (k : ν) → Topology (hosts k)) (timeoutMax : T) (k : ν) (reading : T)
    (move : Move T V (hosts k)) (P : Process T V hosts) :
    Option (Process T V hosts × Option (ProcessEvent T V hosts)) :=
  (Net.step (top k) timeoutMax (P.nets k) (reading, move)).map fun x =>
    let ev := x.2.map fun e => ProcessEvent.network k e (P.called k e)
    ({ P with
        nets := Function.update P.nets k x.1
        recorders := P.recorders.observe ev }, ev)

/-- **A step** of the process. -/
def step (top : (k : ν) → Topology (hosts k)) (timeoutMax : T) (P : Process T V hosts) :
    ProcessMove T V hosts → Option (Process T V hosts × Option (ProcessEvent T V hosts))
  | .createRecorder =>
    some ({ P with recorders := P.recorders.create }, some (.recorderCreated P.recorders.instances))
  | .addObserver k reading observer =>
    if P.knows observer then
      (P.tell top timeoutMax k reading .addObserver).map fun x =>
        ({ x.1 with
            registered := Function.update P.registered k (P.registered k ++ [observer]) }, x.2)
    else none
  | .network k reading move =>
    if P.admits k move then P.tell top timeoutMax k reading move else none

end Process

/-- An interleaving of all networks of a process. -/
abbrev ProcessRun [DecidableEq ν] [AddCommGroup T] [LinearOrder T]
    (top : (k : ν) → Topology (hosts k)) (timeoutMax : T) :
    Process T V hosts → List (ProcessEvent T V hosts) → Process T V hosts → Prop :=
  Run (StepOf (Process.step top timeoutMax))

/-! ## What is dispatched to a recorder -/

/-- The calls of recorders. -/
abbrev recorderCalls (tr : List (ProcessEvent T V hosts)) : List RecorderCall :=
  tr.filterMap ProcessEvent.recorderCall?

/-- **The frames that the buses dispatched to a recorder.** -/
def dispatchedTo (r : ℕ) (tr : List (ProcessEvent T V hosts)) : List (List UInt8) :=
  ((recorderCalls tr).filter fun call => call.recorder = r).map fun call => call.frame.data

theorem recordedFrames_observe (c : EthernetRecorders) (ev : Option (ProcessEvent T V hosts)) :
    (c.observe ev).recordedFrames =
      c.recordedFrames ++ (recorderCalls ev.toList).map fun call => call.frame.data := by
  cases ev with
  | none => simp [EthernetRecorders.observe]
  | some e =>
    cases he : e.recorderCall? with
    | none => simp [EthernetRecorders.observe, he]
    | some call =>
      simp [EthernetRecorders.observe, he, EthernetRecorders.call, EthernetRecorders.framesOf]

/-! ## What a step can do -/

section Runs

variable [DecidableEq ν] [AddCommGroup T] [LinearOrder T]

/-- **The steps of a process**: a recorder is created, or one network makes a
step, where its bus has an observer more exactly if one was registered. -/
inductive ProcessTransition (top : (k : ν) → Topology (hosts k)) (timeoutMax : T)
    (P : Process T V hosts) : Option (ProcessEvent T V hosts) → Process T V hosts → Prop
  | create :
      ProcessTransition top timeoutMax P (some (.recorderCreated P.recorders.instances))
        { P with recorders := P.recorders.create }
  | network {k : ν} {o : Option (NetEvent T V (hosts k))} {N' : Net T V (hosts k)}
      {ev : Option (ProcessEvent T V hosts)} (added : List Observer)
      (hs : NetSteps (top k) timeoutMax (P.nets k) o N')
      (hadded : N'.observers = (P.nets k).observers + added.length)
      (hev : ev = o.map fun e => .network k e (P.called k e)) :
      ProcessTransition top timeoutMax P ev
        { nets := Function.update P.nets k N'
          registered := Function.update P.registered k (P.registered k ++ added)
          recorders := P.recorders.observe ev }

variable {top : (k : ν) → Topology (hosts k)} {timeoutMax now : T} {P P' : Process T V hosts}
  {ev : Option (ProcessEvent T V hosts)} {tr : List (ProcessEvent T V hosts)}

theorem processTransition_of_step (h : StepOf (Process.step top timeoutMax) P ev P') :
    ProcessTransition top timeoutMax P ev P' := by
  obtain ⟨move, h⟩ := h
  cases move with
  | createRecorder =>
    cases h
    exact .create
  | addObserver k reading observer =>
    simp only [Process.step] at h
    split at h
    · obtain ⟨⟨P₁, ev₁⟩, htell, heq⟩ := Option.map_eq_some_iff.mp h
      cases heq
      obtain ⟨⟨N', o⟩, hs, heq⟩ := Option.map_eq_some_iff.mp htell
      cases heq
      exact .network [observer] ⟨_, hs⟩ (observers_of_addObserver hs) rfl
    · cases h
  | network k reading move =>
    simp only [Process.step] at h
    split at h
    · next hadmits =>
      obtain ⟨⟨N', o⟩, hs, heq⟩ := Option.map_eq_some_iff.mp h
      cases heq
      have hmove : move ≠ .addObserver := by
        rintro rfl
        cases hadmits
      have hnet := ProcessTransition.network (P := P) [] ⟨_, hs⟩ (observers_of_step hs hmove) rfl
      simpa using hnet
    · cases h

/-! ## The networks of a process -/

/-- The event of the network `k` that an event is. -/
def ProcessEvent.on (k : ν) : ProcessEvent T V hosts → Option (NetEvent T V (hosts k))
  | .network k' e _ => if h : k' = k then some (h ▸ e) else none
  | .recorderCreated _ => none

/-- The events of the network `k`. -/
abbrev networkEvents (k : ν) (tr : List (ProcessEvent T V hosts)) : List (NetEvent T V (hosts k)) :=
  tr.filterMap (ProcessEvent.on k)

omit [AddCommGroup T] [LinearOrder T] in
theorem ProcessEvent.on_eq_some {k : ν} {e : ProcessEvent T V hosts} {e' : NetEvent T V (hosts k)}
    (h : e.on k = some e') : ∃ called, e = .network k e' called := by
  cases e with
  | recorderCreated r => cases h
  | network k' e called =>
    by_cases hk : k' = k
    · subst hk
      obtain rfl : e = e' := by simpa [ProcessEvent.on] using h
      exact ⟨called, rfl⟩
    · simp [ProcessEvent.on, hk] at h

/-- **A run of the process is a run of each network.** -/
theorem network_of_run (h : ProcessRun top timeoutMax P tr P') (k : ν) :
    Emulation (top k) timeoutMax (P.nets k) (networkEvents k tr) (P'.nets k) := by
  refine Run.project (f := fun P : Process T V hosts => P.nets k) (fun P ev P' hs => ?_) h
  cases processTransition_of_step hs with
  | create => exact .inr ⟨rfl, rfl⟩
  | @network k' o N' ev added hnet hadded hev =>
    subst hev
    by_cases hk : k' = k
    · subst hk
      refine .inl ?_
      cases o <;> simpa [ProcessEvent.on] using hnet
    · refine .inr ⟨?_, Function.update_of_ne (Ne.symm hk) _ _⟩
      cases o <;> simp [ProcessEvent.on, hk]

/-- The bus of each network has the observers that were added. -/
theorem observers_of_run (h : ProcessRun top timeoutMax (Process.new now) tr P) (k : ν) :
    (P.nets k).observers = (P.registered k).length := by
  refine h.state_invariant (I := fun P => (P.nets k).observers = (P.registered k).length) rfl
    fun P ev P' hI hs => ?_
  cases processTransition_of_step hs with
  | create => exact hI
  | @network k' o N' ev added hs hadded hev =>
    by_cases hk : k = k'
    · subst hk
      simp [hadded, hI]
    · simpa [Function.update_of_ne hk] using hI

/-- Observers are added at the end. -/
theorem registered_prefix (h : ProcessRun top timeoutMax P tr P') (k : ν) :
    P.registered k <+: P'.registered k := by
  refine h.state_invariant (I := fun P' => P.registered k <+: P'.registered k) (List.prefix_refl _)
    fun P₁ ev P₂ hI hs => ?_
  cases processTransition_of_step hs with
  | create => exact hI
  | @network k' o N' ev added hnet hadded hev =>
    by_cases hk : k = k'
    · subst hk
      simpa using hI.trans (List.prefix_append _ _)
    · simpa [Function.update_of_ne hk] using hI

/-- **What a bus calls as its observer `j`** is what was added to it at this
place, and it is passed a frame. -/
theorem called_of_observed (h : ProcessRun top timeoutMax (Process.new now) tr P) {k : ν}
    {t : Task T Obj} {j : ℕ} {b : Bool} {called : Option Observer}
    (hmem : .network k (.observed t j b) called ∈ tr) :
    called.isSome ∧ called = (P.registered k)[j]? ∧ t.frame?.isSome := by
  obtain ⟨pre, post, P₁, P₂, -, hpre, hs, hpost⟩ := h.exists_of_mem hmem
  have hobs := observers_of_run hpre k
  have hgrown := registered_prefix ((Run.single hs).trans hpost) k
  generalize hev : some (ProcessEvent.network k (.observed t j b) called) = ev at hs
  cases processTransition_of_step hs with
  | create => cases hev
  | @network k' o N' ev added hnet hadded hmap =>
    subst hmap
    cases o with
    | none => cases hev
    | some e =>
      cases hev
      obtain ⟨hframe, hj⟩ := hnet.transition.observed
      rw [hobs] at hj
      have hcalled : P₁.called k (.observed t j b) = some (P₁.registered k)[j] :=
        List.getElem?_eq_getElem hj
      rw [hcalled]
      exact ⟨rfl, (List.prefix_iff_getElem?.mp hgrown j hj).symm, hframe⟩

/-! ## What is recorded -/

/-- **The list of the class**: the frames that were dispatched to whatever
recorder. -/
theorem recordedFrames_of_run (h : ProcessRun top timeoutMax (Process.new now) tr P) :
    P.recorders.recordedFrames = (recorderCalls tr).map fun call => call.frame.data := by
  refine h.invariant (I := fun tr P => P.recorders.recordedFrames =
    (recorderCalls tr).map fun call => call.frame.data) rfl fun tr P ev P' _ hI hs => ?_
  rw [recorderCalls, List.filterMap_append, List.map_append, ← recorderCalls, ← hI]
  cases processTransition_of_step hs with
  | create => simp [EthernetRecorders.create, ProcessEvent.recorderCall?]
  | network => exact recordedFrames_observe P.recorders ev

/-- What is dispatched to the place of a recorder is dispatched to it. -/
theorem mem_dispatchedTo (h : ProcessRun top timeoutMax (Process.new now) tr P) {k : ν}
    {t : Task T Obj} {f : Frame} {j r : ℕ} {b : Bool} (hf : t.frame? = some f)
    (hobs : .observed t j b ∈ networkEvents k tr)
    (hr : (P.registered k)[j]? = some (.recorder r)) : f.data ∈ dispatchedTo r tr := by
  obtain ⟨e, he, hon⟩ := List.mem_filterMap.mp hobs
  obtain ⟨called, rfl⟩ := ProcessEvent.on_eq_some hon
  obtain ⟨-, hcalled, -⟩ := called_of_observed h he
  have hcall : ⟨r, f, b⟩ ∈ recorderCalls tr := by
    refine List.mem_filterMap.mpr ⟨_, he, ?_⟩
    rw [hcalled, hr, ProcessEvent.recorderCall?, hf, Option.map_some]
  exact List.mem_map.mpr ⟨_, List.mem_filter.mpr ⟨hcall, by simp⟩, rfl⟩

/-- **A bus dispatches a frame to every recorder that it has when the dispatch
begins**, if no filter or observer raises. -/
theorem dispatched_of_completed (h : ProcessRun top timeoutMax (Process.new now) tr P) {k : ν}
    (hpops : PopsReturn (eventsOf .bus (networkEvents k tr))) {t : Task T Obj}
    {f : Frame} (hf : t.frame? = some f)
    (hover : t ∈ completedTasks (eventsOf .bus (networkEvents k tr)))
    (hnorm : ∀ x, .dispatchRaised t x ∉ networkEvents k tr) {j r : ℕ}
    (hj : j < registeredBefore t (networkEvents k tr))
    (hr : (P.registered k)[j]? = some (.recorder r)) : f.data ∈ dispatchedTo r tr := by
  rcases ended_of_completed (network_of_run h k) hpops hover hf with ⟨x, hx⟩ | ⟨⟨n, hn, hle⟩, -⟩
  · exact absurd hx (hnorm x)
  · have hshown : j ∈ observersOf t (networkEvents k tr) := by
      rw [hn, List.mem_range]
      omega
    obtain ⟨e, he, hobs⟩ := List.mem_filterMap.mp hshown
    cases e with
    | observed u j' b =>
      rw [NetEvent.observer?] at hobs
      split at hobs
      · next hu =>
        obtain rfl := Option.some.inj hobs
        exact mem_dispatchedTo h hf (hu ▸ he) hr
      · cases hobs
    | _ => cases hobs

/-- A recorder has what was dispatched to it exactly if no frame was
dispatched to another one. -/
theorem framesOf_eq_iff (h : ProcessRun top timeoutMax (Process.new now) tr P) {r : ℕ} :
    P.recorders.framesOf r = dispatchedTo r tr ↔
      ∀ call ∈ recorderCalls tr, call.recorder = r := by
  rw [EthernetRecorders.framesOf, recordedFrames_of_run h, dispatchedTo]
  constructor
  · intro heq
    -- nothing was left out, for the lists are equally long
    have hlen := congrArg List.length heq
    rw [List.length_map, List.length_map] at hlen
    simpa using List.length_filter_eq_length_iff.mp hlen.symm
  · intro hall
    rw [List.filter_eq_self.mpr (by simpa using hall)]

/-- **A recorder is independent of the others** in a run that ends in `P`: at
every moment since its creation it has recorded what was dispatched to it, and
a dispatch to another recorder changes nothing in this. -/
structure Independent (top : (k : ν) → Topology (hosts k)) (timeoutMax now : T) (r : ℕ)
    (tr : List (ProcessEvent T V hosts)) (P : Process T V hosts) : Prop where
  recorded : ∀ pre post P₁, tr = pre ++ post →
    ProcessRun top timeoutMax (Process.new now) pre P₁ → ProcessRun top timeoutMax P₁ post P →
    r < P₁.recorders.instances → P₁.recorders.framesOf r = dispatchedTo r pre
  unchanged : ∀ pre e post P₁ P₂ call, tr = pre ++ e :: post →
    ProcessRun top timeoutMax (Process.new now) pre P₁ →
    StepOf (Process.step top timeoutMax) P₁ (some e) P₂ → ProcessRun top timeoutMax P₂ post P →
    e.recorderCall? = some call → call.recorder ≠ r →
    P₂.recorders.framesOf r = P₁.recorders.framesOf r

/-- **A recorder is independent of the others exactly if none of them is ever
passed a frame.** -/
theorem recorder_independent_iff (h : ProcessRun top timeoutMax (Process.new now) tr P) {r : ℕ}
    (hr : r < P.recorders.instances) :
    Independent top timeoutMax now r tr P ↔ ∀ call ∈ recorderCalls tr, call.recorder = r := by
  constructor
  · intro hind
    exact (framesOf_eq_iff h).mp (hind.recorded tr [] P (by simp) h .refl hr)
  · intro hall
    constructor
    · rintro pre post P₁ rfl hpre - -
      refine (framesOf_eq_iff hpre).mpr fun call hcall => hall call ?_
      rw [recorderCalls, List.filterMap_append]
      exact List.mem_append_left _ hcall
    · rintro pre e post P₁ P₂ call rfl - - - hcall hother
      exact absurd (hall call (List.mem_filterMap.mpr ⟨e, by simp, hcall⟩)) hother

end Runs

/-! ## One recorder, and two -/

/-- Two networks with nothing but their buses. -/
def twoBuses : (k : Bool) → Topology ((fun _ => 0 : Bool → ℕ) k) := fun _ => ⟨[], List.nodup_nil⟩

/-- Two recorders, the first on the one bus and `second` on the other, and
the dispatch of a frame on the one bus. -/
def recording (second : ℕ) : List (ProcessMove ℤ ℕ (fun _ : Bool => 0)) :=
  [.createRecorder, .createRecorder, .addObserver false 0 (.recorder 0),
    .addObserver true 0 (.recorder second), .network false 0 .control, .network false 0 .control,
    .network false 0 (.work .bus .enterRun), .network false 0 (.broadcast ⟨1, [7]⟩),
    .network false 0 (.work .bus (.turn 0)), .network false 0 (.work .bus .take),
    .network false 0 (.dispatch (.ok true)), .network false 0 (.dispatch (.ok true))]

/-- One recorder is on both buses, and the other on none. -/
def recordedByOne : Process ℤ ℕ (fun _ : Bool => 0) × List (ProcessEvent ℤ ℕ fun _ : Bool => 0) :=
  outcome (Process.step twoBuses 100) (Process.new 0) (recording 0) (by decide)

theorem recorder_independent_alone :
    Independent twoBuses 100 0 0 recordedByOne.2 recordedByOne.1 := by
  have hrun : ProcessRun twoBuses 100 (Process.new 0) recordedByOne.2 recordedByOne.1 :=
    run_outcome _ _ _ _
  exact (recorder_independent_iff hrun (by decide)).mpr (by decide)

/-- Each bus has a recorder of its own. -/
def recordedByTwo : Process ℤ ℕ (fun _ : Bool => 0) × List (ProcessEvent ℤ ℕ fun _ : Bool => 0) :=
  outcome (Process.step twoBuses 100) (Process.new 0) (recording 1) (by decide)

/-- **A recorder shows the frames of another network.** -/
theorem recorders_share_frames :
    ∃ (tr : List (ProcessEvent ℤ ℕ fun _ : Bool => 0)) (P : Process ℤ ℕ fun _ : Bool => 0),
      ProcessRun twoBuses 100 (Process.new 0) tr P ∧ 1 < P.recorders.instances ∧
      dispatchedTo 1 tr = [] ∧ P.recorders.framesOf 1 = [[7]] ∧
      ¬ Independent twoBuses 100 0 1 tr P := by
  have hrun : ProcessRun twoBuses 100 (Process.new 0) recordedByTwo.2 recordedByTwo.1 :=
    run_outcome _ _ _ _
  have hinst : 1 < recordedByTwo.1.recorders.instances := by decide
  have hnone : dispatchedTo 1 recordedByTwo.2 = [] := by decide
  have hframes : recordedByTwo.1.recorders.framesOf 1 = [[7]] := by decide
  refine ⟨_, _, hrun, hinst, hnone, hframes, fun hind => ?_⟩
  have heq := hind.recorded _ [] _ (List.append_nil _).symm hrun .refl hinst
  rw [hnone, hframes] at heq
  cases heq

end PyLwip
