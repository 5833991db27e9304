import PyLwip.Emulation.Configuration
import PyLwip.Emulation.Moves
import PyLwip.Stack.Status

/-!
# The status of the network's interfaces

`add_host` gives every interface callbacks that go on to the ones of the
network, and `set_up_interfaces` has every host set its interfaces up in its
own thread, one function of lwIP after the other. In between anybody may call
`set_up`, `set_down`, `set_link_up`, `set_link_down`, `set_default` or `input`
of an interface, or replace the network's callbacks. So a step is a step of
the network, a call of one of these methods, or a call of the network's
`set_status_callbacks`. That nobody adds an interface again or replaces the
callbacks that `add_host` gave it is left to the users.
-/

namespace PyLwip

open EventSystem NetIf

variable {σ T V : Type} {n : ℕ}

/-! ## The state -/

/-- A callback of an interface was called, when the flag was as `up` says. The
network calls its own, if it has one. -/
structure Notice where
  aspect : Aspect
  up : Bool
  callback : Option ℕ
deriving DecidableEq

/-- The network with the interfaces of its stacks, and the state of all
instances of lwIP. `callbacks` are those of the network, `none` for what is
`None` or counts as false; `toSetUp` is what is left of `_set_up_interfaces`
of each host, all of it before the host first executes it. -/
structure StatusNet (σ T V : Type) (n : ℕ) where
  net : Net T V n
  netifs : ℕ → NetIf
  lwip : σ
  callbacks : Aspect → Option ℕ
  toSetUp : Fin n → List (ℕ × NetIf.Call)

inductive StatusEvent (T V : Type) (n : ℕ)
  | network (e : NetEvent T V n)
  | callbacksSet (statusCallback linkCallback : Option ℕ)
  /-- A function of lwIP was called with an interface. -/
  | called (netif : ℕ) (f : NetIf.Call) (notices : List Notice)
deriving DecidableEq

/-- A move. -/
inductive StatusMove (T V : Type) (n : ℕ)
  | network (reading : T) (move : Move T V n)
  | setStatusCallbacks (statusCallback linkCallback : Option ℕ)
  /-- Anybody calls `set_up`, `set_down`, `set_link_up`, `set_link_down`,
  `set_default` or `input` of an interface. -/
  | call (netif : ℕ) (f : NetIf.Call)
  /-- The host's thread executes the next call of `_set_up_interfaces`. -/
  | setUpNext (k : Fin n)

/-! ## The steps -/

/-- The calls of `_set_up_interfaces`, for the interfaces in the table of the
stack. -/
def setUpCalls (table : Fin n → List ℕ) (k : Fin n) : List (ℕ × NetIf.Call) :=
  (table k).flatMap fun netif => [(netif, .setLinkUp), (netif, .setUp)]

namespace StatusNet

/-- A network that was built, with the interfaces that were added. -/
def new (table : Fin n → List ℕ) (now : T) (netifs : ℕ → NetIf) (lwip : σ) : StatusNet σ T V n where
  net := Net.new now
  netifs := netifs
  lwip := lwip
  callbacks _ := none
  toSetUp := setUpCalls table

/-- What lwIP reports, which goes to the network's callbacks. -/
def notices (lwip : Reporting σ) (netif : ℕ) (f : NetIf.Call) (S : StatusNet σ T V n) :
    List Notice :=
  (lwip.reports f (S.netifs netif).interface S.lwip).map fun a =>
    ⟨a, (lwip.call f (S.netifs netif).interface S.lwip).1.isSet a, S.callbacks a⟩

/-- `set_up` and the other methods that call one function of lwIP with the
interface. -/
def call (lwip : Reporting σ) (netif : ℕ) (f : NetIf.Call) (S : StatusNet σ T V n) :
    StatusNet σ T V n :=
  let r := NetIf.call lwip.toNative f (S.netifs netif) S.lwip
  { S with netifs := Function.update S.netifs netif r.1, lwip := r.2 }

/-- The thread of the host executes `_set_up_interfaces`. -/
def settingUp (S : StatusNet σ T V n) (k : Fin n) : Bool :=
  (S.net.sys (.host k)).worker.current.any fun t => t.action = .setUpInterfaces k

/-- `_set_up_interfaces` returns when nothing is left of it. -/
def admits (S : StatusNet σ T V n) : Option (NetEvent T V n) → Bool
  | some (.component (.host k) (.completed t (.result _))) =>
    t.action ≠ .setUpInterfaces k ∨ S.toSetUp k = []
  | _ => true

/-- What is left after an event: `_set_up_interfaces` begins when its task is
invoked. -/
def toSetUpAfter (table : Fin n → List ℕ) (S : StatusNet σ T V n) :
    Option (NetEvent T V n) → Fin n → List (ℕ × NetIf.Call)
  | some (.component (.host k) (.invoked t _)) =>
    if t.action = .setUpInterfaces k then Function.update S.toSetUp k (setUpCalls table k)
    else S.toSetUp
  | _ => S.toSetUp

/-- **A step.** -/
def step [AddCommGroup T] [LinearOrder T] (top : Topology n) (timeoutMax : T)
    (table : Fin n → List ℕ) (lwip : Reporting σ) (S : StatusNet σ T V n) :
    StatusMove T V n → Option (StatusNet σ T V n × Option (StatusEvent T V n))
  | .network reading move =>
    (Net.step top timeoutMax S.net (reading, move)).bind fun x =>
      if S.admits x.2 then
        some ({ S with net := x.1, toSetUp := S.toSetUpAfter table x.2 }, x.2.map .network)
      else none
  | .setStatusCallbacks statusCallback linkCallback =>
    some ({ S with
      callbacks := fun
        | .status => statusCallback
        | .link => linkCallback },
      some (.callbacksSet statusCallback linkCallback))
  | .call netif f =>
    some (S.call lwip netif f, some (.called netif f (S.notices lwip netif f)))
  | .setUpNext k =>
    if S.settingUp k then
      match S.toSetUp k with
      | (netif, f) :: rest =>
        some ({ S.call lwip netif f with toSetUp := Function.update S.toSetUp k rest },
          some (.called netif f (S.notices lwip netif f)))
      | [] => none
    else none

end StatusNet

/-- An interleaving of all threads. -/
abbrev StatusRun [AddCommGroup T] [LinearOrder T] (top : Topology n) (timeoutMax : T)
    (table : Fin n → List ℕ) (lwip : Reporting σ) :
    StatusNet σ T V n → List (StatusEvent T V n) → StatusNet σ T V n → Prop :=
  Run (StepOf (StatusNet.step top timeoutMax table lwip))

/-! ## What is seen of a run -/

/-- The event of the network that an event is. -/
def StatusEvent.network? : StatusEvent T V n → Option (NetEvent T V n)
  | .network e => some e
  | _ => none

/-- The flag of an interface that an event sets, and to what. -/
def StatusEvent.sets? (netif : ℕ) (a : Aspect) : StatusEvent T V n → Option Bool
  | .called netif' f _ => if netif' = netif then f.sets a else none
  | _ => none

/-- What the callback of an interface was told. -/
def StatusEvent.reported (netif : ℕ) (a : Aspect) : StatusEvent T V n → List Bool
  | .called netif' _ notices =>
    if netif' = netif then (notices.filter fun notice => notice.aspect = a).map Notice.up else []
  | _ => []

/-- The callback of the network that an event sets. -/
def StatusEvent.callback? (a : Aspect) : StatusEvent T V n → Option (Option ℕ)
  | .callbacksSet statusCallback linkCallback =>
    match a with
    | .status => some statusCallback
    | .link => some linkCallback
  | _ => none

/-- **What a flag of an interface was set to**, call by call. -/
abbrev settings (netif : ℕ) (a : Aspect) (tr : List (StatusEvent T V n)) : List Bool :=
  tr.filterMap (StatusEvent.sets? netif a)

/-- **What the callback of an interface was told**, call by call. -/
abbrev reports (netif : ℕ) (a : Aspect) (tr : List (StatusEvent T V n)) : List Bool :=
  tr.flatMap (StatusEvent.reported netif a)

/-- The callback of the network that was set last. -/
def callbackAfter (a : Aspect) (tr : List (StatusEvent T V n)) : Option ℕ :=
  (tr.filterMap (StatusEvent.callback? a)).getLast?.join

/-! ## What a step can do -/

section Runs

variable [AddCommGroup T] [LinearOrder T] {top : Topology n} {timeoutMax now : T}
  {table : Fin n → List ℕ} {lwip : Reporting σ} {S S' : StatusNet σ T V n}
  {ev : Option (StatusEvent T V n)} {tr : List (StatusEvent T V n)} {netif : ℕ} {a : Aspect}

/-- **The steps**: one of the network, a call of `set_status_callbacks`, or a
call of a function of lwIP, which may be the next of `_set_up_interfaces`. -/
inductive StatusTransition (top : Topology n) (timeoutMax : T) (table : Fin n → List ℕ)
    (lwip : Reporting σ) (S : StatusNet σ T V n) :
    Option (StatusEvent T V n) → StatusNet σ T V n → Prop
  | network {o : Option (NetEvent T V n)} {N' : Net T V n}
      (hs : NetSteps top timeoutMax S.net o N') (hadmits : S.admits o = true) :
      StatusTransition top timeoutMax table lwip S (o.map .network)
        { S with net := N', toSetUp := S.toSetUpAfter table o }
  | callbacksSet {statusCallback linkCallback : Option ℕ} {callbacks' : Aspect → Option ℕ}
      (hstatus : callbacks' .status = statusCallback) (hlink : callbacks' .link = linkCallback) :
      StatusTransition top timeoutMax table lwip S
        (some (.callbacksSet statusCallback linkCallback)) { S with callbacks := callbacks' }
  | called (netif : ℕ) (f : NetIf.Call) {toSetUp' : Fin n → List (ℕ × NetIf.Call)}
      (hleft : toSetUp' = S.toSetUp ∨ ∃ k rest, S.toSetUp k = (netif, f) :: rest ∧
        toSetUp' = Function.update S.toSetUp k rest) :
      StatusTransition top timeoutMax table lwip S
        (some (.called netif f (S.notices lwip netif f)))
        { S.call lwip netif f with toSetUp := toSetUp' }

theorem statusTransition_of_step
    (h : StepOf (StatusNet.step top timeoutMax table lwip) S ev S') :
    StatusTransition top timeoutMax table lwip S ev S' := by
  obtain ⟨move, h⟩ := h
  cases move with
  | network reading move =>
    obtain ⟨⟨N', o⟩, hs, h⟩ := Option.bind_eq_some_iff.mp h
    split at h
    · next hadmits =>
      cases h
      exact .network ⟨_, hs⟩ hadmits
    · cases h
  | setStatusCallbacks =>
    cases h
    exact .callbacksSet rfl rfl
  | call netif f =>
    cases h
    exact .called netif f (.inl rfl)
  | setUpNext k =>
    simp only [StatusNet.step] at h
    split at h
    · split at h
      · next netif f rest hleft =>
        cases h
        exact .called netif f (.inr ⟨k, rest, hleft, rfl⟩)
      · cases h
    · cases h

/-- **A run is a run of the network.** -/
theorem network_of_statusRun (h : StatusRun top timeoutMax table lwip S tr S') :
    Emulation top timeoutMax S.net (tr.filterMap StatusEvent.network?) S'.net := by
  refine Run.project (f := fun S : StatusNet σ T V n => S.net) (fun S ev S' hs => ?_) h
  cases statusTransition_of_step hs with
  | @network o N' hnet => exact .inl (by cases o <;> exact hnet)
  | callbacksSet | called => exact .inr ⟨rfl, rfl⟩

/-! ## What is reported -/

omit [AddCommGroup T] [LinearOrder T] in
/-- **What lwIP reports of one call**: the flag, if it has changed. -/
theorem reported_notices (hlwip : lwip.Documented) (S : StatusNet σ T V n) (netif : ℕ)
    (f : NetIf.Call) (a : Aspect) :
    ((S.notices lwip netif f).filter fun notice => notice.aspect = a).map Notice.up =
      if ((S.call lwip netif f).netifs netif).interface.isSet a =
        (S.netifs netif).interface.isSet a then []
      else [((S.call lwip netif f).netifs netif).interface.isSet a] := by
  have hnew : ((S.call lwip netif f).netifs netif).interface =
      (lwip.call f (S.netifs netif).interface S.lwip).1 := by
    simp [StatusNet.call, NetIf.call]
  have hcount := hlwip.reports f (S.netifs netif).interface S.lwip a
  rw [hnew, StatusNet.notices, List.filter_map, List.map_map]
  simp only [Function.comp_def]
  rw [show (fun b => decide (b = a)) = fun b => b == a from rfl, List.filter_beq, hcount]
  split_ifs <;> simp

/-- **What holds of a flag of an interface**: it is as it was set last, and its
callback was told every change of it, and nothing else. -/
structure Reported (netif : ℕ) (a : Aspect) (tr : List (StatusEvent T V n))
    (S : StatusNet σ T V n) : Prop where
  flag : (S.netifs netif).interface.isSet a = (settings netif a tr).getLastD false
  changes : false :: reports netif a tr = (settings netif a tr).destutter' (· ≠ ·) false

omit [AddCommGroup T] [LinearOrder T] in
/-- An event that is no call with the interface. -/
theorem Reported.kept (h : Reported netif a tr S)
    (hnetif : S'.netifs netif = S.netifs netif)
    (hev : ∀ e ∈ ev, e.sets? netif a = none ∧ e.reported netif a = []) :
    Reported netif a (tr ++ ev.toList) S' := by
  cases ev with
  | none => exact ⟨by simpa [hnetif] using h.flag, by simpa using h.changes⟩
  | some e =>
    obtain ⟨hsets, hrep⟩ := hev e rfl
    have hsettings : settings netif a (tr ++ [e]) = settings netif a tr := by
      simp [settings, hsets]
    have hreports : reports netif a (tr ++ [e]) = reports netif a tr := by
      simp [reports, hrep]
    exact ⟨by rw [hnetif, Option.toList_some, hsettings]; exact h.flag,
      by rw [Option.toList_some, hsettings, hreports]; exact h.changes⟩

/-- **The step lemma.** -/
theorem Reported.step (hlwip : lwip.Documented) (h : Reported netif a tr S)
    (hs : StatusTransition top timeoutMax table lwip S ev S') :
    Reported netif a (tr ++ ev.toList) S' := by
  cases hs with
  | network => exact h.kept rfl (by simp [StatusEvent.sets?, StatusEvent.reported])
  | callbacksSet => exact h.kept rfl (by simp [StatusEvent.sets?, StatusEvent.reported])
  | called netif' f =>
    by_cases hne : netif' = netif
    · subst hne
      have hnew : ((S.call lwip netif' f).netifs netif').interface.isSet a =
          (f.sets a).getD ((S.netifs netif').interface.isSet a) := by
        simpa [StatusNet.call, NetIf.call] using
          hlwip.isSet f (S.netifs netif').interface S.lwip a
      have hrep := reported_notices hlwip S netif' f a
      rw [hnew] at hrep
      refine ⟨hnew.trans ?_, ?_⟩
      · cases hf : f.sets a with
        | none => simpa [settings, StatusEvent.sets?, hf] using h.flag
        | some b => simp [settings, StatusEvent.sets?, hf]
      · have hreports : reports netif' a (tr ++ [.called netif' f (S.notices lwip netif' f)]) =
            reports netif' a tr ++
              ((S.notices lwip netif' f).filter fun notice => notice.aspect = a).map Notice.up := by
          simp [reports, StatusEvent.reported]
        rw [Option.toList_some, hreports, hrep, ← List.cons_append, h.changes]
        cases hf : f.sets a with
        | none => simp [settings, StatusEvent.sets?, hf]
        | some b =>
          have hsettings : settings netif' a (tr ++ [.called netif' f (S.notices lwip netif' f)]) =
              settings netif' a tr ++ [b] := by
            simp [settings, StatusEvent.sets?, hf]
          rw [hsettings, Lists.destutter'_ne_snoc, ← h.flag, Option.getD_some]
    · exact h.kept (Function.update_of_ne (Ne.symm hne) _ _)
        (by simp [StatusEvent.sets?, StatusEvent.reported, hne])

/-! ## Which callbacks are called -/

/-- **The callbacks of the network are the ones that were set last.** -/
theorem callbacks_of_run {netifs : ℕ → NetIf} {s : σ}
    (h : StatusRun top timeoutMax table lwip (.new table now netifs s) tr S) :
    ∀ a, S.callbacks a = callbackAfter a tr := by
  refine h.invariant (I := fun tr S => ∀ a, S.callbacks a = callbackAfter a tr) (fun a => rfl)
    fun tr S ev S' _ hI hs a => ?_
  rw [callbackAfter, List.filterMap_append]
  cases statusTransition_of_step hs with
  | @network o => cases o <;> simpa [StatusEvent.callback?, callbackAfter] using hI a
  | callbacksSet hstatus hlink => cases a <;> simp [StatusEvent.callback?, hstatus, hlink]
  | called => simpa [StatusEvent.callback?, callbackAfter, StatusNet.call] using hI a

/-- So they are what is called. -/
theorem callback_of_called {netifs : ℕ → NetIf} {s : σ}
    (h : StatusRun top timeoutMax table lwip (.new table now netifs s) tr S)
    {pre post : List (StatusEvent T V n)} {f : NetIf.Call} {notices : List Notice}
    (htr : tr = pre ++ .called netif f notices :: post) {c : Notice} (hc : c ∈ notices) :
    c.callback = callbackAfter c.aspect pre := by
  subst htr
  obtain ⟨S₁, S₂, hpre, hs, -⟩ := h.split
  have hcallbacks := callbacks_of_run hpre
  generalize hev : some (StatusEvent.called netif f notices) = ev at hs
  cases statusTransition_of_step hs with
  | @network o => cases o <;> cases hev
  | callbacksSet => cases hev
  | called netif' f' =>
    cases hev
    obtain ⟨a, -, rfl⟩ := List.mem_map.mp hc
    exact hcallbacks a

/-! ## What is set up -/

omit [AddCommGroup T] [LinearOrder T] in
theorem toSetUpAfter_cases (S : StatusNet σ T V n) (table : Fin n → List ℕ)
    (o : Option (NetEvent T V n)) (k : Fin n) :
    S.toSetUpAfter table o k = S.toSetUp k ∨ S.toSetUpAfter table o k = setUpCalls table k := by
  unfold StatusNet.toSetUpAfter
  split
  · next k' t r =>
    split_ifs
    · by_cases hk : k = k'
      · subst hk
        exact .inr (Function.update_self _ _ _)
      · exact .inl (Function.update_of_ne hk _ _)
    · exact .inl rfl
  · exact .inl rfl

/-- **The calls of `_set_up_interfaces` that are not left were made.** -/
theorem setUp_of_run {netifs : ℕ → NetIf} {s : σ}
    (h : StatusRun top timeoutMax table lwip (.new table now netifs s) tr S) :
    ∀ k, ∀ p ∈ setUpCalls table k, p ∈ S.toSetUp k ∨ ∃ notices, .called p.1 p.2 notices ∈ tr := by
  refine h.invariant (I := fun tr S => ∀ k, ∀ p ∈ setUpCalls table k,
    p ∈ S.toSetUp k ∨ ∃ notices, .called p.1 p.2 notices ∈ tr) (fun k p hp => .inl hp)
    fun tr S ev S' _ hI hs k p hp => ?_
  have hold : p ∈ S.toSetUp k ∨ ∃ notices, .called p.1 p.2 notices ∈ tr ++ ev.toList :=
    (hI k p hp).imp_right fun ⟨notices, hmem⟩ => ⟨notices, List.mem_append_left _ hmem⟩
  cases statusTransition_of_step hs with
  | @network o =>
    refine hold.imp_left fun hmem => ?_
    rcases toSetUpAfter_cases S table o k with heq | heq
    · simpa only [heq] using hmem
    · simpa only [heq] using hp
  | callbacksSet => exact hold
  | called netif f hleft =>
    rcases hold with hmem | hcalled
    · rcases hleft with rfl | ⟨k', rest, hk', rfl⟩
      · exact .inl hmem
      · by_cases hk : k = k'
        · subst hk
          rw [hk'] at hmem
          rcases List.mem_cons.mp hmem with rfl | hmem
          · exact .inr ⟨S.notices lwip netif f, by simp⟩
          · exact .inl (by simpa using hmem)
        · exact .inl (by simpa [Function.update_of_ne hk] using hmem)
    · exact .inr hcalled

/-- A host whose thread has executed `_set_up_interfaces` without an
exception. -/
def SetUpBy (k : Fin n) (tr : List (StatusEvent T V n)) : Prop :=
  ∃ (t : Task T Obj) (v : V), t.action = .setUpInterfaces k ∧
    .network (.component (.host k) (.completed t (.result v))) ∈ tr

/-- **Such a host has made all calls.** -/
theorem called_of_setUpBy {netifs : ℕ → NetIf} {s : σ}
    (h : StatusRun top timeoutMax table lwip (.new table now netifs s) tr S) {k : Fin n}
    (hset : SetUpBy k tr) : ∀ p ∈ setUpCalls table k, ∃ notices, .called p.1 p.2 notices ∈ tr := by
  obtain ⟨t, v, haction, hmem⟩ := hset
  obtain ⟨pre, post, S₁, S₂, rfl, hpre, hs, -⟩ := h.exists_of_mem hmem
  have hmade := setUp_of_run hpre k
  generalize hev : some (StatusEvent.network _) = ev at hs
  cases statusTransition_of_step hs with
  | @network o _ hnet hadmits =>
    cases o with
    | none => cases hev
    | some e =>
      cases hev
      have hnil : S₁.toSetUp k = [] := by
        simpa [StatusNet.admits, haction] using hadmits
      intro p hp
      obtain ⟨notices, hcalled⟩ := (hmade p hp).resolve_left (by simp [hnil])
      exact ⟨notices, List.mem_append_left _ hcalled⟩
  | callbacksSet => cases hev
  | called => cases hev

end Runs

/-! ## The network that was built -/

namespace EthernetNetwork

/-- **The network that the steps are those of**: its hosts, and its interfaces
on the bus and in the tables of the stacks, in whatever order a dictionary
gives them. -/
structure Deploys (net : EthernetNetwork) (hosts : Fin n → ℕ) (top : Topology n)
    (table : Fin n → List ℕ) : Prop where
  managed : (List.ofFn hosts).Perm net.hosts.values
  onBus : (top.interfaces.map fun e => (e.1, hosts e.2)) =
    net.busInterfaces.map fun e => (e.1.id, e.2)
  inStack : ∀ k, (table k).Perm ((net.stackInterfaces (hosts k)).values.map Interface.id)

/-- There is one if every interface on the bus is that of a host in the
table. -/
theorem exists_deploys {calls : List AddHostCall}
    (h : ∀ e ∈ (after calls).busInterfaces, e.2 ∈ (after calls).hosts.values) :
    ∃ (n : ℕ) (hosts : Fin n → ℕ) (top : Topology n) (table : Fin n → List ℕ),
      (after calls).Deploys hosts top table := by
  obtain ⟨net, hnet⟩ : ∃ net, after calls = net := ⟨_, rfl⟩
  have hnodup := (configured calls).nodup
  rw [hnet] at h hnodup ⊢
  have hlt : ∀ e ∈ net.busInterfaces, net.hosts.values.idxOf e.2 < net.hosts.values.length :=
    fun e he => List.idxOf_lt_length_of_mem (h e he)
  refine ⟨net.hosts.values.length, net.hosts.values.get,
    ⟨net.busInterfaces.pmap (fun e he => (e.1.id, ⟨_, he⟩)) hlt, ?_⟩, fun k =>
    (net.stackInterfaces (net.hosts.values.get k)).values.map Interface.id, ?_, ?_, fun k => .rfl⟩
  · simpa [List.map_pmap] using hnodup
  · rw [List.ofFn_get]
  · simp [List.map_pmap]

/-- Of a managed network, what is on the bus is in the table of its own host. -/
theorem Deploys.mem_table {net : EthernetNetwork} {hosts : Fin n → ℕ} {top : Topology n}
    {table : Fin n → List ℕ} (h : net.Deploys hosts top table) (hmanaged : net.Managed) {netif : ℕ}
    {k : Fin n} (hbus : (netif, k) ∈ top.interfaces) : netif ∈ table k := by
  have hmem : (netif, hosts k) ∈ net.busInterfaces.map fun e => (e.1.id, e.2) := by
    rw [← h.onBus]
    exact List.mem_map.mpr ⟨_, hbus, rfl⟩
  obtain ⟨e, he, heq⟩ := List.mem_map.mp hmem
  obtain ⟨rfl, hhost⟩ := Prod.mk.inj heq
  rw [(h.inStack k).mem_iff, ← hhost]
  exact List.mem_map_of_mem (hmanaged e he).2

end EthernetNetwork

/-! ## What the callbacks are told -/

section Told

variable [AddCommGroup T] [LinearOrder T] {top : Topology n} {timeoutMax now : T}
  {table : Fin n → List ℕ} {lwip : Reporting σ} {S : StatusNet σ T V n}
  {tr : List (StatusEvent T V n)} {netifs : ℕ → NetIf} {s : σ}

theorem reported_of_run (hlwip : lwip.Documented)
    (hadded : ∀ i, IsAdded lwip.toNative (netifs i))
    (h : StatusRun top timeoutMax table lwip (.new table now netifs s) tr S) (netif : ℕ)
    (a : Aspect) : Reported netif a tr S := by
  refine h.invariant (I := Reported netif a) ⟨(hadded netif).isSet_eq_false a, rfl⟩
    fun tr S ev S' _ hI hs => hI.step hlwip (statusTransition_of_step hs)

/-- **A host that has set its interfaces up** has set both flags of each. -/
theorem true_mem_settings
    (h : StatusRun top timeoutMax table lwip (.new table now netifs s) tr S) {k : Fin n}
    (hset : SetUpBy k tr) {netif : ℕ} (hmem : netif ∈ table k) (a : Aspect) :
    true ∈ settings netif a tr := by
  have hcall : ∃ f : NetIf.Call, (netif, f) ∈ setUpCalls table k ∧ f.sets a = some true := by
    cases a with
    | status => exact ⟨.setUp, List.mem_flatMap.mpr ⟨netif, hmem, by simp⟩, rfl⟩
    | link => exact ⟨.setLinkUp, List.mem_flatMap.mpr ⟨netif, hmem, by simp⟩, rfl⟩
  obtain ⟨f, hf, hsets⟩ := hcall
  obtain ⟨notices, hcalled⟩ := called_of_setUpBy h hset _ hf
  exact List.mem_filterMap.mpr ⟨_, hcalled, by simpa [StatusEvent.sets?] using hsets⟩

/-- **The callbacks tell the status of the network's interfaces.** In every
run of a network that was built so that everything on the bus is managed, with
the calls of `StatusMove` in between, for every interface on the bus and each
of its two flags: the flag is as it was set last; its callback was told every
change of it, once and in order, and nothing else; what was told went to the
network's callback that was set last.
And once the interface's host has executed `_set_up_interfaces`, the flag was
set; where nobody resets it, it is set now, and its callback was called
exactly once. -/
theorem interfaces_reported {calls : List AddHostCall} {hosts : Fin n → ℕ}
    (hbuilt : (EthernetNetwork.after calls).Deploys hosts top table)
    (hmanaged : (EthernetNetwork.after calls).Managed) (hlwip : lwip.Documented)
    (hadded : ∀ i, IsAdded lwip.toNative (netifs i))
    (h : StatusRun top timeoutMax table lwip (.new table now netifs s) tr S) {netif : ℕ}
    {k : Fin n} (hbus : (netif, k) ∈ top.interfaces) (a : Aspect) :
    (S.netifs netif).interface.isSet a = (settings netif a tr).getLastD false ∧
    false :: reports netif a tr = (settings netif a tr).destutter' (· ≠ ·) false ∧
    (∀ pre f notices post, tr = pre ++ .called netif f notices :: post →
      ∀ c ∈ notices, c.callback = callbackAfter c.aspect pre) ∧
    (SetUpBy k tr → true ∈ settings netif a tr ∧
      (false ∉ settings netif a tr →
        (S.netifs netif).interface.isSet a = true ∧ reports netif a tr = [true])) := by
  have hrep := reported_of_run hlwip hadded h netif a
  refine ⟨hrep.flag, hrep.changes, fun pre f notices post htr c hc => callback_of_called h htr hc,
    fun hset => ?_⟩
  have hmem : true ∈ settings netif a tr :=
    true_mem_settings h hset (hbuilt.mem_table hmanaged hbus) a
  refine ⟨hmem, fun hdown => ?_⟩
  have hall : ∀ b ∈ settings netif a tr, b = true :=
    fun b hb => Bool.eq_true_of_not_eq_false fun hb' => hdown (hb' ▸ hb)
  have hne : settings netif a tr ≠ [] := List.ne_nil_of_mem hmem
  have hchanges := hrep.changes
  rw [Lists.destutter'_ne_of_forall_eq hne hall (by simp)] at hchanges
  refine ⟨?_, (List.cons.inj hchanges).2⟩
  rw [hrep.flag, List.getLastD_eq_getLast?, List.getLast?_eq_some_getLast hne]
  exact hall _ (List.getLast_mem hne)

end Told

/-! ## The smallest network -/

/-- One host with one interface. -/
def minimumNetwork : List AddHostCall :=
  [⟨"peer_one", [[some "p1.eth1", some "127.3.2.1", some "255.255.255.0", some "127.0.0.0"]], true⟩]

def minimumTopology : Topology 1 := ⟨[(0, Fin.last 0)], by decide⟩

def minimumTable (_host : Fin 1) : List ℕ := [0]

theorem deploys_minimumNetwork :
    (EthernetNetwork.after minimumNetwork).Deploys (fun _ => 0) minimumTopology minimumTable := by
  have hhosts : (EthernetNetwork.after minimumNetwork).hosts.values = [0] := by decide
  have htable : ((EthernetNetwork.after minimumNetwork).stackInterfaces 0).values.map
      Interface.id = [0] := by decide
  exact ⟨by rw [hhosts]; rfl, by decide, fun k => by rw [htable]; rfl⟩

theorem managed_minimumNetwork : (EthernetNetwork.after minimumNetwork).Managed := by
  have hbus : (EthernetNetwork.after minimumNetwork).busInterfaces =
      [(⟨0, ⟨0x0102037F⟩, some ⟨0x00FFFFFF⟩, some ⟨0x0000007F⟩⟩, 0)] := by decide
  intro e he
  rw [hbus, List.mem_singleton] at he
  subst he
  exact ⟨by decide, by decide⟩

/-- Its interface, before it is added. -/
def newNetIf : NetIf := ⟨"p1.eth1", ⟨⟨none⟩, ⟨0⟩, ⟨0⟩, ⟨0⟩, 0⟩⟩

/-- Both callbacks are set, the network is started, and its host sets its
interface up. -/
def setUpOnce : List (StatusMove ℤ ℕ 1) :=
  [.setStatusCallbacks (some 5) (some 5), .network 0 .control, .network 1 .control,
    .network 2 .control, .network 3 .control, .network 4 (.work (.host (Fin.last 0)) .enterRun),
    .network 5 (.setUpInterfaces (Fin.last 0)), .network 6 (.work (.host (Fin.last 0)) (.turn 6)),
    .network 7 (.work (.host (Fin.last 0)) .take), .setUpNext (Fin.last 0),
    .setUpNext (Fin.last 0), .network 8 (.work (.host (Fin.last 0)) (.finish (.result 0)))]

def setUpOutcome : StatusNet Unit ℤ ℕ 1 × List (StatusEvent ℤ ℕ 1) :=
  outcome (StatusNet.step minimumTopology 100 minimumTable plainReporting)
    (.new minimumTable 0 (fun _ =>
      (newNetIf.add plainReporting.toNative 0 (some ⟨0x0102037F⟩) none none ()).1.setEtharpFlag) ())
    setUpOnce (by decide)

/-- Each callback was called once, about what had come up. -/
theorem interfaces_reported_setUpOnce :
    (setUpOutcome.1.netifs 0).interface.isSet .status = true ∧
      reports 0 .status setUpOutcome.2 = [true] ∧
      (setUpOutcome.1.netifs 0).interface.isSet .link = true ∧
      reports 0 .link setUpOutcome.2 = [true] ∧
      .called 0 .setUp [⟨.status, true, some 5⟩] ∈ setUpOutcome.2 := by
  have hrun : StatusRun minimumTopology 100 minimumTable plainReporting _ setUpOutcome.2
      setUpOutcome.1 := run_outcome _ _ _ _
  have hset : SetUpBy (Fin.last 0) setUpOutcome.2 :=
    ⟨⟨5, 0, .setUpInterfaces 0, [], [], 0⟩, 0, rfl, by decide⟩
  have htold : ∀ a, false ∉ settings 0 a setUpOutcome.2 →
      (setUpOutcome.1.netifs 0).interface.isSet a = true ∧ reports 0 a setUpOutcome.2 = [true] :=
    fun a => ((interfaces_reported deploys_minimumNetwork managed_minimumNetwork
      plainReporting_documented (fun _ => ⟨newNetIf, 0, _, _, _, (), rfl⟩) hrun
      List.mem_cons_self a).2.2.2 hset).2
  obtain ⟨hup, hstatus⟩ := htold .status (by decide)
  obtain ⟨hlink, hlinks⟩ := htold .link (by decide)
  exact ⟨hup, hstatus, hlink, hlinks, by decide⟩

end PyLwip
