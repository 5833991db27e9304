import PyLwip.Common.Dict
import PyLwip.Common.Run
import PyLwip.Stack.IpAddress

/-!
# Adding hosts to the network

`add_host` connects the interfaces of a host to the bus one after the other,
and enters the host in the network's table after the last one. Both tables it
fills are dictionaries: of the hosts by their names, and of the interfaces of
a stack by theirs. What the bus delivers to is managed while every callback
on it is that of a host in the table, for an interface in the host's own
table.
-/

namespace PyLwip

open EventSystem

/-! ## The network before its start -/

/-- What adding a host raises. -/
inductive AddError
  | typeError
  | attributeError
  | valueError
  | osError
deriving DecidableEq

/-- `NetIf`, by identity, with what it is added to lwIP with. -/
structure Interface where
  id : ℕ
  ipAddress : IpV4Addr
  netmask : Option IpV4Addr
  gateway : Option IpV4Addr
deriving DecidableEq

/-- `EthernetNetwork` with its bus and its hosts. A host is known by its
number; on the bus it stands for its `on_incoming_data`. -/
structure EthernetNetwork where
  busInterfaces : List (Interface × ℕ)
  hosts : Dict String ℕ
  stackInterfaces : ℕ → Dict (Option String) Interface
  hostsMade : ℕ
  interfacesMade : ℕ

/-- A call of `add_host`. An interface is the arguments of
`add_network_interface`, of which any may be `None`; `libraryLoads` tells
whether the stack's library can be loaded. -/
structure AddHostCall where
  hostName : String
  hostInterfaces : List (List (Option String))
  libraryLoads : Bool

/-! ## The calls -/

/-- `IpV4Addr(address)`. `None` has no `split`. -/
def readAddress : Option String → Except AddError IpV4Addr
  | none => .error .attributeError
  | some text =>
    match IpV4Addr.ofString text with
    | some address => .ok address
    | none => .error .valueError

/-- `IpV4Addr(mask) if mask else None`. -/
def readOptional (text : Option String) : Except AddError (Option IpV4Addr) :=
  match IpV4Addr.ofText text with
  | some address => .ok address
  | none => .error .valueError

/-- The addresses of an interface, in the order they are read. -/
def readAddresses (address mask gateway : Option String) :
    Except AddError (IpV4Addr × Option IpV4Addr × Option IpV4Addr) := do
  let interfaceIp ← readAddress address
  let networkMask ← readOptional mask
  let gateway ← readOptional gateway
  pure (interfaceIp, networkMask, gateway)

@[simp] theorem isOk_ok {ε α : Type} (a : α) : (.ok a : Except ε α).isOk = true := rfl

@[simp] theorem isOk_error {ε α : Type} (e : ε) : (.error e : Except ε α).isOk = false := rfl

/-- The arguments of `add_network_interface`: two, three or four. -/
def readInterface : List (Option String) →
    Except AddError (Option String × IpV4Addr × Option IpV4Addr × Option IpV4Addr)
  | [name, address] => (readAddresses address none none).map fun a => (name, a)
  | [name, address, mask] => (readAddresses address mask none).map fun a => (name, a)
  | [name, address, mask, gateway] => (readAddresses address mask gateway).map fun a => (name, a)
  | _ => .error .typeError

namespace EthernetNetwork

/-- A network without hosts. -/
def new : EthernetNetwork := ⟨[], ∅, fun _ => ∅, 0, 0⟩

/-- `add_network_interface` of a host. `make_interface` enters the interface
in the table of the host's stack. -/
def addNetworkInterface (net : EthernetNetwork) (host : ℕ) (arguments : List (Option String)) :
    Except AddError Interface × EthernetNetwork :=
  match readInterface arguments with
  | .error e => (.error e, net)
  | .ok (name, interfaceIp, networkMask, gateway) =>
    let interface : Interface := ⟨net.interfacesMade, interfaceIp, networkMask, gateway⟩
    (.ok interface, { net with
      stackInterfaces := Function.update net.stackInterfaces host
        ((net.stackInterfaces host).set name interface)
      interfacesMade := net.interfacesMade + 1 })

/-- `add_interface` of the bus, with the host's `on_incoming_data`. -/
def addInterface (net : EthernetNetwork) (interface : Interface) (host : ℕ) : EthernetNetwork :=
  { net with busInterfaces := net.busInterfaces ++ [(interface, host)] }

/-- The loop of `add_host`. -/
def addInterfaces (host : ℕ) : List (List (Option String)) → EthernetNetwork →
    Except AddError Unit × EthernetNetwork
  | [], net => (.ok (), net)
  | interface :: rest, net =>
    match net.addNetworkInterface host interface with
    | (.error e, net') => (.error e, net')
    | (.ok newInterface, net') => addInterfaces host rest (net'.addInterface newInterface host)

/-- A new host, whose stack has no interfaces. -/
def makeHost (net : EthernetNetwork) : EthernetNetwork :=
  { net with
    stackInterfaces := Function.update net.stackInterfaces net.hostsMade ∅
    hostsMade := net.hostsMade + 1 }

/-- `add_host`. -/
def addHost (net : EthernetNetwork) (call : AddHostCall) : Except AddError Unit × EthernetNetwork :=
  if call.libraryLoads then
    let host := net.hostsMade
    match addInterfaces host call.hostInterfaces net.makeHost with
    | (.error e, net') => (.error e, net')
    | (.ok _, net') => (.ok (), { net' with hosts := net'.hosts.set call.hostName host })
  else (.error .osError, net)

/-- What a call leaves for the next one, returned or raised. -/
def next (net : EthernetNetwork) (call : AddHostCall) : EthernetNetwork := (net.addHost call).2

/-! ## What the bus delivers to is managed -/

/-- **Everything attached to the bus is managed**: it belongs to a host in
the table, which is started and stopped, and to an interface in the table of
that host's stack, which is set up. -/
def Managed (net : EthernetNetwork) : Prop :=
  ∀ e ∈ net.busInterfaces, e.2 ∈ net.hosts.values ∧ e.1 ∈ (net.stackInterfaces e.2).values

/-- The arguments of an interface can be read. -/
def Readable (interface : List (Option String)) : Prop := (readInterface interface).isOk = true

/-- **A call keeps everything managed**: it raises before an interface is
made; or all its interfaces can be read, their names are distinct, and the
host whose name it takes over, if there is one, is not on the bus. -/
def Manageable (net : EthernetNetwork) (call : AddHostCall) : Prop :=
  call.libraryLoads = false ∨ (∃ interface ∈ call.hostInterfaces.head?, ¬ Readable interface) ∨
    (∀ interface ∈ call.hostInterfaces, Readable interface) ∧
      (call.hostInterfaces.map List.head?).Nodup ∧
      ∀ host, net.hosts.lookup call.hostName = some host → ∀ e ∈ net.busInterfaces, e.2 ≠ host

/-- The interfaces that a call makes, with the names they are entered by, up
to the first that cannot be read. -/
def makes (next : ℕ) : List (List (Option String)) → List (Option String × Interface)
  | [] => []
  | interface :: rest =>
    match readInterface interface with
    | .error _ => []
    | .ok (name, interfaceIp, networkMask, gateway) =>
      (name, ⟨next, interfaceIp, networkMask, gateway⟩) :: makes (next + 1) rest

variable {net net' : EthernetNetwork} {call : AddHostCall} {host n : ℕ}
  {interfaces : List (List (Option String))}

/-- **What the loop of `add_host` does.** -/
theorem addInterfaces_eq (host : ℕ) (interfaces : List (List (Option String)))
    (net : EthernetNetwork) :
    (addInterfaces host interfaces net).2 = { net with
      busInterfaces := net.busInterfaces ++
        (makes net.interfacesMade interfaces).map fun a => (a.2, host)
      stackInterfaces := Function.update net.stackInterfaces host
        ((net.stackInterfaces host).assign (makes net.interfacesMade interfaces))
      interfacesMade := net.interfacesMade + (makes net.interfacesMade interfaces).length } := by
  induction interfaces generalizing net with
  | nil => simp [addInterfaces, makes, Dict.assign]
  | cons interface rest ih =>
    rw [addInterfaces, addNetworkInterface, makes]
    cases readInterface interface with
    | error e => simp [Dict.assign]
    | ok a =>
      simp only [ih]
      simp [addInterface, Dict.assign, Nat.add_assoc, Nat.add_comm]

/-- It returns if all interfaces can be read. -/
theorem addInterfaces_ok_iff (host : ℕ) (interfaces : List (List (Option String)))
    (net : EthernetNetwork) :
    (addInterfaces host interfaces net).1 = .ok () ↔ ∀ i ∈ interfaces, Readable i := by
  induction interfaces generalizing net with
  | nil => simp [addInterfaces]
  | cons interface rest ih =>
    rw [addInterfaces, addNetworkInterface, List.forall_mem_cons, Readable]
    cases readInterface interface with
    | error e => simp
    | ok a => simp [ih]

/-- The interfaces made are new and distinct. -/
theorem makes_ids : (makes n interfaces).map (fun a => a.2.id) =
    List.range' n (makes n interfaces).length := by
  induction interfaces generalizing n with
  | nil => rfl
  | cons interface rest ih =>
    rw [makes]
    cases readInterface interface with
    | error e => rfl
    | ok a => simp [ih, List.range'_succ]

theorem makes_nodup : ((makes n interfaces).map Prod.snd).Nodup := by
  have hids : ((makes n interfaces).map fun a => a.2.id).Nodup := by
    rw [makes_ids]
    exact List.nodup_range'
  rw [show (fun a : Option String × Interface => a.2.id) = Interface.id ∘ Prod.snd from rfl,
    ← List.map_map] at hids
  exact hids.of_map

theorem readInterface_name {interface : List (Option String)}
    {a : Option String × IpV4Addr × Option IpV4Addr × Option IpV4Addr}
    (h : readInterface interface = .ok a) : interface.head? = some a.1 := by
  have hmap : ∀ (name : Option String) (r : Except AddError _),
      (r.map fun a => (name, a)) = .ok a → some name = some a.1 := by
    intro name r hr
    cases r with
    | error e => cases hr
    | ok b =>
      cases hr
      rfl
  unfold readInterface at h
  split at h
  · exact hmap _ _ h
  · exact hmap _ _ h
  · exact hmap _ _ h
  · cases h

/-- Interfaces that can be read are entered by the names they are given. -/
theorem makes_names (h : ∀ i ∈ interfaces, Readable i) :
    (makes n interfaces).map (fun a => some a.1) = interfaces.map List.head? := by
  induction interfaces generalizing n with
  | nil => rfl
  | cons interface rest ih =>
    obtain ⟨hread, hrest⟩ := List.forall_mem_cons.mp h
    rw [makes]
    cases ha : readInterface interface with
    | error e => simp [Readable, ha] at hread
    | ok a => simp [ih hrest, readInterface_name ha]

theorem makes_eq_nil_iff :
    makes n interfaces = [] ↔ interfaces = [] ∨ ∃ i ∈ interfaces.head?, ¬ Readable i := by
  cases interfaces with
  | nil => simp [makes]
  | cons interface rest =>
    rw [makes]
    cases ha : readInterface interface with
    | error e => simp [Readable, ha]
    | ok a => simp [Readable, ha]

/-! ## Runs of calls -/

/-- **What holds between calls**: the numbers of hosts to come are not used,
and a host is in the table at most once. -/
structure Numbered (net : EthernetNetwork) : Prop where
  bus_lt : ∀ e ∈ net.busInterfaces, e.2 < net.hostsMade
  hosts_lt : ∀ name host, net.hosts.lookup name = some host → host < net.hostsMade
  once : ∀ name name' host, net.hosts.lookup name = some host →
    net.hosts.lookup name' = some host → name = name'

theorem numbered_new : new.Numbered :=
  ⟨by simp [new], by simp [new], by simp [new]⟩

/-- The interfaces that a call connects to the bus. -/
abbrev made (net : EthernetNetwork) (call : AddHostCall) : List (Option String × Interface) :=
  makes net.interfacesMade call.hostInterfaces

/-- The network after the loop of a call. -/
def afterLoop (net : EthernetNetwork) (call : AddHostCall) : EthernetNetwork :=
  { net with
    busInterfaces := net.busInterfaces ++ (net.made call).map fun a => (a.2, net.hostsMade)
    stackInterfaces := Function.update net.stackInterfaces net.hostsMade
      (Dict.assign ∅ (net.made call))
    interfacesMade := net.interfacesMade + (net.made call).length
    hostsMade := net.hostsMade + 1 }

/-- **The outcomes of `add_host`.** -/
theorem addHost_cases (net : EthernetNetwork) (call : AddHostCall) :
    (call.libraryLoads = false ∧ (net.addHost call).2 = net) ∨
    call.libraryLoads = true ∧
      (((∀ i ∈ call.hostInterfaces, Readable i) ∧ (net.addHost call).2 = { net.afterLoop call with
          hosts := net.hosts.set call.hostName net.hostsMade }) ∨
        ¬ (∀ i ∈ call.hostInterfaces, Readable i) ∧ (net.addHost call).2 = net.afterLoop call) := by
  cases hloads : call.libraryLoads with
  | false => exact .inl ⟨rfl, by simp [addHost, hloads]⟩
  | true =>
    refine .inr ⟨rfl, ?_⟩
    obtain ⟨⟨out, net'⟩, hloop⟩ :
      ∃ r, addInterfaces net.hostsMade call.hostInterfaces net.makeHost = r := ⟨_, rfl⟩
    have hafter : net' = net.afterLoop call := by
      have h := addInterfaces_eq net.hostsMade call.hostInterfaces net.makeHost
      rw [hloop] at h
      simpa [makeHost, afterLoop] using h
    have hok := addInterfaces_ok_iff net.hostsMade call.hostInterfaces net.makeHost
    rw [hloop] at hok
    rw [addHost, if_pos hloads]
    simp only [hloop]
    subst hafter
    cases out with
    | ok u => exact .inl ⟨hok.mp rfl, rfl⟩
    | error e =>
      refine .inr ⟨fun h => ?_, rfl⟩
      cases hok.mpr h

/-- The tables of the hosts that were there stay as they are. -/
theorem afterLoop_stackInterfaces_of_lt (h : host < net.hostsMade) :
    (net.afterLoop call).stackInterfaces host = net.stackInterfaces host :=
  Function.update_of_ne (Nat.ne_of_lt h) _ _

/-- The table of the new host. -/
theorem afterLoop_stackInterfaces_self :
    (net.afterLoop call).stackInterfaces net.hostsMade = Dict.assign ∅ (net.made call) :=
  Function.update_self ..

theorem Numbered.afterLoop (h : net.Numbered) : (net.afterLoop call).Numbered := by
  constructor
  · intro e he
    rcases List.mem_append.mp he with he | he
    · exact (h.bus_lt e he).trans (Nat.lt_succ_self _)
    · obtain ⟨a, -, rfl⟩ := List.mem_map.mp he
      exact Nat.lt_succ_self _
  · exact fun name host hname => (h.hosts_lt name host hname).trans (Nat.lt_succ_self _)
  · exact h.once

/-- A call keeps the numbering. -/
theorem Numbered.addHost (h : net.Numbered) (call : AddHostCall) :
    (net.addHost call).2.Numbered := by
  rcases addHost_cases net call with ⟨-, heq⟩ | ⟨-, ⟨-, heq⟩ | ⟨-, heq⟩⟩
  · rwa [heq]
  · rw [heq]
    have hafter : (net.afterLoop call).Numbered := h.afterLoop
    refine ⟨hafter.bus_lt, fun name host hname => ?_,
      fun name name' host hname hname' => ?_⟩
    · rcases Dict.lookup_set_cases hname with ⟨rfl, rfl⟩ | ⟨-, hname⟩
      · exact Nat.lt_succ_self _
      · exact (h.hosts_lt name host hname).trans (Nat.lt_succ_self _)
    · -- the number of the new host is not that of one entered before
      rcases Dict.lookup_set_cases hname with ⟨rfl, rfl⟩ | ⟨-, hname⟩
      · rcases Dict.lookup_set_cases hname' with ⟨rfl, -⟩ | ⟨-, hname'⟩
        · rfl
        · exact absurd (h.hosts_lt _ _ hname') (lt_irrefl _)
      · rcases Dict.lookup_set_cases hname' with ⟨rfl, rfl⟩ | ⟨-, hname'⟩
        · exact absurd (h.hosts_lt _ _ hname) (lt_irrefl _)
        · exact h.once _ _ _ hname hname'
  · rw [heq]
    exact h.afterLoop

/-- A host that is not in the table afterwards has nothing on the bus. -/
theorem Managed.afterLoop_iff (hm : net.Managed) (hn : net.Numbered) :
    (net.afterLoop call).Managed ↔ net.made call = [] := by
  constructor
  · intro hafter
    refine List.eq_nil_iff_forall_not_mem.mpr fun a ha => ?_
    -- the new host was not entered
    have hbus : (a.2, net.hostsMade) ∈ (net.afterLoop call).busInterfaces :=
      List.mem_append_right _ (List.mem_map.mpr ⟨a, ha, rfl⟩)
    obtain ⟨name, hname⟩ := Dict.mem_values_iff.mp (hafter _ hbus).1
    exact absurd (hn.hosts_lt name _ hname) (lt_irrefl _)
  · intro hnil e he
    have hold : e ∈ net.busInterfaces := by simpa [afterLoop, hnil] using he
    obtain ⟨hhost, htable⟩ := hm e hold
    exact ⟨hhost, by rwa [afterLoop_stackInterfaces_of_lt (hn.bus_lt e hold)]⟩

/-- What is left in the table of the new host. -/
theorem made_left_iff (hread : ∀ i ∈ call.hostInterfaces, Readable i) :
    (∀ a ∈ net.made call, a.2 ∈ ((net.afterLoop call).stackInterfaces net.hostsMade).values) ↔
      (call.hostInterfaces.map List.head?).Nodup := by
  rw [afterLoop_stackInterfaces_self, Dict.all_left_iff makes_nodup, ← makes_names hread,
    show (fun a : Option String × Interface => some a.1) = some ∘ Prod.fst from rfl,
    ← List.map_map, List.nodup_map_iff (Option.some_injective _)]

/-- **A call that returns**: its interfaces have to be left in their table,
and the host it replaces has to be off the bus. -/
theorem Managed.entered_iff (hm : net.Managed) (hn : net.Numbered)
    (hread : ∀ i ∈ call.hostInterfaces, Readable i) :
    ({ net.afterLoop call with
        hosts := net.hosts.set call.hostName net.hostsMade } : EthernetNetwork).Managed ↔
      (call.hostInterfaces.map List.head?).Nodup ∧
        ∀ host, net.hosts.lookup call.hostName = some host →
          ∀ e ∈ net.busInterfaces, e.2 ≠ host := by
  rw [← made_left_iff hread]
  constructor
  · intro hafter
    refine ⟨fun a ha => ?_, fun host hname e he heq => ?_⟩
    · exact (hafter (a.2, net.hostsMade)
        (List.mem_append_right _ (List.mem_map.mpr ⟨a, ha, rfl⟩))).2
    · -- the host of this name had its only entry replaced
      subst heq
      rcases Dict.mem_values_set_iff.mp (hafter e (List.mem_append_left _ he)).1 with
        hnew | ⟨name, hne, hname'⟩
      · exact absurd (hn.bus_lt e he) (by omega)
      · exact hne (hn.once _ _ _ hname' hname)
  · rintro ⟨hleft, hoff⟩ e he
    rcases List.mem_append.mp he with he | he
    · obtain ⟨hhost, htable⟩ := hm e he
      obtain ⟨name, hname⟩ := Dict.mem_values_iff.mp hhost
      refine ⟨Dict.mem_values_set_iff.mpr (.inr ⟨name, ?_, hname⟩), ?_⟩
      · rintro rfl
        exact hoff _ hname e he rfl
      · exact (afterLoop_stackInterfaces_of_lt (hn.bus_lt e he)).symm ▸ htable
    · obtain ⟨a, ha, rfl⟩ := List.mem_map.mp he
      exact ⟨Dict.mem_values_set_iff.mpr (.inl rfl), hleft a ha⟩

/-- **The step lemma**: a call keeps everything managed exactly if it is
manageable. -/
theorem Managed.addHost_iff (hm : net.Managed) (hn : net.Numbered) (call : AddHostCall) :
    (net.next call).Managed ↔ net.Manageable call := by
  rw [next]
  rcases addHost_cases net call with ⟨hloads, heq⟩ | ⟨hloads, ⟨hread, heq⟩ | ⟨hread, heq⟩⟩
  · rw [heq]
    exact iff_of_true hm (.inl hloads)
  · rw [heq, hm.entered_iff hn hread, Manageable, hloads]
    have hhead : ¬ ∃ i ∈ call.hostInterfaces.head?, ¬ Readable i := by
      rintro ⟨i, hi, hnot⟩
      exact hnot (hread i (List.mem_of_mem_head? hi))
    rw [or_iff_right (by simp), or_iff_right hhead, and_iff_right hread]
  · rw [heq, hm.afterLoop_iff hn, makes_eq_nil_iff, Manageable, hloads]
    have hne : call.hostInterfaces ≠ [] := by
      intro hnil
      exact hread (by simp [hnil])
    simp [hne, hread]

/-- **Everything on the bus stays managed exactly if every call is
manageable** in the state it finds. -/
theorem managed_iff (calls : List AddHostCall) :
    EachCall next (fun net call => (net.next call).Managed) calls new ↔
      EachCall next Manageable calls new := by
  refine EachCall.congr (I := fun net => net.Managed ∧ net.Numbered) ?_
    ⟨by simp [Managed, new], numbered_new⟩ calls
  rintro net call ⟨hm, hn⟩
  have hiff := hm.addHost_iff hn call
  exact ⟨hiff, fun hcall => ⟨hiff.mpr hcall, hn.addHost call⟩⟩

end EthernetNetwork

/-- A host of which the second interface has an address that is none. -/
def halfAdded : AddHostCall :=
  ⟨"h", [[some "eth0", some "10.0.0.1"], [some "eth1", some "10.0.0.x"]], true⟩

/-- **A call that raises part-way leaves an interface on the bus** of a host
that nobody starts. -/
theorem half_added_host_unmanaged :
    (EthernetNetwork.new.addHost halfAdded).1 = .error .valueError ∧
      (EthernetNetwork.new.addHost halfAdded).2.busInterfaces =
        [(⟨0, ⟨0x0100000A⟩, none, none⟩, 0)] ∧
      (EthernetNetwork.new.addHost halfAdded).2.hosts.values = [] ∧
      ¬ EachCall EthernetNetwork.next (fun net call => (net.next call).Managed) [halfAdded]
        EthernetNetwork.new := by
  have hbus : (EthernetNetwork.new.addHost halfAdded).2.busInterfaces =
      [(⟨0, ⟨0x0100000A⟩, none, none⟩, 0)] := by decide
  have hhosts : (EthernetNetwork.new.addHost halfAdded).2.hosts.values = [] := by decide
  refine ⟨by decide, hbus, hhosts, ?_⟩
  rintro ⟨hmanaged, -⟩
  have hmem : 0 ∈ (EthernetNetwork.new.addHost halfAdded).2.hosts.values :=
    (hmanaged _ (hbus ▸ List.mem_singleton_self _)).1
  rw [hhosts] at hmem
  cases hmem

end PyLwip
