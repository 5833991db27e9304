import PyLwip.Common.Lists
import PyLwip.Emulation.AddHost
import PyLwip.Stack.NetIf

/-!
# A network is what it was configured as

`get_host` and `get_interface` read the dictionaries that `add_host` fills. A
call that raises enters no host, and one that takes over a name takes over
all that was found by it: so after any calls a name leads to what the last
call with it that returned has said, and a name of an interface to the last
of its arguments with that name. The address of the interface is printed as
the text it was given by.
-/

namespace PyLwip

/-! ## What is found -/

namespace EthernetNetwork

/-- `get_host`, `none` where it raises `KeyError`. -/
def getHost (net : EthernetNetwork) (hostName : String) : Option ℕ := net.hosts.lookup hostName

/-- `get_interface` of a host, `none` where it raises `KeyError`. -/
def getInterface (net : EthernetNetwork) (host : ℕ) (name : Option String) : Option Interface :=
  (net.stackInterfaces host).lookup name

/-- The network after calls of `add_host`. -/
def after (calls : List AddHostCall) : EthernetNetwork := calls.foldl next new

instance (interface : List (Option String)) : Decidable (Readable interface) :=
  inferInstanceAs (Decidable (_ = true))

end EthernetNetwork

/-- The words of the addresses. -/
def Interface.words (i : Interface) : IpV4Addr × Option IpV4Addr × Option IpV4Addr :=
  (i.ipAddress, i.netmask, i.gateway)

/-- **`get_address` gives the text**, however lwIP goes on storing the words that
it was given, and whatever the interface has been used for since it was added
last. To add it again is to configure it anew. -/
def Interface.Prints (i : Interface) (text : String) : Prop :=
  ∀ (σ : Type) (lwip : NetIf.Native σ), lwip.StoresWords →
    ∀ (netif : NetIf) (pyObject : ℕ) (s : σ) (uses : List NetIf.Use),
      (uses.foldl (NetIf.use lwip)
        (netif.add lwip pyObject (some i.ipAddress) i.netmask i.gateway s)).1.getAddress = text

/-! ## What was said -/

namespace AddHostCall

/-- The call returns. -/
def Returns (call : AddHostCall) : Prop :=
  call.libraryLoads = true ∧ ∀ i ∈ call.hostInterfaces, EthernetNetwork.Readable i

instance (call : AddHostCall) : Decidable call.Returns :=
  inferInstanceAs (Decidable (_ ∧ _))

/-- The last arguments of this name. -/
def entry (call : AddHostCall) (name : Option String) : Option (List (Option String)) :=
  call.hostInterfaces.reverse.find? fun i => i.head? = some name

/-- The words of these arguments. -/
def wordsOf (call : AddHostCall) (name : Option String) :
    Option (IpV4Addr × Option IpV4Addr × Option IpV4Addr) :=
  (call.entry name).bind fun i => (readInterface i).toOption.map Prod.snd

/-- Their address. -/
def addressText (call : AddHostCall) (name : Option String) : Option String :=
  (call.entry name).bind fun i => i[1]?.join

end AddHostCall

/-- **The configuration of a host**: the last call with its name that
returned. -/
def configurationOf (calls : List AddHostCall) (hostName : String) : Option AddHostCall :=
  calls.reverse.find? fun call => call.hostName = hostName ∧ call.Returns

theorem configurationOf_snoc (calls : List AddHostCall) (call : AddHostCall) (hostName : String) :
    configurationOf (calls ++ [call]) hostName =
      if call.hostName = hostName ∧ call.Returns then some call
      else configurationOf calls hostName := by
  simp only [configurationOf, List.reverse_append, List.reverse_singleton, List.singleton_append,
    List.find?_cons]
  split_ifs with h <;> simp [h]

theorem returns_of_configurationOf {calls : List AddHostCall} {hostName : String}
    {call : AddHostCall} (h : configurationOf calls hostName = some call) : call.Returns := by
  have := List.find?_some h
  exact (of_decide_eq_true this).2

namespace EthernetNetwork

variable {net : EthernetNetwork} {call call' : AddHostCall} {calls : List AddHostCall} {host : ℕ}

/-- The interfaces that a call makes are found under their names, with their
words. -/
theorem find_makes {interfaces : List (List (Option String))}
    (hread : ∀ i ∈ interfaces, Readable i) (n : ℕ) (name : Option String) :
    ((makes n interfaces).reverse.find? fun a => a.1 = name).map (fun a => a.2.words) =
      (interfaces.reverse.find? fun i => i.head? = some name).bind fun i =>
        (readInterface i).toOption.map Prod.snd := by
  induction interfaces generalizing n with
  | nil => rfl
  | cons interface rest ih =>
    obtain ⟨hone, hrest⟩ := List.forall_mem_cons.mp hread
    rw [makes]
    cases ha : readInterface interface with
    | error e => simp [Readable, ha] at hone
    | ok a =>
      replace ih := ih hrest (n + 1)
      have hname := readInterface_name ha
      simp only [List.reverse_cons, List.find?_append]
      cases hfound : rest.reverse.find? fun i => decide (i.head? = some name) with
      | some i =>
        -- what is found behind stays
        have hi := hrest i (List.mem_reverse.mp (List.mem_of_find?_eq_some hfound))
        rw [hfound] at ih
        cases hmade : (makes (n + 1) rest).reverse.find? fun a => decide (a.1 = name) with
        | some b => simpa [hmade] using ih
        | none =>
          cases hread : readInterface i with
          | error e => simp [Readable, hread] at hi
          | ok b => simp [hmade, hread, Except.toOption] at ih
      | none =>
        have hnone : (makes (n + 1) rest).reverse.find? (fun a => decide (a.1 = name)) = none := by
          simpa [hfound] using ih
        by_cases heq : a.1 = name
        · simp [hnone, hname, heq, ha, Except.toOption, Interface.words]
        · simp [hnone, hname, heq]

/-- **The host with this number is as the call has said**: the table of its
stack is what the call has made, and its interfaces are on the bus. -/
structure Holds (net : EthernetNetwork) (host : ℕ) (call : AddHostCall) : Prop where
  lt : host < net.hostsMade
  made : ∃ n, net.stackInterfaces host = Dict.assign ∅ (makes n call.hostInterfaces) ∧
    ∀ a ∈ makes n call.hostInterfaces, (a.2, host) ∈ net.busInterfaces

/-- A later call leaves it as it is. -/
theorem Holds.afterLoop (h : net.Holds host call) : (net.afterLoop call').Holds host call := by
  obtain ⟨n, htable, hbus⟩ := h.made
  refine ⟨h.lt.trans (Nat.lt_succ_self _), n, ?_, fun a ha => List.mem_append_left _ (hbus a ha)⟩
  rwa [afterLoop_stackInterfaces_of_lt h.lt]

theorem holds_of_made : (net.afterLoop call).Holds net.hostsMade call := by
  refine ⟨Nat.lt_succ_self _, net.interfacesMade, afterLoop_stackInterfaces_self, fun a ha => ?_⟩
  exact List.mem_append_right _ (List.mem_map.mpr ⟨a, ha, rfl⟩)

/-- **What holds of the tables after calls**: each name leads to a host as it
was configured, and no interface is on the bus twice. -/
structure Configured (calls : List AddHostCall) (net : EthernetNetwork) : Prop where
  hosts : ∀ hostName, Option.Rel net.Holds (net.getHost hostName) (configurationOf calls hostName)
  lt : ∀ e ∈ net.busInterfaces, e.1.id < net.interfacesMade
  nodup : (net.busInterfaces.map fun e => e.1.id).Nodup

/-- The numbers of the interfaces that a call makes are new. -/
theorem afterLoop_ids (call : AddHostCall)
    (hlt : ∀ e ∈ net.busInterfaces, e.1.id < net.interfacesMade)
    (hnodup : (net.busInterfaces.map fun e => e.1.id).Nodup) :
    (∀ e ∈ (net.afterLoop call).busInterfaces, e.1.id < (net.afterLoop call).interfacesMade) ∧
      ((net.afterLoop call).busInterfaces.map fun e => e.1.id).Nodup := by
  have hids : (net.made call).map (fun a => a.2.id) =
      List.range' net.interfacesMade (net.made call).length := makes_ids
  have hnew : ∀ a ∈ net.made call, net.interfacesMade ≤ a.2.id ∧
      a.2.id < net.interfacesMade + (net.made call).length := by
    intro a ha
    have hmem : a.2.id ∈ (net.made call).map fun a => a.2.id := List.mem_map_of_mem ha
    rw [hids, List.mem_range'_1] at hmem
    exact hmem
  constructor
  · intro e he
    rcases List.mem_append.mp he with he | he
    · exact (hlt e he).trans_le (Nat.le_add_right _ _)
    · obtain ⟨a, ha, rfl⟩ := List.mem_map.mp he
      exact (hnew a ha).2
  · rw [show (net.afterLoop call).busInterfaces = net.busInterfaces ++
      (net.made call).map fun a => (a.2, net.hostsMade) from rfl, List.map_append, List.map_map,
      List.nodup_append]
    refine ⟨hnodup, ?_, ?_⟩
    · rw [show (fun e : Interface × ℕ => e.1.id) ∘ (fun a : Option String × Interface =>
        (a.2, net.hostsMade)) = fun a => a.2.id from rfl, hids]
      exact List.nodup_range'
    · rintro m hm m' hm' rfl
      obtain ⟨e, he, rfl⟩ := List.mem_map.mp hm
      obtain ⟨a, ha, heq⟩ := List.mem_map.mp hm'
      have hold := hlt e he
      have hge := (hnew a ha).1
      have heq : a.2.id = e.1.id := heq
      omega

/-- **The step lemma.** -/
theorem Configured.next (h : Configured calls net) (call : AddHostCall) :
    Configured (calls ++ [call]) (net.next call) := by
  have hids := afterLoop_ids call h.lt h.nodup
  have hkept : ∀ hostName, Option.Rel (net.afterLoop call).Holds (net.getHost hostName)
      (configurationOf calls hostName) := by
    intro hostName
    exact Lists.rel_mono (fun _ _ hholds => hholds.afterLoop) (h.hosts hostName)
  rcases addHost_cases net call with ⟨hloads, heq⟩ | ⟨hloads, ⟨hread, heq⟩ | ⟨hread, heq⟩⟩
  · -- nothing was made
    have hnot : ¬ call.Returns := fun hret => by simp [hret.1] at hloads
    rw [EthernetNetwork.next, heq]
    refine ⟨fun hostName => ?_, h.lt, h.nodup⟩
    rw [configurationOf_snoc, if_neg fun hboth => hnot hboth.2]
    exact h.hosts hostName
  · have hret : call.Returns := ⟨hloads, hread⟩
    rw [EthernetNetwork.next, heq]
    refine ⟨fun hostName => ?_, hids.1, hids.2⟩
    rw [configurationOf_snoc]
    by_cases hname : call.hostName = hostName
    · subst hname
      rw [if_pos ⟨rfl, hret⟩, getHost, Dict.lookup_set_self]
      have hmade : (net.afterLoop call).Holds net.hostsMade call := holds_of_made
      exact .some ⟨hmade.lt, hmade.made⟩
    · rw [if_neg fun hboth => hname hboth.1, getHost, Dict.lookup_set_of_ne (Ne.symm hname)]
      exact Lists.rel_mono (fun _ _ hholds => ⟨hholds.lt, hholds.made⟩) (hkept hostName)
  · have hnot : ¬ call.Returns := fun hret => hread hret.2
    rw [EthernetNetwork.next, heq]
    refine ⟨fun hostName => ?_, hids.1, hids.2⟩
    rw [configurationOf_snoc, if_neg fun hboth => hnot hboth.2]
    exact hkept hostName

/-- **The run lemma.** -/
theorem configured (calls : List AddHostCall) : Configured calls (after calls) := by
  induction calls using List.reverseRecOn with
  | nil => exact ⟨fun _ => .none, by simp [after, new], by simp [after, new]⟩
  | append_singleton calls call ih =>
    rw [after, List.foldl_append, List.foldl_cons, List.foldl_nil]
    exact ih.next call

/-! ## What is found is what was said -/

/-- A name leads to a host if and only if it was configured. -/
theorem Configured.found (h : Configured calls net) (hostName : String) :
    (net.getHost hostName = none ∧ configurationOf calls hostName = none) ∨
      ∃ host call, net.getHost hostName = some host ∧
        configurationOf calls hostName = some call ∧ net.Holds host call := by
  have hrel := h.hosts hostName
  generalize net.getHost hostName = a at hrel
  generalize configurationOf calls hostName = b at hrel
  cases hrel with
  | none => exact .inl ⟨rfl, rfl⟩
  | some hholds => exact .inr ⟨_, _, rfl, rfl, hholds⟩

theorem Holds.words (h : net.Holds host call) (hret : call.Returns) (name : Option String) :
    (net.getInterface host name).map Interface.words = call.wordsOf name := by
  obtain ⟨n, htable, -⟩ := h.made
  rw [getInterface, htable, Dict.lookup_assign, AList.lookup_empty, Option.or_none, Option.map_map,
    AddHostCall.wordsOf, AddHostCall.entry, ← find_makes hret.2 n name]
  rfl

/-- An interface that is found is on the bus, once, and with its own host. -/
theorem Holds.on_bus (h : net.Holds host call) (hc : Configured calls net) {name : Option String}
    {i : Interface} (hi : net.getInterface host name = some i) :
    net.busInterfaces.filter (fun e => e.1.id = i.id) = [(i, host)] := by
  obtain ⟨n, htable, hbus⟩ := h.made
  have hmade : (name, i) ∈ makes n call.hostInterfaces := by
    rw [getInterface, htable] at hi
    exact (Dict.mem_of_lookup_assign hi).resolve_right (by simp)
  exact Lists.filter_eq_singleton (f := fun e => e.1.id) hc.nodup (hbus _ hmade)

/-- The address of arguments that are read is that of their text. -/
theorem readInterface_address {interface : List (Option String)} {text : String}
    {a : Option String × IpV4Addr × Option IpV4Addr × Option IpV4Addr}
    (h : readInterface interface = .ok a) (htext : interface[1]?.join = some text) :
    IpV4Addr.ofString text = some a.2.1 := by
  have hread : ∀ (name mask gateway : Option String),
      ((readAddresses (some text) mask gateway).map fun a => (name, a)) = .ok a →
        IpV4Addr.ofString text = some a.2.1 := by
    intro name mask gateway hok
    cases hip : IpV4Addr.ofString text with
    | none => simp [readAddresses, readAddress, hip, bind, Except.bind, Except.map] at hok
    | some ip =>
      simp only [readAddresses, readAddress, hip, bind, Except.bind, pure, Except.pure] at hok
      split at hok
      · cases hok
      · split at hok <;> cases hok
        rfl
  unfold readInterface at h
  split at h
  · obtain rfl : _ = some text := by simpa using htext
    exact hread _ _ _ h
  · obtain rfl : _ = some text := by simpa using htext
    exact hread _ _ _ h
  · obtain rfl : _ = some text := by simpa using htext
    exact hread _ _ _ h
  · cases h

/-- An interface with the words of the arguments prints their address. -/
theorem prints_of_words {i : Interface} {name : Option String} {text : String}
    (hwords : some i.words = call.wordsOf name) (htext : call.addressText name = some text)
    (hquad : IsCanonicalQuad text) : i.Prints text := by
  rw [AddHostCall.wordsOf] at hwords
  rw [AddHostCall.addressText] at htext
  obtain ⟨interface, hentry, htext⟩ := Option.bind_eq_some_iff.mp htext
  rw [hentry, Option.bind_some] at hwords
  cases ha : readInterface interface with
  | error e => simp [ha, Except.toOption] at hwords
  | ok a =>
    have hip : i.ipAddress = a.2.1 := by
      rw [ha] at hwords
      exact congrArg Prod.fst (Option.some.inj hwords)
    intro σ lwip hlwip netif pyObject s uses
    have hstored := NetIf.words_foldl_use hlwip uses
      (netif.add lwip pyObject (some i.ipAddress) i.netmask i.gateway s)
    rw [NetIf.getAddress, show NetIf.Interface.ipAddr _ = i.ipAddress from
      (congrArg Prod.fst hstored).trans (hlwip.ipAddr _ _ _ _ _ _)]
    exact IpV4Addr.intIpToString_of_configures
      ⟨hquad, i.ipAddress, hip ▸ readInterface_address ha htext, rfl⟩

/-- **A network is what it was configured as.** After any calls of `add_host`,
with repeated names and calls that raise among them: `get_host` and
`get_interface` find exactly what the last call with the host's name that
returned says last under the interface's name, and raise `KeyError` for
anything else; and an interface that is found is on the bus once, delivered
to by its own host, and prints the address it was given as a canonical text,
until someone adds it again. -/
theorem network_as_configured (calls : List AddHostCall) (hostName : String) :
    ((after calls).getHost hostName).map
        (fun host name => ((after calls).getInterface host name).map Interface.words) =
      (configurationOf calls hostName).map AddHostCall.wordsOf ∧
    ∀ host name i, (after calls).getHost hostName = some host →
      (after calls).getInterface host name = some i →
      (after calls).busInterfaces.filter (fun e => e.1.id = i.id) = [(i, host)] ∧
      ∀ call text, configurationOf calls hostName = some call →
        call.addressText name = some text → IsCanonicalQuad text → i.Prints text := by
  have hc := configured calls
  rcases hc.found hostName with ⟨hnone, hconf⟩ | ⟨host, call, hhost, hconf, hholds⟩
  · rw [hnone, hconf]
    exact ⟨rfl, fun host name i hhost => by cases hhost⟩
  · have hret := returns_of_configurationOf hconf
    rw [hhost, hconf]
    refine ⟨congrArg some (funext fun name => hholds.words hret name), ?_⟩
    rintro host' name i heq hi
    cases heq
    refine ⟨hholds.on_bus hc hi, fun call' text heq htext hquad => ?_⟩
    cases heq
    have hwords := hholds.words hret name
    rw [hi, Option.map_some] at hwords
    exact prints_of_words hwords htext hquad

end EthernetNetwork

/-! ## A host that is added again -/

/-- Two calls for one host, the second with two interfaces of one name, and
between them one that raises. -/
def addedAgain : List AddHostCall :=
  [⟨"a", [[some "eth0", some "10.0.0.1"]], true⟩, halfAdded,
    ⟨"a", [[some "eth0", some "10.0.0.2"], [some "eth0", some "10.0.0.3", some ""]], true⟩]

theorem network_as_configured_addedAgain :
    (EthernetNetwork.after addedAgain).getHost "h" = none ∧
      (EthernetNetwork.after addedAgain).getHost "a" = some 2 ∧
      ∃ i, (EthernetNetwork.after addedAgain).getInterface 2 (some "eth0") = some i ∧
        (EthernetNetwork.after addedAgain).busInterfaces.filter (fun e => e.1.id = i.id) =
          [(i, 2)] ∧ i.Prints "10.0.0.3" := by
  obtain ⟨-, hfound⟩ := EthernetNetwork.network_as_configured addedAgain "a"
  have hhost : (EthernetNetwork.after addedAgain).getHost "a" = some 2 := by decide
  have hi : (EthernetNetwork.after addedAgain).getInterface 2 (some "eth0") =
      some ⟨3, ⟨0x0300000A⟩, none, none⟩ := by decide
  obtain ⟨hbus, hprints⟩ := hfound 2 (some "eth0") _ hhost hi
  exact ⟨by decide, hhost, _, hi, hbus, hprints _ "10.0.0.3" rfl (by decide) (by decide)⟩

end PyLwip
