import PyLwip.Stack.IpAddress
import PyLwip.Stack.LinkOutput

/-!
# The addresses of an interface

`NetIf.add` gives lwIP the words of the addresses; `get_address` and
`__str__` print the words that the native structure holds. lwIP is a
parameter: all that is asked of it is that the words it is given stay as they
are.
-/

namespace PyLwip

variable {σ : Type}

/-! ## The interface -/

namespace NetIf

def flagUp : UInt8 := 0x1

def flagBroadcast : UInt8 := 0x2

def flagLinkUp : UInt8 := 0x4

def flagEtharp : UInt8 := 0x8

def flagEthernet : UInt8 := 0x10

def flagIgmp : UInt8 := 0x20

/-- `_LwipNetIf`, with what is printed of it. -/
structure Interface extends LwipNetIf where
  ipAddr : IpV4Addr
  netmask : IpV4Addr
  gw : IpV4Addr
  flags : UInt8
deriving DecidableEq

/-- The address words of the structure. -/
def Interface.words (i : Interface) : IpV4Addr × IpV4Addr × IpV4Addr := (i.ipAddr, i.netmask, i.gw)

/-- The functions of lwIP that `set_up`, `set_down`, `set_link_up`,
`set_link_down`, `set_default` and `input` call with an interface that has
been added. -/
inductive Call
  | setUp
  | setDown
  | setLinkUp
  | setLinkDown
  | setDefault
  | input (incomingPbuf : ℕ)
deriving DecidableEq

/-- lwIP's functions on an interface: each leaves something in the structure
and in lwIP's own state. -/
structure Native (σ : Type) where
  netifAdd (ipAddress netmask gateway : Option IpV4Addr) (state : ℕ) :
    Interface → σ → Interface × σ
  call (f : Call) : Interface → σ → Interface × σ

/-- **lwIP stores the words unchanged**: `netif_add` the words it is given,
and the others those that are there. -/
structure Native.StoresWords (lwip : Native σ) : Prop where
  ipAddr : ∀ a netmask gateway state i s,
    (lwip.netifAdd (some a) netmask gateway state i s).1.ipAddr = a
  netmask : ∀ ipAddress a gateway state i s,
    (lwip.netifAdd ipAddress (some a) gateway state i s).1.netmask = a
  gw : ∀ ipAddress netmask a state i s,
    (lwip.netifAdd ipAddress netmask (some a) state i s).1.gw = a
  call : ∀ f i s, (lwip.call f i s).1.words = i.words

end NetIf

/-- A `NetIf`, with its human-readable name and its `_interface`. -/
structure NetIf where
  name : String
  interface : NetIf.Interface
deriving DecidableEq

namespace NetIf

/-- `add`: lwIP's `netif_add`, and then the flags. -/
def add (lwip : Native σ) (pyObject : ℕ) (ipAddress netmask gateway : Option IpV4Addr)
    (netif : NetIf) (s : σ) : NetIf × σ :=
  let r := lwip.netifAdd ipAddress netmask gateway pyObject netif.interface s
  ({ netif with interface := { r.1 with flags := 8 } }, r.2)

/-- `set_etharp_flag`. -/
def setEtharpFlag (netif : NetIf) : NetIf :=
  { netif with interface := { netif.interface with flags := netif.interface.flags ||| 8 } }

/-- `set_up` and the other methods that call one function of lwIP with the
interface. -/
def call (lwip : Native σ) (f : Call) (netif : NetIf) (s : σ) : NetIf × σ :=
  let r := lwip.call f netif.interface s
  ({ netif with interface := r.1 }, r.2)

/-- `get_address`. -/
def getAddress (netif : NetIf) : String := intIpToString netif.interface.ipAddr.addr.toNat

/-- The names of the flags, in the order that `__str__` has them. -/
def flagNames : List (UInt8 × String) :=
  [(flagUp, "UP"), (flagBroadcast, "BROADCAST"), (flagEtharp, "ETH_ARP"), (flagEthernet, "ETH"),
    (flagLinkUp, "LINK"), (flagIgmp, "IGMP")]

def flagsStr (flags : UInt8) : String :=
  ", ".intercalate ((flagNames.filter fun fl => flags &&& fl.1 ≠ 0).map fun fl => fl.2)

/-- `__str__`. -/
def str (netif : NetIf) : String :=
  netif.name ++ ": flags=" ++ toString netif.interface.flags.toNat ++
    "<" ++ flagsStr netif.interface.flags ++
    "> inet " ++ intIpToString netif.interface.ipAddr.addr.toNat ++
    " netmask " ++ intIpToString netif.interface.netmask.addr.toNat ++
    " gw " ++ intIpToString netif.interface.gw.addr.toNat

/-- What is done with an interface after it was added, other than to add it
again. -/
inductive Use
  | setEtharpFlag
  | call (f : Call)
deriving DecidableEq

def use (lwip : Native σ) : NetIf × σ → Use → NetIf × σ
  | (netif, s), .setEtharpFlag => (netif.setEtharpFlag, s)
  | (netif, s), .call f => netif.call lwip f s

/-- An address of a canonical text, as `IpV4Addr` makes it. -/
def Configures (address : Option IpV4Addr) (text : String) : Prop :=
  IsCanonicalQuad text ∧ ∃ ip, IpV4Addr.ofString text = some ip ∧ address = some ip

/-! ## What is printed -/

/-- The words stay as they are while an interface is used. -/
theorem words_foldl_use {lwip : Native σ} (h : lwip.StoresWords) (uses : List Use)
    (r : NetIf × σ) : (uses.foldl (use lwip) r).1.interface.words = r.1.interface.words := by
  induction uses generalizing r with
  | nil => rfl
  | cons u uses ih =>
    rw [List.foldl_cons, ih]
    cases u with
    | setEtharpFlag => rfl
    | call f => exact h.call f r.1.interface r.2

end NetIf

/-- The word of an address that was read of a canonical text is printed as
the text. -/
theorem IpV4Addr.intIpToString_of_configures {ip : IpV4Addr} {text : String}
    (h : NetIf.Configures (some ip) text) : intIpToString ip.addr.toNat = text := by
  obtain ⟨hquad, word, hword, heq⟩ := h
  obtain rfl := Option.some.inj heq
  rw [hquad.isDottedQuad.ofString_eq] at hword
  rw [← Option.some.inj hword, hquad.isDottedQuad.toNat_octetWord]
  exact intIpToString_octetWord hquad

/-- **The text and the integer of an address are inverse.** An integer of 32
bits is read back from its text; a canonical dotted quad is printed back from
its integer, which has 32 bits. So an interface that was added with addresses
of canonical texts prints these texts, each in its place of `__str__`,
whatever it has been used for since. -/
theorem address_text_inverse :
    (∀ n : ℤ, 0 ≤ n → n < 2 ^ 32 → intIpFromString (intIpToString n) = some n) ∧
    (∀ s, IsCanonicalQuad s →
      ∃ n, intIpFromString s = some n ∧ 0 ≤ n ∧ n < 2 ^ 32 ∧ intIpToString n = s) ∧
    (∀ (σ : Type) (lwip : NetIf.Native σ), lwip.StoresWords →
      ∀ (netif₀ : NetIf) (pyObject : ℕ) (ipAddress netmask gateway : Option IpV4Addr) (s : σ)
        (uses : List NetIf.Use),
      let netif :=
        (uses.foldl (NetIf.use lwip) (netif₀.add lwip pyObject ipAddress netmask gateway s)).1
      ∃ inet mask gw,
        netif.str = netif.name ++ ": flags=" ++ toString netif.interface.flags.toNat ++
          "<" ++ NetIf.flagsStr netif.interface.flags ++ "> inet " ++ inet ++
          " netmask " ++ mask ++ " gw " ++ gw ∧
        netif.getAddress = inet ∧
        (∀ text, NetIf.Configures ipAddress text → inet = text) ∧
        (∀ text, NetIf.Configures netmask text → mask = text) ∧
        (∀ text, NetIf.Configures gateway text → gw = text)) := by
  refine ⟨fun n hpos hlt => ?_, fun s hs => ?_, ?_⟩
  · obtain ⟨m, rfl⟩ := Int.eq_ofNat_of_zero_le hpos
    exact intIpFromString_intIpToString (by omega)
  · have hlt := hs.isDottedQuad.octetWord_lt
    exact ⟨octetWord s, hs.isDottedQuad.intIpFromString_eq, by omega, by omega,
      intIpToString_octetWord hs⟩
  · intro σ lwip hlwip netif₀ pyObject ipAddress netmask gateway s uses netif
    have hwords : netif.interface.words =
        (lwip.netifAdd ipAddress netmask gateway pyObject netif₀.interface s).1.words :=
      NetIf.words_foldl_use hlwip uses _
    obtain ⟨hip, hmask, hgw⟩ :
        netif.interface.ipAddr = _ ∧ netif.interface.netmask = _ ∧ netif.interface.gw = _ := by
      simpa [NetIf.Interface.words] using hwords
    refine ⟨_, _, _, rfl, rfl, ?_, ?_, ?_⟩ <;> rintro text ⟨hquad, ip, hread, rfl⟩
    · rw [hip, hlwip.ipAddr]
      exact IpV4Addr.intIpToString_of_configures ⟨hquad, ip, hread, rfl⟩
    · rw [hmask, hlwip.netmask]
      exact IpV4Addr.intIpToString_of_configures ⟨hquad, ip, hread, rfl⟩
    · rw [hgw, hlwip.gw]
      exact IpV4Addr.intIpToString_of_configures ⟨hquad, ip, hread, rfl⟩

/-- lwIP with a null pointer for `0.0.0.0`, where nothing but `netif_set_up`
and `netif_set_down` changes the structure. -/
def NetIf.plainNative : NetIf.Native Unit where
  netifAdd ipAddress netmask gateway state i s :=
    ({ i with
        state := some state
        ipAddr := ipAddress.getD ⟨0⟩
        netmask := netmask.getD ⟨0⟩
        gw := gateway.getD ⟨0⟩ }, s)
  call
    | .setUp, i, s => ({ i with flags := i.flags ||| NetIf.flagUp }, s)
    | .setDown, i, s => ({ i with flags := i.flags &&& ~~~NetIf.flagUp }, s)
    | _, i, s => (i, s)

theorem NetIf.plainNative_storesWords : NetIf.plainNative.StoresWords :=
  ⟨fun _ _ _ _ _ _ => rfl, fun _ _ _ _ _ _ => rfl, fun _ _ _ _ _ _ => rfl,
    fun f _ _ => by cases f <;> rfl⟩

theorem address_text_inverse_host :
    intIpFromString (intIpToString 16777343) = some 16777343 ∧
    (∃ n, intIpFromString "10.0.0.1" = some n ∧ 0 ≤ n ∧ n < 2 ^ 32 ∧
      intIpToString n = "10.0.0.1") ∧
    ∃ ip mask gw, IpV4Addr.ofString "10.0.0.1" = some ip ∧
      IpV4Addr.ofString "255.255.255.0" = some mask ∧ IpV4Addr.ofString "10.0.0.254" = some gw ∧
      let netif := ((NetIf.mk "eth0" ⟨⟨none⟩, ⟨0⟩, ⟨0⟩, ⟨0⟩, 0⟩).add NetIf.plainNative 0
        (some ip) (some mask) (some gw) ()).1.setEtharpFlag
      netif.getAddress = "10.0.0.1" ∧
      netif.str =
        "eth0: flags=8<ETH_ARP> inet 10.0.0.1 netmask 255.255.255.0 gw 10.0.0.254" := by
  have hip : IsCanonicalQuad "10.0.0.1" := by decide
  have hmask : IsCanonicalQuad "255.255.255.0" := by decide
  have hgw : IsCanonicalQuad "10.0.0.254" := by decide
  refine ⟨address_text_inverse.1 _ (by norm_num) (by norm_num), address_text_inverse.2.1 _ hip,
    _, _, _, hip.isDottedQuad.ofString_eq, hmask.isDottedQuad.ofString_eq,
    hgw.isDottedQuad.ofString_eq, ?_⟩
  obtain ⟨inet, mask, gw, hstr, haddress, hinet, hnetmask, hgateway⟩ :=
    address_text_inverse.2.2 Unit NetIf.plainNative NetIf.plainNative_storesWords
      ⟨"eth0", ⟨⟨none⟩, ⟨0⟩, ⟨0⟩, ⟨0⟩, 0⟩⟩ 0 (some _) (some _) (some _) () [.setEtharpFlag]
  obtain rfl := hinet _ ⟨hip, _, hip.isDottedQuad.ofString_eq, rfl⟩
  obtain rfl := hnetmask _ ⟨hmask, _, hmask.isDottedQuad.ofString_eq, rfl⟩
  obtain rfl := hgateway _ ⟨hgw, _, hgw.isDottedQuad.ofString_eq, rfl⟩
  refine ⟨haddress, hstr.trans ?_⟩
  decide

end PyLwip
