import PyLwip.Stack.NetIf

/-!
# The status of an interface

The flags of an interface tell whether it is up and whether its link is. lwIP
changes them and calls the two callbacks of the structure about it. lwIP is a
parameter: all that is asked of it is which flag a function sets to what, and
that a change is reported once.
-/

namespace PyLwip.NetIf

variable {σ : Type} {lwip : Native σ} {netif : NetIf}

/-! ## What is reported -/

/-- What the callbacks of the structure are called about: `status_callback`
about the interface, and `link_callback` about its link. -/
inductive Aspect
  | status
  | link
deriving DecidableEq

/-- The flag that tells it. -/
def Aspect.flag : Aspect → UInt8
  | .status => flagUp
  | .link => flagLinkUp

/-- The flag is set. -/
def Interface.isSet (i : Interface) (a : Aspect) : Bool := i.flags &&& a.flag != 0

/-- What a function of lwIP sets the flag to, `none` where it leaves it. -/
def Call.sets : Call → Aspect → Option Bool
  | .setUp, .status | .setLinkUp, .link => some true
  | .setDown, .status | .setLinkDown, .link => some false
  | _, _ => none

/-- lwIP's functions on an interface, with the callbacks that they call. -/
structure Reporting (σ : Type) extends Native σ where
  reports (f : Call) : Interface → σ → List Aspect

/-- **lwIP reports what changes**: a function sets its own flag and no other,
and calls a callback once if it has changed the flag of this callback, and
else not. -/
structure Reporting.Documented (lwip : Reporting σ) : Prop where
  isSet : ∀ f i s a, (lwip.call f i s).1.isSet a = (f.sets a).getD (i.isSet a)
  reports : ∀ f i s a, (lwip.reports f i s).count a =
    if (lwip.call f i s).1.isSet a = i.isSet a then 0 else 1

/-! ## An interface that was added -/

/-- What `add_network_interface` leaves. -/
def IsAdded (lwip : Native σ) (netif : NetIf) : Prop :=
  ∃ netif₀ pyObject ipAddress netmask gateway s,
    netif = (add lwip pyObject ipAddress netmask gateway netif₀ s).1.setEtharpFlag

/-- It is down, whatever `netif_add` has done. -/
theorem IsAdded.isSet_eq_false (h : IsAdded lwip netif) (a : Aspect) :
    netif.interface.isSet a = false := by
  obtain ⟨netif₀, pyObject, ipAddress, netmask, gateway, s, rfl⟩ := h
  rw [Interface.isSet, show Interface.flags _ = 8 ||| 8 from rfl]
  cases a <;> decide

/-! ## An lwIP that does nothing else -/

/-- What `plainNative` does, and the same for the link. -/
def plainReporting : Reporting Unit where
  netifAdd := plainNative.netifAdd
  call f i s :=
    let flags := match f with
      | .setUp => i.flags ||| flagUp
      | .setDown => i.flags &&& ~~~flagUp
      | .setLinkUp => i.flags ||| flagLinkUp
      | .setLinkDown => i.flags &&& ~~~flagLinkUp
      | _ => i.flags
    ({ i with flags := flags }, s)
  reports f i _ := [Aspect.status, .link].filter fun b => (f.sets b).getD (i.isSet b) ≠ i.isSet b

theorem plainReporting_documented : plainReporting.Documented := by
  have hbits : ∀ m : Fin 256, let x := UInt8.ofFin m
      (((x ||| 1) &&& 1 != 0) = true ∧ ((x ||| 4) &&& 4 != 0) = true) ∧
      (((x &&& ~~~1) &&& 1 != 0) = false ∧ ((x &&& ~~~4) &&& 4 != 0) = false) ∧
      ((x ||| 1) &&& 4 = x &&& 4 ∧ (x ||| 4) &&& 1 = x &&& 1) ∧
      ((x &&& ~~~1) &&& 4 = x &&& 4 ∧ (x &&& ~~~4) &&& 1 = x &&& 1) := by
    decide +kernel
  have hset : ∀ (f : Call) (i : Interface) (a : Aspect),
      (plainReporting.call f i ()).1.isSet a = (f.sets a).getD (i.isSet a) := by
    intro f i a
    obtain ⟨⟨h₁, h₂⟩, ⟨h₃, h₄⟩, ⟨h₅, h₆⟩, h₇, h₈⟩ := hbits i.flags.toFin
    cases f with
    | setUp => cases a with
      | status => exact h₁
      | link => exact congrArg (· != 0) h₅
    | setDown => cases a with
      | status => exact h₃
      | link => exact congrArg (· != 0) h₇
    | setLinkUp => cases a with
      | status => exact congrArg (· != 0) h₆
      | link => exact h₂
    | setLinkDown => cases a with
      | status => exact congrArg (· != 0) h₈
      | link => exact h₄
    | setDefault | input => cases a <;> rfl
  refine ⟨fun f i _ a => hset f i a, fun f i _ a => ?_⟩
  rw [hset]
  have hcount : ∀ p : Aspect → Bool, ([Aspect.status, .link].filter p).count a =
      if p a = true then 1 else 0 := by
    intro p
    cases a <;> cases hs : p .status <;> cases hl : p .link <;> simp [hs, hl]
  rw [show plainReporting.reports f i () = [Aspect.status, .link].filter
    fun b => (f.sets b).getD (i.isSet b) ≠ i.isSet b from rfl, hcount]
  by_cases heq : (f.sets a).getD (i.isSet a) = i.isSet a <;> simp [heq]

end PyLwip.NetIf
