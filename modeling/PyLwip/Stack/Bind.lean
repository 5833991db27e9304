import PyLwip.Common.Run
import PyLwip.Stack.IpAddress
import PyLwip.Stack.UdpSocket

/-!
# What `bind` leaves behind

`bind` takes a new control block from lwIP and makes it the socket's before
it looks at the end point. lwIP has a control block as soon as it returns it,
and nothing in the socket gives one back: a bind that fails later on leaves
the new block with the socket, and one that succeeds on a bound socket leaves
the old block with nobody.
-/

namespace PyLwip

open EventSystem

variable {σ : Type}

/-! ## Control blocks -/

/-- The functions of lwIP that `bind` uses. A receive function is known by
its identity. -/
structure PcbLwip (σ : Type) where
  udpNewIpType (ipType : UInt8) : σ → Option ℕ × σ
  udpBind (pcb : ℕ) (ipAddress : Option IpV4Addr) (port : UInt16) : σ → Int8 × σ
  udpRecv (pcb recv : ℕ) : σ → σ

/-- A call of one of them, with what it returned. -/
inductive PcbCall
  | udpNewIpType (ipType : UInt8) (ret : Option ℕ)
  | udpBind (pcb : ℕ) (ipAddress : Option IpV4Addr) (port : UInt16) (ret : Int8)
  | udpRecv (pcb recv : ℕ)
deriving DecidableEq

namespace PcbCall

/-- The control block that a call returned. -/
def allocated? : PcbCall → Option ℕ
  | .udpNewIpType _ ret => ret
  | _ => none

/-- The thunk that a call registered, and for which control block. -/
def registered? : PcbCall → Option (ℕ × ℕ)
  | .udpRecv pcb recv => some (pcb, recv)
  | _ => none

end PcbCall

/-- What a bind changes: lwIP, with the calls so far, and the socket, with
the thunk in `_internal_callback`. `thunks` counts the thunks made. -/
structure Binding (σ : Type) where
  native : σ
  pcbCalls : List PcbCall
  socket : UdpSocket
  internalCallback : Option ℕ
  thunks : ℕ

/-- **The live control blocks**: lwIP has each that it returned, since none
was given back. -/
def Binding.livePcbs (b : Binding σ) : List ℕ := b.pcbCalls.filterMap PcbCall.allocated?

/-- The thunks registered for control blocks. -/
def Binding.thunksRegistered (b : Binding σ) : List (ℕ × ℕ) :=
  b.pcbCalls.filterMap PcbCall.registered?

/-- A new socket. -/
def Binding.new (native : σ) : Binding σ := ⟨native, [], ⟨none, none⟩, none, 0⟩

/-- The address text, empty or `None` for any address, and the port. -/
abbrev EndPoint := Option String × ℤ

namespace PcbLwip

variable (lwip : PcbLwip σ)

/-- `_udp_new_ip_type`. -/
def newIpType (ipType : UInt8) : Py (Binding σ) (Option ℕ) := fun w =>
  let r := lwip.udpNewIpType ipType w.lwip.native
  (.ok r.1, { w with lwip := { w.lwip with
    native := r.2, pcbCalls := w.lwip.pcbCalls ++ [.udpNewIpType ipType r.1] } })

/-- `_udp_bind`. -/
def bindTo (pcb : ℕ) (ipAddress : Option IpV4Addr) (port : UInt16) : Py (Binding σ) Int8 := fun w =>
  let r := lwip.udpBind pcb ipAddress port w.lwip.native
  (.ok r.1, { w with lwip := { w.lwip with
    native := r.2, pcbCalls := w.lwip.pcbCalls ++ [.udpBind pcb ipAddress port r.1] } })

/-- `_udp_recv`. -/
def recv (pcb recv : ℕ) : Py (Binding σ) Unit := fun w =>
  (.ok (), { w with lwip := { w.lwip with
    native := lwip.udpRecv pcb recv w.lwip.native,
    pcbCalls := w.lwip.pcbCalls ++ [.udpRecv pcb recv] } })

end PcbLwip

namespace UdpSocket

/-- The assignment of `_pcb`. -/
def setPcb (pcb : ℕ) : Py (Binding σ) Unit := fun w =>
  (.ok (), { w with lwip := { w.lwip with socket := { w.lwip.socket with pcb := some pcb } } })

theorem setPcb_apply (pcb : ℕ) (w : World (Binding σ)) :
    setPcb pcb w = (.ok (), { w with lwip := { w.lwip with
      socket := { w.lwip.socket with pcb := some pcb } } }) := rfl

/-- The assignment of a new thunk to `_internal_callback`. -/
def newInternalCallback : Py (Binding σ) ℕ := fun w =>
  (.ok w.lwip.thunks, { w with lwip := { w.lwip with
    internalCallback := some w.lwip.thunks, thunks := w.lwip.thunks + 1 } })

theorem newInternalCallback_apply (w : World (Binding σ)) :
    newInternalCallback w = (.ok w.lwip.thunks, { w with lwip := { w.lwip with
      internalCallback := some w.lwip.thunks, thunks := w.lwip.thunks + 1 } }) := rfl

/-- `IpV4Addr(ip_address_str) if ip_address_str else None`. -/
def addressOf (ipAddressStr : Option String) : Py (Binding σ) (Option IpV4Addr) :=
  Py.contents (IpV4Addr.ofText ipAddressStr)

/-- `bind`. -/
def bind (lwip : PcbLwip σ) (endPoint : EndPoint) : Py (Binding σ) Unit := do
  let newPcb ← lwip.newIpType 0
  let pcb ← Py.contents newPcb
  setPcb pcb
  if truthy pcb then
    let ipAddress ← addressOf endPoint.1
    let bindResult ← lwip.bindTo pcb ipAddress (UInt16.ofInt endPoint.2)
    if bindResult ≠ 0 then Py.raise (.stackException bindResult)
    else
      let internalCallback ← newInternalCallback
      lwip.recv pcb internalCallback
  else Py.raise .allocationError

/-- **The outcomes of `bind`**, by the step that fails. -/
inductive BindOutcome (lwip : PcbLwip σ) (endPoint : EndPoint) (b : Binding σ) :
    Except StackError Unit → Binding σ → Prop
  | null (s₁ : σ) :
      lwip.udpNewIpType 0 b.native = (none, s₁) →
      BindOutcome lwip endPoint b (.error .valueError)
        { b with native := s₁, pcbCalls := b.pcbCalls ++ [.udpNewIpType 0 none] }
  | unparsed (p : ℕ) (s₁ : σ) :
      lwip.udpNewIpType 0 b.native = (some p, s₁) →
      IpV4Addr.ofText endPoint.1 = none →
      BindOutcome lwip endPoint b (.error .valueError)
        { b with
          native := s₁, pcbCalls := b.pcbCalls ++ [.udpNewIpType 0 (some p)],
          socket := { b.socket with pcb := some p } }
  | refused (p : ℕ) (s₁ s₂ : σ) (address : Option IpV4Addr) (code : Int8) :
      lwip.udpNewIpType 0 b.native = (some p, s₁) →
      IpV4Addr.ofText endPoint.1 = some address →
      lwip.udpBind p address (UInt16.ofInt endPoint.2) s₁ = (code, s₂) → code ≠ 0 →
      BindOutcome lwip endPoint b (.error (.stackException code))
        { b with
          native := s₂,
          pcbCalls := b.pcbCalls ++ [.udpNewIpType 0 (some p),
            .udpBind p address (UInt16.ofInt endPoint.2) code],
          socket := { b.socket with pcb := some p } }
  | bound (p : ℕ) (s₁ s₂ : σ) (address : Option IpV4Addr) :
      lwip.udpNewIpType 0 b.native = (some p, s₁) →
      IpV4Addr.ofText endPoint.1 = some address →
      lwip.udpBind p address (UInt16.ofInt endPoint.2) s₁ = (0, s₂) →
      BindOutcome lwip endPoint b (.ok ())
        { native := lwip.udpRecv p b.thunks s₂,
          pcbCalls := b.pcbCalls ++ [.udpNewIpType 0 (some p),
            .udpBind p address (UInt16.ofInt endPoint.2) 0, .udpRecv p b.thunks],
          socket := { b.socket with pcb := some p },
          internalCallback := some b.thunks, thunks := b.thunks + 1 }

/-- Every bind has one of these outcomes. -/
theorem bind_outcome (lwip : PcbLwip σ) (endPoint : EndPoint) (w : World (Binding σ)) :
    BindOutcome lwip endPoint w.lwip (bind lwip endPoint w).1 (bind lwip endPoint w).2.lwip := by
  obtain ⟨b, calls⟩ := w
  obtain ⟨⟨ret, s₁⟩, hnew⟩ : ∃ r, lwip.udpNewIpType 0 b.native = r := ⟨_, rfl⟩
  have h₁ : lwip.newIpType 0 ⟨b, calls⟩ = (.ok ret, ⟨{ b with
      native := s₁, pcbCalls := b.pcbCalls ++ [.udpNewIpType 0 ret] }, calls⟩) := by
    simp [PcbLwip.newIpType, hnew]
  rw [bind, Py.bind_ok h₁]
  cases ret with
  | none =>
    rw [Py.contents_none, Py.bind_error (Py.raise_apply _ _)]
    exact .null _ hnew
  | some p =>
    rw [Py.contents_some, Py.bind_ok (Py.pure_apply p _), Py.bind_ok (setPcb_apply p _), truthy,
      if_pos rfl, addressOf]
    cases haddress : IpV4Addr.ofText endPoint.1 with
    | none =>
      rw [Py.contents_none, Py.bind_error (Py.raise_apply _ _)]
      exact .unparsed _ _ hnew haddress
    | some address =>
      obtain ⟨⟨code, s₂⟩, hbind⟩ :
        ∃ r, lwip.udpBind p address (UInt16.ofInt endPoint.2) s₁ = r := ⟨_, rfl⟩
      rw [Py.contents_some, Py.bind_ok (Py.pure_apply address _)]
      have h₂ : ∀ c : List PcbCall, lwip.bindTo p address (UInt16.ofInt endPoint.2)
          ⟨{ b with native := s₁, pcbCalls := c, socket := { b.socket with pcb := some p } },
            calls⟩ = (.ok code, ⟨{ b with
              native := s₂,
              pcbCalls := c ++ [.udpBind p address (UInt16.ofInt endPoint.2) code],
              socket := { b.socket with pcb := some p } }, calls⟩) := by
        intro c
        simp [PcbLwip.bindTo, hbind]
      rw [Py.bind_ok (h₂ _)]
      by_cases hcode : code ≠ 0
      · rw [if_pos hcode, Py.raise_apply, List.append_assoc]
        exact .refused _ _ _ _ _ hnew haddress hbind hcode
      · obtain rfl : code = 0 := not_not.mp hcode
        rw [if_neg hcode, Py.bind_ok (newInternalCallback_apply _), PcbLwip.recv]
        simp only [List.append_assoc, List.cons_append, List.nil_append]
        exact .bound _ _ _ _ hnew haddress hbind

end UdpSocket

/-! ## A sequence of binds -/

section Binds

variable (lwip : PcbLwip σ)

/-- What a bind makes of a socket and of lwIP. -/
def Binding.afterBind (b : Binding σ) (endPoint : EndPoint) : Except StackError Unit × Binding σ :=
  let r := UdpSocket.bind lwip endPoint ⟨b, []⟩
  (r.1, r.2.lwip)

variable {lwip} in
theorem Binding.afterBind_outcome {b b' : Binding σ} {endPoint : EndPoint}
    {out : Except StackError Unit} (h : b.afterBind lwip endPoint = (out, b')) :
    UdpSocket.BindOutcome lwip endPoint b out b' := by
  have hout : UdpSocket.BindOutcome lwip endPoint b (b.afterBind lwip endPoint).1
      (b.afterBind lwip endPoint).2 := UdpSocket.bind_outcome lwip endPoint ⟨b, []⟩
  rwa [h] at hout

/-- What a bind finds, begun while lwIP is in the state `native`. -/
def Binding.found (b : Binding σ) (native : σ) : Binding σ := { b with native := native }

/-- What a bind of a sequence leaves for the next one. -/
def Binding.next (b : Binding σ) (bind : σ × EndPoint) : Binding σ :=
  ((b.found bind.1).afterBind lwip bind.2).2

/-- **A bind is atomic and leaks nothing**: where it raises, the socket and
the live control blocks are as they were; where it returns, the socket's
control block is the only live one; and there are no more live control blocks
than bound sockets. -/
structure AtomicBind (b : Binding σ) (endPoint : EndPoint) : Prop where
  raised : ∀ e b', b.afterBind lwip endPoint = (.error e, b') →
    b'.socket = b.socket ∧ b'.internalCallback = b.internalCallback ∧
      b'.thunksRegistered = b.thunksRegistered ∧ b'.livePcbs = b.livePcbs
  returned : ∀ b', b.afterBind lwip endPoint = (.ok (), b') →
    ∃ p, b'.socket.pcb = some p ∧ b'.livePcbs = [p]
  bounded : (b.afterBind lwip endPoint).2.livePcbs.length ≤
    (b.afterBind lwip endPoint).2.internalCallback.isSome.toNat

/-- lwIP has no control block; or the socket has none, the address is read,
and lwIP accepts it. -/
def GoesWell (b : Binding σ) (endPoint : EndPoint) : Prop :=
  (∃ s₁, lwip.udpNewIpType 0 b.native = (none, s₁)) ∨
    b.socket.pcb = none ∧ ∃ p s₁ address s₂,
      lwip.udpNewIpType 0 b.native = (some p, s₁) ∧ IpV4Addr.ofText endPoint.1 = some address ∧
        lwip.udpBind p address (UInt16.ofInt endPoint.2) s₁ = (0, s₂)

/-- **What a socket owns while all goes well**: the live control blocks are
its own, and it is bound if there is one. -/
structure Binding.OwnsPcb (b : Binding σ) : Prop where
  live : b.livePcbs = b.socket.pcb.toList
  bound : b.socket.pcb.isSome → b.internalCallback.isSome

variable {lwip} {b : Binding σ} {endPoint : EndPoint}

theorem Binding.OwnsPcb.bounded (h : b.OwnsPcb) :
    b.livePcbs.length ≤ b.internalCallback.isSome.toNat := by
  rw [h.live]
  cases hpcb : b.socket.pcb with
  | none => exact Nat.zero_le _
  | some p => simp [h.bound (by simp [hpcb])]

/-- A control block that is left over is one too many. -/
theorem not_atomic_of_leak {e : StackError} {b' : Binding σ} {p : ℕ}
    (hafter : b.afterBind lwip endPoint = (.error e, b'))
    (hlive : b'.livePcbs = b.livePcbs ++ [p]) : ¬ AtomicBind lwip b endPoint := by
  intro h
  have hsame := congrArg List.length (h.raised e b' hafter).2.2.2
  rw [hlive, List.length_append, List.length_singleton] at hsame
  omega

/-- What it takes to go well with a control block. -/
theorem goesWell_iff_of_pcb {p : ℕ} {s₁ : σ}
    (hnew : lwip.udpNewIpType 0 b.native = (some p, s₁)) :
    GoesWell lwip b endPoint ↔ b.socket.pcb = none ∧ ∃ address,
      IpV4Addr.ofText endPoint.1 = some address ∧
        (lwip.udpBind p address (UInt16.ofInt endPoint.2) s₁).1 = 0 := by
  unfold GoesWell
  constructor
  · rintro (⟨s, hnull⟩ | ⟨hpcb, p', s₁', address, s₂, hnew', haddress, hbind⟩)
    · cases hnew.symm.trans hnull
    · cases hnew.symm.trans hnew'
      exact ⟨hpcb, address, haddress, by rw [hbind]⟩
  · rintro ⟨hpcb, address, haddress, hcode⟩
    exact .inr ⟨hpcb, p, s₁, address, _, hnew, haddress, Prod.ext hcode rfl⟩

variable (lwip) in
/-- **The step lemma**: a bind is atomic exactly if it goes well, and then
the socket owns what is live. -/
theorem Binding.OwnsPcb.step (h : b.OwnsPcb) (endPoint : EndPoint) :
    (AtomicBind lwip b endPoint ↔ GoesWell lwip b endPoint) ∧
      (GoesWell lwip b endPoint → (b.afterBind lwip endPoint).2.OwnsPcb) := by
  obtain ⟨⟨out, b'⟩, hafter⟩ : ∃ r, b.afterBind lwip endPoint = r := ⟨_, rfl⟩
  rw [hafter]
  cases Binding.afterBind_outcome hafter with
  | null s₁ hnew =>
    -- NULL is no control block
    have hlive : ({ b with native := s₁, pcbCalls := b.pcbCalls ++ [.udpNewIpType 0 none] } :
        Binding σ).livePcbs = b.livePcbs := by simp [livePcbs, PcbCall.allocated?]
    have hwell : GoesWell lwip b endPoint := .inl ⟨s₁, hnew⟩
    refine ⟨iff_of_true ⟨?_, ?_, ?_⟩ hwell, fun _ => ⟨hlive.trans h.live, h.bound⟩⟩
    · intro e b' heq
      cases hafter.symm.trans heq
      exact ⟨rfl, rfl, by simp [thunksRegistered, PcbCall.registered?], hlive⟩
    · intro b' heq
      cases hafter.symm.trans heq
    · rw [hafter, hlive]
      exact h.bounded
  | unparsed p s₁ hnew haddress =>
    have hill : ¬ GoesWell lwip b endPoint := by simp [goesWell_iff_of_pcb hnew, haddress]
    have hleak : ¬ AtomicBind lwip b endPoint :=
      not_atomic_of_leak hafter (p := p) (by simp [livePcbs, PcbCall.allocated?])
    exact ⟨iff_of_false hleak hill, fun hwell => absurd hwell hill⟩
  | refused p s₁ s₂ address code hnew haddress hbind hcode =>
    have hill : ¬ GoesWell lwip b endPoint := by
      simp [goesWell_iff_of_pcb hnew, haddress, hbind, hcode]
    have hleak : ¬ AtomicBind lwip b endPoint := not_atomic_of_leak hafter (p := p)
      (by simp [livePcbs, List.filterMap_cons, PcbCall.allocated?])
    exact ⟨iff_of_false hleak hill, fun hwell => absurd hwell hill⟩
  | bound p s₁ s₂ address hnew haddress hbind =>
    have hwell : GoesWell lwip b endPoint ↔ b.socket.pcb = none := by
      simp [goesWell_iff_of_pcb hnew, haddress, hbind]
    -- the socket's old control block, if it has one, stays live
    have hlive : ∀ b' : Binding σ, b'.pcbCalls = b.pcbCalls ++ [.udpNewIpType 0 (some p),
        .udpBind p address (UInt16.ofInt endPoint.2) 0, .udpRecv p b.thunks] →
        b'.livePcbs = b.socket.pcb.toList ++ [p] := by
      intro b' hcalls
      rw [← h.live, livePcbs, hcalls]
      simp [livePcbs, List.filterMap_cons, PcbCall.allocated?]
    rw [hwell]
    refine ⟨⟨fun hatomic => ?_, fun hpcb => ⟨?_, ?_, ?_⟩⟩, fun hpcb => ⟨?_, fun _ => rfl⟩⟩
    · obtain ⟨q, -, hone⟩ := hatomic.returned _ hafter
      -- with an old control block there would be two
      have hlen := congrArg List.length (hone.symm.trans (hlive _ rfl))
      cases hpcb : b.socket.pcb with
      | none => rfl
      | some old => simp [hpcb] at hlen
    · intro e b' heq
      cases hafter.symm.trans heq
    · intro b' heq
      cases hafter.symm.trans heq
      exact ⟨p, rfl, by rw [hlive _ rfl, hpcb]; rfl⟩
    · rw [hafter, hlive _ rfl, hpcb]
      rfl
    · rw [hlive _ rfl, hpcb]
      rfl

/-- **Every bind of a sequence is atomic exactly if every bind goes well** in
the state it finds. -/
theorem binds_atomic_iff (lwip : PcbLwip σ) (s : σ) (binds : List (σ × EndPoint)) :
    EachCall (Binding.next lwip) (fun b bind => AtomicBind lwip (b.found bind.1) bind.2) binds
        (.new s) ↔
      EachCall (Binding.next lwip) (fun b bind => GoesWell lwip (b.found bind.1) bind.2) binds
        (.new s) := by
  refine EachCall.congr (I := Binding.OwnsPcb) ?_ ⟨rfl, by simp [Binding.new]⟩ binds
  intro b bind h
  have howns : (b.found bind.1).OwnsPcb := ⟨h.live, h.bound⟩
  exact howns.step lwip bind.2

end Binds

/-- A library that returns one new control block after the other, and has the
port 80 in use. -/
def countingPcbs : PcbLwip ℕ where
  udpNewIpType _ s := (some (s + 1), s + 1)
  udpBind _ _ port s := (if port = 80 then -8 else 0, s)
  udpRecv _ _ s := s

/-- **A bind that is refused leaves its control block behind**, as the
socket's and live. -/
theorem refused_bind_leaks :
    ∃ b' : Binding ℕ, (Binding.new 0).afterBind countingPcbs (none, 80) =
        (.error (.stackException (-8)), b') ∧
      b'.socket.pcb = some 1 ∧ b'.livePcbs = [1] ∧
      ¬ EachCall (Binding.next countingPcbs)
        (fun b bind => AtomicBind countingPcbs (b.found bind.1) bind.2) [(0, (none, 80))]
        (.new 0) := by
  refine ⟨_, rfl, rfl, rfl, ?_⟩
  rintro ⟨hatomic, -⟩
  have hpcb := congrArg UdpSocket.pcb (hatomic.raised _ _ rfl).1
  cases hpcb

end PyLwip
