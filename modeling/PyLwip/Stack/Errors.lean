import PyLwip.Stack.Bind
import PyLwip.Stack.Ownership

/-!
# How failures of lwIP are reported

lwIP tells of a failed allocation by NULL, and of a failed operation by a
code. `bind` and `send_to` are to raise `AllocationError` for the one and
`StackException` with the code for the other. Both look for a missing object
only after `.contents` has been taken of the pointer, which raises
`ValueError` for NULL; and before that `pbuf_take` refuses a `bytearray`.
-/

namespace PyLwip

variable {σ C : Type}

/-! ## What is to be reported -/

/-- **Failures are reported as documented**, for a request that ended by `out`
after some calls of lwIP: `AllocationError` exactly if an allocation returned
NULL, and then no other call was made; `StackException` with a code exactly if
the object was allocated and the operation returned that code, not 0; and
nothing is raised otherwise. -/
structure ReportsErrors (allocation? : C → Option (Option ℕ)) (code? : C → Option Int8)
    (out : Except StackError Unit) (calls : List C) : Prop where
  allocation : out = .error .allocationError ↔ none ∈ calls.filterMap allocation?
  alone : none ∈ calls.filterMap allocation? → calls.length = 1
  operation : ∀ code, out = .error (.stackException code) ↔
    (∃ p, some p ∈ calls.filterMap allocation?) ∧ code ∈ calls.filterMap code? ∧ code ≠ 0
  returns : out = .ok () ↔
    (∃ p, some p ∈ calls.filterMap allocation?) ∧ 0 ∈ calls.filterMap code?
  only : out = .ok () ∨ out = .error .allocationError ∨ ∃ code, out = .error (.stackException code)

namespace ReportsErrors

variable {allocation? : C → Option (Option ℕ)} {code? : C → Option Int8} {calls : List C}
  {out : Except StackError Unit}

/-- Any other exception reports nothing. -/
theorem not_of_other {e : StackError} (halloc : e ≠ .allocationError)
    (hcode : ∀ code, e ≠ .stackException code) :
    ¬ ReportsErrors allocation? code? (.error e) calls := by
  intro h
  simpa [halloc, hcode] using h.only

/-- A request that got its object and raises what the operation returns. -/
theorem of_allocated (p : ℕ) (code : Int8) (halloc : calls.filterMap allocation? = [some p])
    (hcode : calls.filterMap code? = [code])
    (hout : out = if code ≠ 0 then .error (.stackException code) else .ok ()) :
    ReportsErrors allocation? code? out calls := by
  by_cases h : code = 0
  · subst h
    rw [if_neg (by simp)] at hout
    constructor <;> simp [halloc, hcode, hout]
  · rw [if_pos h] at hout
    -- the code raised is the one returned
    refine ⟨by simp [halloc, hout], by simp [halloc], fun c => ?_,
      by simp [hcode, hout, Ne.symm h], .inr (.inr ⟨code, hout⟩)⟩
    rw [halloc, hcode, hout]
    constructor
    · intro heq
      cases heq
      simp [h]
    · rintro ⟨-, hc, -⟩
      rw [List.mem_singleton.mp hc]

end ReportsErrors

namespace PcbCall

/-- What a call that allocates returned. -/
def allocation? : PcbCall → Option (Option ℕ)
  | .udpNewIpType _ ret => some ret
  | _ => none

/-- The code that an operation returned. -/
def code? : PcbCall → Option Int8
  | .udpBind _ _ _ ret => some ret
  | _ => none

end PcbCall

namespace Call

/-- What a call that allocates returned. -/
def allocation? : Call → Option (Option ℕ)
  | .pbufAlloc _ _ _ ret => some ret
  | _ => none

/-- The code that an operation returned. -/
def code? : Call → Option Int8
  | .udpSendto _ _ _ _ ret => some ret
  | _ => none

end Call

/-! ## What the two requests report -/

/-- What a bind reports. -/
def BindReports (lwip : PcbLwip σ) (b : Binding σ) (endPoint : EndPoint) : Prop :=
  ∃ calls, (b.afterBind lwip endPoint).2.pcbCalls = b.pcbCalls ++ calls ∧
    ReportsErrors PcbCall.allocation? PcbCall.code? (b.afterBind lwip endPoint).1 calls

/-- What a send reports. -/
def SendReports (lwip : Lwip σ) (socket : UdpSocket) (data : Data) (dst : IpV4Addr)
    (port : UInt16) (w : World σ) : Prop :=
  ∃ calls, (socket.sendTo lwip data dst port w).2.calls = w.calls ++ calls ∧
    ReportsErrors Call.allocation? Call.code? (socket.sendTo lwip data dst port w).1 calls

/-- A bind to an address that is read reports its failures as documented
exactly if lwIP returns a control block. -/
theorem bindReports_iff {lwip : PcbLwip σ} {b : Binding σ} {endPoint : EndPoint}
    (haddress : IpV4Addr.ofText endPoint.1 ≠ none) :
    BindReports lwip b endPoint ↔ (lwip.udpNewIpType 0 b.native).1 ≠ none := by
  obtain ⟨⟨out, b'⟩, hafter⟩ : ∃ r, b.afterBind lwip endPoint = r := ⟨_, rfl⟩
  rw [BindReports, hafter]
  cases Binding.afterBind_outcome hafter with
  | null s₁ hnew =>
    refine iff_of_false ?_ (by simp [hnew])
    rintro ⟨calls, -, hreports⟩
    exact ReportsErrors.not_of_other (by simp) (by simp) hreports
  | unparsed p s₁ hnew hnone => exact absurd hnone haddress
  | refused p s₁ s₂ address code hnew haddress' hbind hcode =>
    refine iff_of_true ⟨_, rfl, ?_⟩ (by simp [hnew])
    exact .of_allocated p code rfl rfl (if_pos hcode).symm
  | bound p s₁ s₂ address hnew haddress' hbind =>
    refine iff_of_true ⟨_, rfl, ?_⟩ (by simp [hnew])
    exact .of_allocated p 0 rfl rfl (if_neg (by simp)).symm

/-- A send reports its failures as documented exactly if `c_void_p` takes the
data and lwIP returns a buffer. -/
theorem sendReports_iff {lwip : Lwip σ} {socket : UdpSocket} {data : Data} {dst : IpV4Addr}
    {port : UInt16} {w : World σ} :
    SendReports lwip socket data dst port w ↔ data.asVoidPointer ≠ none ∧
      (lwip.pbufAlloc 74 (UInt16.ofNat data.content.length) 640 w.lwip).1 ≠ none := by
  rw [SendReports]
  rcases UdpSocket.sendTo_cases lwip socket data dst port w with
    ⟨lwip', ret, hrefused, heq⟩ | ⟨lwip', taken, -, hnull, heq⟩ |
    ⟨lwip', p, taken, sent, htaken, hsome, heq⟩
  · rw [heq]
    refine iff_of_false ?_ (by simp [hrefused])
    rintro ⟨calls, -, hreports⟩
    exact ReportsErrors.not_of_other (by simp) (by simp) hreports
  · rw [heq]
    refine iff_of_false ?_ (by simp [hnull])
    rintro ⟨calls, -, hreports⟩
    exact ReportsErrors.not_of_other (by simp) (by simp) hreports
  · rw [heq]
    refine iff_of_true ⟨_, rfl, ?_⟩ ⟨htaken, by simp [hsome]⟩
    exact .of_allocated p sent rfl rfl rfl

/-- **`bind` and `send_to` report lwIP's failures as documented exactly if
the allocation does not fail**, and `send_to` only of data that `c_void_p`
takes, for an address that is read and a socket that is bound. -/
theorem errors_reported_iff {τ : Type} (pcbs : PcbLwip τ) (lwip : Lwip σ) :
    (∀ (b : Binding τ) (endPoint : EndPoint), IpV4Addr.ofText endPoint.1 ≠ none →
      (BindReports pcbs b endPoint ↔ (pcbs.udpNewIpType 0 b.native).1 ≠ none)) ∧
    ∀ (socket : UdpSocket) (data : Data) (dst : IpV4Addr) (port : UInt16) (w : World σ),
      socket.pcb ≠ none →
      (SendReports lwip socket data dst port w ↔ data.asVoidPointer ≠ none ∧
        (lwip.pbufAlloc 74 (UInt16.ofNat data.content.length) 640 w.lwip).1 ≠ none) :=
  ⟨fun _ _ haddress => bindReports_iff haddress, fun _ _ _ _ _ _ => sendReports_iff⟩

/-- A bind and a send that lwIP has room for. -/
theorem errors_reported_counting :
    BindReports countingPcbs (.new 0) (some "10.0.0.1", 80) ∧
      SendReports countingLwip listener (.bytes [1, 2]) ⟨9⟩ 7 ⟨0, []⟩ := by
  have haddress : IpV4Addr.ofText (some "10.0.0.1") ≠ none := by decide
  obtain ⟨hbind, hsend⟩ := errors_reported_iff countingPcbs countingLwip
  exact ⟨(hbind (.new 0) (some "10.0.0.1", 80) haddress).mpr (by decide),
    (hsend listener (.bytes [1, 2]) ⟨9⟩ 7 ⟨0, []⟩ (by decide)).mpr (by decide)⟩

/-- A library out of memory. -/
def exhaustedPcbs : PcbLwip Unit where
  udpNewIpType _ s := (none, s)
  udpBind _ _ _ s := (0, s)
  udpRecv _ _ s := s

/-- **A failed allocation is reported as `ValueError`**, and `send_to` has
lwIP copy the data to NULL before. **A `bytearray` is refused** when it has
its buffer already. -/
theorem allocation_unreported :
    (((Binding.new ()).afterBind exhaustedPcbs (none, 80)).1 = .error .valueError ∧
      ¬ BindReports exhaustedPcbs (.new ()) (none, 80)) ∧
    (listener.sendTo (idleLwip oneBuffer) (.bytes [1]) ⟨9⟩ 7 ⟨(), []⟩ =
        (.error .valueError, ⟨(), [.pbufAlloc 74 1 640 none, .pbufTake none [1] 1 (-16)]⟩) ∧
      ¬ SendReports (idleLwip oneBuffer) listener (.bytes [1]) ⟨9⟩ 7 ⟨(), []⟩) ∧
    listener.sendTo countingLwip (.bytearray [1, 2]) ⟨9⟩ 7 ⟨0, []⟩ =
        (.error .argumentError, ⟨1, [.pbufAlloc 74 2 640 (some 1)]⟩) ∧
      ¬ SendReports countingLwip listener (.bytearray [1, 2]) ⟨9⟩ 7 ⟨0, []⟩ := by
  refine ⟨⟨rfl, ?_⟩, ⟨rfl, ?_⟩, rfl, ?_⟩
  all_goals
    rintro ⟨calls, -, hreports⟩
    exact ReportsErrors.not_of_other (by simp) (by simp) hreports

end PyLwip
