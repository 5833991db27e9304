import PyLwip.Stack.Native

/-!
# Buffers and UDP sockets

The parts of `Allocator` and `UdpSocket` that move data: `send_to` places it
in a buffer of lwIP's and passes the buffer on, `_recv_callback` copies what
lwIP hands over, frees the buffer and calls the user's callback.

A callback may send through the socket it is called by. What it does is a
`Reaction`: the sends it makes and then how it ends. An exception of one of
its sends either is caught, and the reaction goes on, or is what it ends by.
-/

namespace PyLwip

variable {σ : Type}

/-! ## The allocator -/

namespace Allocator

variable (lwip : Lwip σ)

/-- `size or len(data_to_place)`. -/
def sizeOrLength (size : Option ℕ) (dataToPlace : Data) : ℕ :=
  match size with
  | some (n + 1) => n + 1
  | _ => dataToPlace.content.length

/-- `allocate_transport_pbuf_from_data`. The declared `c_uint16` keeps the
size modulo 2 ^ 16. -/
def allocateTransportPbufFromData (dataToPlace : Data) (size : Option ℕ) : Py σ ℕ := do
  let length := UInt16.ofNat (sizeOrLength size dataToPlace)
  let newPbuf ← lwip.alloc 74 length 640
  let _ ← lwip.take newPbuf dataToPlace length
  Py.contents newPbuf

/-- `free_pbuf`. -/
def freePbuf (pbuf : ℕ) : Py σ ℕ := do
  let released ← lwip.free pbuf
  pure released.toNat

end Allocator

/-! ## The socket -/

/-- What a user's callback does: it sends, and returns or raises. -/
structure Reaction where
  sends : List (Data × IpV4Addr × UInt16)
  outcome : Except StackError Unit

/-- The fields of `UdpSocket`. The callback is given a `bytearray`. -/
structure UdpSocket where
  pcb : Option ℕ
  rxCallback : Option (List UInt8 → IpV4Addr → UInt16 → Reaction)

namespace UdpSocket

variable (lwip : Lwip σ) (socket : UdpSocket)

/-- The truth value of a structure instance, whatever is in it. -/
def truthy (_ : ℕ) : Bool := true

/-- `send_to`. -/
def sendTo (dataToSend : Data) (ipAddress : IpV4Addr) (port : UInt16) : Py σ Unit := do
  let pbufToSend ← Allocator.allocateTransportPbufFromData lwip dataToSend none
  if truthy pbufToSend then
    let sendResult ← lwip.sendto socket.pcb pbufToSend ipAddress port
    if sendResult ≠ 0 then Py.raise (.stackException sendResult) else pure ()
  else Py.raise .allocationError

/-- `set_recv_callback`. -/
def setRecvCallback (callback : List UInt8 → IpV4Addr → UInt16 → Reaction) : UdpSocket :=
  { socket with rxCallback := some callback }

/-- The sends of a callback, one after the other. -/
def sendAll : List (Data × IpV4Addr × UInt16) → World σ → World σ
  | [], w => w
  | (data, dst, port) :: sends, w => sendAll sends (socket.sendTo lwip data dst port w).2

/-- The call of the user's callback. -/
def invoke (callback : List UInt8 → IpV4Addr → UInt16 → Reaction) (data : List UInt8)
    (src : IpV4Addr) (port : UInt16) : Py σ Unit := fun w =>
  let reaction := callback data src port
  (reaction.outcome, socket.sendAll lwip reaction.sends
    { w with calls := w.calls ++ [.rxCallback data src port] })

/-- `_recv_callback`. -/
def recvCallback (pbuf : Option ℕ) (addr : Option IpV4Addr) (port : UInt16) : Py σ Unit := do
  let p ← Py.contents pbuf
  let memory ← lwip.read
  let addrCopy ← Py.contents addr
  let payload ← Py.contents (memory.pbuf p).payload
  let data := memory.bytes payload (memory.pbuf p).len.toNat
  let _ ← Allocator.freePbuf lwip p
  match socket.rxCallback with
  | none => pure ()
  | some callback => socket.invoke lwip callback data addrCopy port

/-! ## What they come to -/

variable {lwip socket} {w : World σ} {p : ℕ} {addr : IpV4Addr} {port : UInt16}

/-- **The outcomes of `send_to`**: the data is not taken, and the socket has
a buffer that it does nothing with; or NULL has no `.contents`, and the socket
gets no buffer; or lwIP gets the buffer, and its error is raised. -/
theorem sendTo_cases (lwip : Lwip σ) (socket : UdpSocket) (data : Data) (dst : IpV4Addr)
    (port : UInt16) (w : World σ) :
    (∃ lwip' ret, data.asVoidPointer = none ∧
      socket.sendTo lwip data dst port w = (.error .argumentError, ⟨lwip', w.calls ++
        [.pbufAlloc 74 (UInt16.ofNat data.content.length) 640 ret]⟩)) ∨
    (∃ lwip' taken, data.asVoidPointer ≠ none ∧
      (lwip.pbufAlloc 74 (UInt16.ofNat data.content.length) 640 w.lwip).1 = none ∧
      socket.sendTo lwip data dst port w = (.error .valueError, ⟨lwip', w.calls ++
        [.pbufAlloc 74 (UInt16.ofNat data.content.length) 640 none,
          .pbufTake none data.content (UInt16.ofNat data.content.length) taken]⟩)) ∨
    ∃ lwip' p taken sent, data.asVoidPointer ≠ none ∧
      (lwip.pbufAlloc 74 (UInt16.ofNat data.content.length) 640 w.lwip).1 = some p ∧
      socket.sendTo lwip data dst port w =
        (if sent ≠ 0 then .error (.stackException sent) else .ok (), ⟨lwip', w.calls ++
          [.pbufAlloc 74 (UInt16.ofNat data.content.length) 640 (some p),
            .pbufTake (some p) data.content (UInt16.ofNat data.content.length) taken,
            .udpSendto socket.pcb p dst port sent]⟩) := by
  set length := UInt16.ofNat data.content.length with hlength
  obtain ⟨⟨ret, s₁⟩, halloc⟩ : ∃ r, r = lwip.pbufAlloc 74 length 640 w.lwip := ⟨_, rfl⟩
  have h₁ : lwip.alloc 74 length 640 w =
      (.ok ret, ⟨s₁, w.calls ++ [.pbufAlloc 74 length 640 ret]⟩) := by
    simp [Lwip.alloc, ← halloc]
  have hsize : Allocator.sizeOrLength none data = data.content.length := rfl
  cases hdata : data.asVoidPointer with
  | none =>
    have h₂ : lwip.take ret data length ⟨s₁, w.calls ++ [.pbufAlloc 74 length 640 ret]⟩ =
        (.error .argumentError, ⟨s₁, w.calls ++ [.pbufAlloc 74 length 640 ret]⟩) := by
      simp [Lwip.take, hdata]
    have hplace : Allocator.allocateTransportPbufFromData lwip data none w =
        (.error .argumentError, ⟨s₁, w.calls ++ [.pbufAlloc 74 length 640 ret]⟩) := by
      rw [Allocator.allocateTransportPbufFromData, hsize, Py.bind_ok h₁, Py.bind_error h₂]
    exact .inl ⟨s₁, ret, rfl, by rw [sendTo, Py.bind_error hplace]⟩
  | some content =>
    obtain rfl := Data.content_of_asVoidPointer hdata
    obtain ⟨⟨taken, s₂⟩, htake⟩ : ∃ r, r = lwip.pbufTake ret data.content length s₁ := ⟨_, rfl⟩
    have h₂ : lwip.take ret data length ⟨s₁, w.calls ++ [.pbufAlloc 74 length 640 ret]⟩ =
        (.ok taken, ⟨s₂, w.calls ++ [.pbufAlloc 74 length 640 ret,
          .pbufTake ret data.content length taken]⟩) := by
      simp [Lwip.take, hdata, ← htake]
    have hplace : Allocator.allocateTransportPbufFromData lwip data none w =
        Py.contents ret ⟨s₂, w.calls ++ [.pbufAlloc 74 length 640 ret,
          .pbufTake ret data.content length taken]⟩ := by
      rw [Allocator.allocateTransportPbufFromData, hsize, Py.bind_ok h₁, Py.bind_ok h₂]
    cases ret with
    | none =>
      refine .inr (.inl ⟨s₂, taken, by simp, by rw [← halloc], ?_⟩)
      rw [sendTo, Py.bind_error hplace]
    | some p =>
      obtain ⟨⟨sent, s₃⟩, hsend⟩ : ∃ r, r = lwip.udpSendto socket.pcb p dst port s₂ := ⟨_, rfl⟩
      refine .inr (.inr ⟨s₃, p, taken, sent, by simp, by rw [← halloc], ?_⟩)
      have h₃ : lwip.sendto socket.pcb p dst port ⟨s₂, w.calls ++
          [.pbufAlloc 74 length 640 (some p), .pbufTake (some p) data.content length taken]⟩ =
          (.ok sent, ⟨s₃, w.calls ++ [.pbufAlloc 74 length 640 (some p),
            .pbufTake (some p) data.content length taken,
            .udpSendto socket.pcb p dst port sent]⟩) := by
        simp [Lwip.sendto, ← hsend]
      rw [sendTo, Py.bind_ok hplace, truthy, if_pos rfl, Py.bind_ok h₃]
      split <;> rfl

variable (socket addr port) in
/-- **`_recv_callback`** copies the buffer's own bytes, frees the buffer, and
only then calls the user. -/
theorem recvCallback_eq {payload : ℕ}
    (hpayload : ((lwip.memory w.lwip).pbuf p).payload = some payload) :
    ∃ lwip' released, socket.recvCallback lwip (some p) (some addr) port w =
      match socket.rxCallback with
      | none => (.ok (), ⟨lwip', w.calls ++ [.pbufFree p released]⟩)
      | some callback => socket.invoke lwip callback
          ((lwip.memory w.lwip).bytes payload ((lwip.memory w.lwip).pbuf p).len.toNat) addr port
          ⟨lwip', w.calls ++ [.pbufFree p released]⟩ := by
  obtain ⟨⟨released, s₁⟩, hfree⟩ : ∃ r, r = lwip.pbufFree p w.lwip := ⟨_, rfl⟩
  have h₁ : lwip.free p w = (.ok released, ⟨s₁, w.calls ++ [.pbufFree p released]⟩) := by
    simp [Lwip.free, ← hfree]
  have h₂ : Allocator.freePbuf lwip p w =
      (.ok released.toNat, ⟨s₁, w.calls ++ [.pbufFree p released]⟩) := by
    rw [Allocator.freePbuf, Py.bind_ok h₁]
    rfl
  have hread : lwip.read w = (.ok (lwip.memory w.lwip), w) := rfl
  refine ⟨s₁, released, ?_⟩
  rw [recvCallback, Py.contents_some, Py.bind_ok (Py.pure_apply p w), Py.bind_ok hread,
    Py.contents_some, Py.bind_ok (Py.pure_apply addr w), hpayload, Py.contents_some,
    Py.bind_ok (Py.pure_apply payload w), Py.bind_ok h₂]
  cases socket.rxCallback <;> rfl

end UdpSocket

end PyLwip
