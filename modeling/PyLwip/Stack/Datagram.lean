import PyLwip.Stack.UdpSocket
import Mathlib.Algebra.BigOperators.Group.List.Basic
import Mathlib.Algebra.Order.BigOperators.Group.List
import Mathlib.Algebra.Order.Ring.Nat

/-!
# What a received datagram is delivered as

lwIP hands the socket the first buffer of a chain. The datagram is the
payload of the whole chain, which `tot_len` of the first buffer measures;
`_recv_callback` copies `len` bytes, the first buffer's own.
-/

namespace PyLwip

variable {σ : Type}

/-! ## Chains -/

/-- The buffers that follow each other from a pointer on, up to NULL. -/
inductive Chain (m : Memory) : Option ℕ → List PBuf → Prop
  | nil : Chain m none []
  | cons {p : ℕ} {rest : List PBuf} :
      Chain m (m.pbuf p).next rest → Chain m (some p) (m.pbuf p :: rest)

namespace Memory

variable (m : Memory)

/-- The payload of one buffer. -/
def segment (b : PBuf) : List UInt8 :=
  match b.payload with
  | some p => m.bytes p b.len.toNat
  | none => []

/-- The payload of a chain. -/
def content (chain : List PBuf) : List UInt8 := chain.flatMap m.segment

end Memory

/-- **A datagram in memory**: a chain from `p` on, each of its buffers with a
payload, and the first buffer's `tot_len` the sum of their lengths. -/
structure Datagram (m : Memory) (p : ℕ) (chain : List PBuf) : Prop where
  linked : Chain m (some p) chain
  payload : ∀ b ∈ chain, b.payload ≠ none
  total : (m.pbuf p).totLen.toNat = (chain.map fun b => b.len.toNat).sum

namespace Datagram

variable {m : Memory} {p : ℕ} {chain : List PBuf}

theorem eq_cons (h : Datagram m p chain) : ∃ rest, chain = m.pbuf p :: rest := by
  cases h.linked with
  | cons => exact ⟨_, rfl⟩

theorem exists_payload (h : Datagram m p chain) : ∃ q, (m.pbuf p).payload = some q := by
  obtain ⟨rest, rfl⟩ := h.eq_cons
  exact Option.ne_none_iff_exists'.mp (h.payload _ List.mem_cons_self)

/-- A buffer's payload has the buffer's length. -/
theorem segment_length (h : Datagram m p chain) {b : PBuf} (hb : b ∈ chain) :
    (m.segment b).length = b.len.toNat := by
  obtain ⟨q, hq⟩ := Option.ne_none_iff_exists'.mp (h.payload b hb)
  simp [Memory.segment, hq]

/-- The payload of the chain has `tot_len` bytes. -/
theorem content_length (h : Datagram m p chain) :
    (m.content chain).length = (m.pbuf p).totLen.toNat := by
  rw [Memory.content, List.length_flatMap, h.total]
  exact congrArg List.sum (List.map_congr_left fun b hb => h.segment_length hb)

/-- **The first buffer is the datagram** exactly if it is as long. -/
theorem head_eq_content_iff (h : Datagram m p chain) :
    m.segment (m.pbuf p) = m.content chain ↔ (m.pbuf p).len = (m.pbuf p).totLen := by
  obtain ⟨rest, rfl⟩ := h.eq_cons
  have hhead : (m.segment (m.pbuf p)).length = (m.pbuf p).len.toNat :=
    h.segment_length List.mem_cons_self
  have hsplit : m.content (m.pbuf p :: rest) = m.segment (m.pbuf p) ++ m.content rest := by
    simp [Memory.content]
  constructor
  · intro heq
    have hlen := congrArg List.length heq
    rw [hhead, h.content_length] at hlen
    exact UInt16.toNat_inj.mp hlen
  · intro hlen
    have hall := h.content_length
    rw [hsplit, List.length_append, hhead, hlen] at hall
    have hrest : m.content rest = [] := List.length_eq_zero_iff.mp (by omega)
    rw [hsplit, hrest, List.append_nil]

end Datagram

/-! ## Deliveries -/

/-- What a call of the user's callback is given. -/
def Call.delivered? : Call → Option (List UInt8 × IpV4Addr × UInt16)
  | .rxCallback data src port => some (data, src, port)
  | _ => none

/-- What the user's callback was given, call by call. -/
abbrev deliveries (calls : List Call) : List (List UInt8 × IpV4Addr × UInt16) :=
  calls.filterMap Call.delivered?

namespace UdpSocket

variable {lwip : Lwip σ} {socket : UdpSocket} {w : World σ} {p : ℕ} {addr : IpV4Addr}
  {port : UInt16}

/-- A send delivers nothing. -/
theorem deliveries_sendTo (data : Data) (dst : IpV4Addr) (port : UInt16) (w : World σ) :
    deliveries (socket.sendTo lwip data dst port w).2.calls = deliveries w.calls := by
  rcases sendTo_cases lwip socket data dst port w with
    ⟨lwip', ret, -, h⟩ | ⟨lwip', taken, -, -, h⟩ | ⟨lwip', p, taken, sent, -, -, h⟩
  · simp [h, deliveries, Call.delivered?]
  · simp [h, deliveries, Call.delivered?]
  · simp [h, deliveries, Call.delivered?]

theorem deliveries_sendAll (sends : List (Data × IpV4Addr × UInt16)) (w : World σ) :
    deliveries (socket.sendAll lwip sends w).calls = deliveries w.calls := by
  induction sends generalizing w with
  | nil => rfl
  | cons send sends ih =>
    obtain ⟨data, dst, port⟩ := send
    rw [sendAll, ih, deliveries_sendTo]

/-- The receive callback delivers the first buffer, once. -/
theorem deliveries_recvCallback {callback : List UInt8 → IpV4Addr → UInt16 → Reaction}
    (hcallback : socket.rxCallback = some callback) {payload : ℕ}
    (hpayload : ((lwip.memory w.lwip).pbuf p).payload = some payload) :
    deliveries (socket.recvCallback lwip (some p) (some addr) port w).2.calls =
      deliveries w.calls ++
        [((lwip.memory w.lwip).segment ((lwip.memory w.lwip).pbuf p), addr, port)] := by
  obtain ⟨lwip', released, h⟩ := recvCallback_eq socket addr port hpayload
  rw [h, hcallback]
  simp only [invoke, deliveries_sendAll, Memory.segment, hpayload]
  simp [deliveries, List.filterMap_append, List.filterMap_cons, Call.delivered?]

/-- **The datagram is delivered whole**: one call of the user's callback,
with the `tot_len` bytes of the chain and the address and port passed in. -/
def DeliversWhole (lwip : Lwip σ) (socket : UdpSocket) (p : ℕ) (chain : List PBuf)
    (addr : IpV4Addr) (port : UInt16) (w : World σ) : Prop :=
  deliveries (socket.recvCallback lwip (some p) (some addr) port w).2.calls =
      deliveries w.calls ++ [((lwip.memory w.lwip).content chain, addr, port)] ∧
    ((lwip.memory w.lwip).content chain).length =
      ((lwip.memory w.lwip).pbuf p).totLen.toNat

/-- **A datagram is delivered whole exactly if its first buffer holds all of
it.** -/
theorem delivers_whole_iff {callback : List UInt8 → IpV4Addr → UInt16 → Reaction}
    (hcallback : socket.rxCallback = some callback) {chain : List PBuf}
    (h : Datagram (lwip.memory w.lwip) p chain) :
    DeliversWhole lwip socket p chain addr port w ↔
      ((lwip.memory w.lwip).pbuf p).len = ((lwip.memory w.lwip).pbuf p).totLen := by
  obtain ⟨payload, hpayload⟩ := h.exists_payload
  rw [DeliversWhole, deliveries_recvCallback hcallback hpayload, ← h.head_eq_content_iff]
  simp [h.content_length]

end UdpSocket

/-! ## One buffer, and two -/

/-- A library whose calls do nothing, over a fixed memory. -/
def idleLwip (m : Memory) : Lwip Unit where
  memory _ := m
  pbufAlloc _ _ _ s := (none, s)
  pbufTake _ _ _ s := (-16, s)
  pbufFree _ s := (1, s)
  udpSendto _ _ _ _ s := (0, s)

/-- A socket whose callback returns. -/
def listener : UdpSocket := ⟨some 1, some fun _ _ _ => ⟨[], .ok ()⟩⟩

/-- Three bytes in the buffer at 16. -/
def oneBuffer : Memory where
  pbuf _ := ⟨none, some 100, 3, 3⟩
  byte a := UInt8.ofNat a

theorem delivers_whole_oneBuffer :
    listener.DeliversWhole (idleLwip oneBuffer) 16 [⟨none, some 100, 3, 3⟩] ⟨0⟩ 7 ⟨(), []⟩ := by
  have h : Datagram ((idleLwip oneBuffer).memory ()) 16 [⟨none, some 100, 3, 3⟩] :=
    ⟨.cons .nil, by decide, rfl⟩
  exact (UdpSocket.delivers_whole_iff rfl h).mpr rfl

/-- Two bytes in the buffer at 16, and a third in the one it is chained to. -/
def twoBuffers : Memory where
  pbuf p := if p = 16 then ⟨some 32, some 100, 3, 2⟩ else ⟨none, some 200, 1, 1⟩
  byte a := UInt8.ofNat a

/-- **A chained datagram is cut off** after its first buffer. -/
theorem datagram_cut_off :
    Datagram twoBuffers 16 [⟨some 32, some 100, 3, 2⟩, ⟨none, some 200, 1, 1⟩] ∧
      deliveries (listener.recvCallback (idleLwip twoBuffers) (some 16) (some ⟨0⟩) 7
        ⟨(), []⟩).2.calls = [([100, 101], ⟨0⟩, 7)] ∧
      ¬ listener.DeliversWhole (idleLwip twoBuffers) 16
        [⟨some 32, some 100, 3, 2⟩, ⟨none, some 200, 1, 1⟩] ⟨0⟩ 7 ⟨(), []⟩ := by
  refine ⟨⟨.cons (.cons .nil), by decide, rfl⟩, by decide, ?_⟩
  rw [UdpSocket.DeliversWhole]
  decide

end PyLwip
