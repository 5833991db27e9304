import PyLwip.Common.Ledger
import PyLwip.Stack.Datagram

/-!
# Which buffers a socket owns

A buffer that `pbuf_alloc` returns is the caller's, and so is one that lwIP
hands to the receive function; `udp_sendto` takes nothing over, and
`pbuf_free` releases. `owned` settles the calls of a socket by these rules.

The receive path frees what it is given before it calls the user. The send
path frees nothing: after any sequence of operations the socket owns exactly
the buffers its sends were given.
-/

namespace PyLwip

variable {σ : Type}

/-! ## The account -/

namespace Call

/-- What a call does to the buffers the socket owns. -/
def entry? : Call → Option (Ledger.Entry ℕ)
  | .pbufAlloc _ _ _ (some p) | .udpRecv p => some (.acquire p)
  | .pbufFree p _ => some (.release p)
  | _ => none

/-- The buffer that an allocation of the socket returned. -/
def allocated? : Call → Option ℕ
  | .pbufAlloc _ _ _ ret => ret
  | _ => none

end Call

/-- The live buffers the socket owns, `none` after a buffer was freed that it
does not own. -/
def owned (calls : List Call) : Option (List ℕ) := Ledger.held (calls.filterMap Call.entry?)

/-- The buffers the socket was given by its allocations. -/
abbrev allocations (calls : List Call) : List ℕ := calls.filterMap Call.allocated?

/-! ## The operations -/

/-- An operation on a socket; of `receive` lwIP is the caller. -/
inductive Op
  | sendTo (data : Data) (dst : IpV4Addr) (port : UInt16)
  | receive (p : ℕ) (src : IpV4Addr) (port : UInt16)
  | setRecvCallback (callback : List UInt8 → IpV4Addr → UInt16 → Reaction)

/-- An operation, begun while lwIP is in the state `s`. -/
def Op.run (lwip : Lwip σ) (s : σ) (socket : UdpSocket) (w : World σ) : Op → UdpSocket × World σ
  | .sendTo data dst port => (socket, (socket.sendTo lwip data dst port ⟨s, w.calls⟩).2)
  | .receive p src port =>
    (socket, (socket.recvCallback lwip (some p) (some src) port ⟨s, w.calls ++ [.udpRecv p]⟩).2)
  | .setRecvCallback callback => (socket.setRecvCallback callback, w)

/-- The operations one after the other; what lwIP does in between is in the
state the next one finds. -/
def runOps (lwip : Lwip σ) : List (σ × Op) → UdpSocket → World σ → UdpSocket × World σ
  | [], socket, w => (socket, w)
  | (s, op) :: ops, socket, w =>
    let r := op.run lwip s socket w
    runOps lwip ops r.1 r.2

/-- lwIP hands over buffers that have a payload. -/
def Op.Proper (lwip : Lwip σ) (s : σ) : Op → Prop
  | .receive p _ _ => ((lwip.memory s).pbuf p).payload ≠ none
  | _ => True

/-! ## What the socket owns -/

/-- **The account of a socket**: it owns its allocations. -/
def OwnsAllocations (w : World σ) : Prop := owned w.calls = some (allocations w.calls).reverse

namespace UdpSocket

variable {lwip : Lwip σ} {socket : UdpSocket} {w : World σ}

/-- A send that gets a buffer keeps it; one that gets none owns no more. -/
theorem ownsAllocations_sendTo (data : Data) (dst : IpV4Addr) (port : UInt16)
    (h : OwnsAllocations w) : OwnsAllocations (socket.sendTo lwip data dst port w).2 := by
  rcases sendTo_cases lwip socket data dst port w with
    ⟨lwip', ret, -, heq⟩ | ⟨lwip', taken, -, -, heq⟩ | ⟨lwip', p, taken, sent, -, -, heq⟩
  · rw [heq]
    cases ret with
    | none =>
      simpa [OwnsAllocations, owned, List.filterMap_cons, Call.entry?, Call.allocated?] using h
    | some p =>
      have hheld := Ledger.held_acquire h p
      simpa [OwnsAllocations, owned, List.filterMap_cons, Call.entry?, Call.allocated?] using hheld
  · rw [heq]
    simpa [OwnsAllocations, owned, List.filterMap_cons, Call.entry?, Call.allocated?] using h
  · rw [heq]
    have hheld := Ledger.held_acquire h p
    simpa [OwnsAllocations, owned, List.filterMap_cons, Call.entry?, Call.allocated?] using hheld

theorem ownsAllocations_sendAll (sends : List (Data × IpV4Addr × UInt16))
    (h : OwnsAllocations w) : OwnsAllocations (socket.sendAll lwip sends w) := by
  induction sends generalizing w with
  | nil => exact h
  | cons send sends ih =>
    obtain ⟨data, dst, port⟩ := send
    exact ih (ownsAllocations_sendTo data dst port h)

/-- What lwIP hands over is freed before the user is called. -/
theorem ownsAllocations_recvCallback {s : σ} {p : ℕ} {src : IpV4Addr} {port : UInt16}
    (hpayload : ((lwip.memory s).pbuf p).payload ≠ none) (h : OwnsAllocations w) :
    OwnsAllocations (socket.recvCallback lwip (some p) (some src) port
      ⟨s, w.calls ++ [.udpRecv p]⟩).2 := by
  obtain ⟨payload, hpayload⟩ := Option.ne_none_iff_exists'.mp hpayload
  obtain ⟨lwip', released, heq⟩ :=
    recvCallback_eq socket src port (w := ⟨s, w.calls ++ [.udpRecv p]⟩) hpayload
  -- the buffer is taken over and given back before any other call
  have hfreed : ∀ calls, calls.filterMap Call.entry? = [] → allocations calls = [] →
      OwnsAllocations (⟨lwip', w.calls ++ [.udpRecv p, .pbufFree p released] ++ calls⟩ :
        World σ) := by
    intro calls hentries hallocs
    have hheld := Ledger.held_acquire_release h p
    simpa [OwnsAllocations, owned, List.filterMap_cons, Call.entry?, Call.allocated?, hentries,
      hallocs] using hheld
  rw [heq]
  cases socket.rxCallback with
  | none => simpa using hfreed [] rfl rfl
  | some callback =>
    refine ownsAllocations_sendAll _ ?_
    simpa using hfreed [.rxCallback _ src port] rfl rfl

end UdpSocket

section Runs

variable {lwip : Lwip σ} {socket : UdpSocket} {w : World σ}

theorem Op.ownsAllocations {s : σ} {op : Op} (hop : op.Proper lwip s) (h : OwnsAllocations w) :
    OwnsAllocations (op.run lwip s socket w).2 := by
  cases op with
  | sendTo data dst port =>
    exact UdpSocket.ownsAllocations_sendTo (w := ⟨s, w.calls⟩) data dst port h
  | receive p src port => exact UdpSocket.ownsAllocations_recvCallback hop h
  | setRecvCallback callback => exact h

/-- **The run lemma**: after any operations the socket owns its allocations. -/
theorem ownsAllocations_of_run {ops : List (σ × Op)} (hops : ∀ op ∈ ops, op.2.Proper lwip op.1)
    (h : OwnsAllocations w) : OwnsAllocations (runOps lwip ops socket w).2 := by
  induction ops generalizing socket w with
  | nil => exact h
  | cons op ops ih =>
    obtain ⟨s, op⟩ := op
    exact ih (fun op' h' => hops op' (List.mem_cons_of_mem _ h'))
      (Op.ownsAllocations (hops _ List.mem_cons_self) h)

/-- **A socket's buffers are balanced exactly if no send was given one.**
After any operations the socket owns nothing, and has freed once what it was
given, if and only if every allocation of its sends returned NULL. -/
theorem balanced_iff {s : σ} {ops : List (σ × Op)} (hops : ∀ op ∈ ops, op.2.Proper lwip op.1) :
    owned (runOps lwip ops socket ⟨s, []⟩).2.calls = some [] ↔
      ∀ c ∈ (runOps lwip ops socket ⟨s, []⟩).2.calls, c.allocated? = none := by
  have hown : OwnsAllocations (runOps lwip ops socket ⟨s, []⟩).2 :=
    ownsAllocations_of_run hops rfl
  rw [hown]
  simp [List.filterMap_eq_nil_iff]

end Runs

/-! ## A socket that only receives, and one that sends -/

/-- A library that returns one new buffer after the other and keeps the
number of buffers out. -/
def countingLwip : Lwip ℕ where
  memory _ := oneBuffer
  pbufAlloc _ _ _ s := (some (s + 1), s + 1)
  pbufTake _ _ _ s := (0, s)
  pbufFree _ s := (1, s - 1)
  udpSendto _ _ _ _ s := (0, s)

theorem balanced_receiving :
    owned (runOps countingLwip [(1, .receive 1 ⟨9⟩ 7), (1, .receive 1 ⟨9⟩ 7)] listener
      ⟨0, []⟩).2.calls = some [] :=
  (balanced_iff (by simp [Op.Proper, countingLwip, oneBuffer])).mpr (by decide)

/-- **Every send leaks its buffer**, and lwIP's error or success makes no
difference. -/
theorem send_leaks :
    owned (runOps countingLwip
      [(0, .sendTo (.bytes [1, 2]) ⟨9⟩ 7), (1, .sendTo (.bytes [3]) ⟨9⟩ 7)] listener
      ⟨0, []⟩).2.calls = some [2, 1] := by
  decide

end PyLwip
