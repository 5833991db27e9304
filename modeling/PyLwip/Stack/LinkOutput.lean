import PyLwip.Stack.Buffers

/-!
# The frames an interface puts out, and takes in

lwIP passes a frame to `linkoutput` as a chain of buffers;
`_link_output_wrapper` copies the first buffer's own bytes and calls the
user's callable with them, which on a bus broadcasts them. A receiver's
`input_data` places what it is given in a new buffer, so that what is lost
between the chain and the receivers' buffers is lost in the wrapper.
-/

namespace PyLwip

variable {σ τ : Type}

/-- `_LwipNetIf`, of which the output path reads this field. -/
structure LwipNetIf where
  state : Option ℕ
deriving DecidableEq

/-- The memory with lwIP's interfaces and with the Python objects that a
pointer to a `py_object` leads to, by identity. -/
structure NetMemory extends Memory where
  netif : ℕ → LwipNetIf
  object : ℕ → ℕ

/-- A user's link-output callable: it is given an interface and the bytes of
a frame, does something to the state outside, and returns or raises. -/
abbrev LinkOutput (τ : Type) := ℕ → List UInt8 → τ → Except StackError Unit × τ

/-- The state that callables change, and what they were called with. -/
structure Sent (τ : Type) where
  outside : τ
  calls : List (ℕ × List UInt8)

namespace NetIf

/-- The call of the user's callable. -/
def callLinkOutput (linkOutput : LinkOutput τ) (netif : ℕ) (data : List UInt8) :
    Py (Sent τ) Unit := fun w =>
  let r := linkOutput netif data w.lwip.outside
  (r.1, { w with lwip := ⟨r.2, w.lwip.calls ++ [(netif, data)]⟩ })

/-- `_link_output_wrapper`, with the callable that `set_output_callbacks`
installed. -/
def linkOutputWrapper (userLinkOutput : Option (LinkOutput τ)) (memory : NetMemory)
    (netif outgoingPbuf : Option ℕ) : Py (Sent τ) (Option Int8) :=
  match userLinkOutput with
  | none => pure none
  | some linkOutput => do
    let p ← Py.contents outgoingPbuf
    let payload ← Py.contents (memory.pbuf p).payload
    let payloadToSend := memory.bytes payload (memory.pbuf p).len.toNat
    let n ← Py.contents netif
    let object ← Py.contents (memory.netif n).state
    callLinkOutput linkOutput (memory.object object) payloadToSend
    pure (some 0)

/-- `from_buffer` of an array as long as the data: the array shares the
bytes, and what is read-only it does not take. -/
def fromBuffer : Data → Py σ Data
  | .bytes _ => Py.raise .typeError
  | .bytearray content | .array content => pure (.array content)

/-- `input_data`, with the `input` function of the interface. -/
def inputData (lwip : Lwip σ) (input : ℕ → Py σ Int8) (incomingData : Data) : Py σ Unit := do
  let array ← fromBuffer incomingData
  let incomingPbuf ←
    Allocator.allocateRawPbufFromData lwip array (some incomingData.content.length)
  let _ ← input incomingPbuf
  pure ()

/-! ## What they come to -/

/-- **A frame is placed whole** in the receiver that is given it, as the
`bytearray` that the wrapper makes: it gets no buffer, or the buffer that it
passes to its `input` holds the frame. -/
def PlacesWhole (lwip : Lwip σ) (input : ℕ → Py σ Int8) (data : List UInt8) (w : World σ) : Prop :=
  (∃ w', inputData lwip input (.bytearray data) w = (.error .valueError, w')) ∨
    ∃ p w₁, inputData lwip input (.bytearray data) w = (input p >>= fun _ => pure ()) w₁ ∧
      (lwip.memory w₁.lwip).Holds p data data.length

theorem placesWhole {lwip : Lwip σ} (hl : lwip.PlacesData) (input : ℕ → Py σ Int8)
    {data : List UInt8} (hlen : data.length < 2 ^ 16) (w : World σ) :
    PlacesWhole lwip input data w := by
  have harray : fromBuffer (.bytearray data) w = (.ok (.array data), w) := rfl
  obtain ⟨⟨out, w₁⟩, hplace⟩ : ∃ r,
      Allocator.allocateRawPbufFromData lwip (.array data) (some data.length) w = r := ⟨_, rfl⟩
  cases out with
  | error e =>
    obtain rfl := Allocator.error_of_raw (by simp [Data.asVoidPointer]) hplace
    exact .inl ⟨w₁, by rw [inputData, Py.bind_ok harray, Data.content, Py.bind_error hplace]⟩
  | ok p =>
    have hsize : ∀ n ∈ some data.length, n ≤ (Data.array data).content.length := by
      simp [Data.content]
    have hplaceable : Placeable data (some data.length) := by
      refine ⟨hlen, fun hzero => ?_⟩
      rw [Option.some.inj hzero]
      rfl
    refine .inr ⟨p, w₁, by rw [inputData, Py.bind_ok harray, Data.content, Py.bind_ok hplace], ?_⟩
    exact (holds_iff_placeable (holds_of_raw hl hsize hplace)).mpr hplaceable

section Output

variable {linkOutput : LinkOutput τ} {memory : NetMemory} {p n a payload : ℕ}
  {w : World (Sent τ)} {chain : List PBuf}

/-- **`_link_output_wrapper`** passes on the bytes of the buffer it is given,
once. -/
theorem calls_linkOutputWrapper (hpayload : (memory.pbuf p).payload = some payload)
    (hstate : (memory.netif n).state = some a) :
    (linkOutputWrapper (some linkOutput) memory (some n) (some p) w).2.lwip.calls =
      w.lwip.calls ++ [(memory.object a, memory.segment (memory.pbuf p))] := by
  have hsegment : memory.segment (memory.pbuf p) =
      memory.bytes payload (memory.pbuf p).len.toNat := by
    rw [Memory.segment, hpayload]
  rw [hsegment, linkOutputWrapper, Py.contents_some, Py.bind_ok (Py.pure_apply p w), hpayload,
    Py.contents_some, Py.bind_ok (Py.pure_apply payload w), Py.contents_some,
    Py.bind_ok (Py.pure_apply n w), hstate, Py.contents_some, Py.bind_ok (Py.pure_apply a w)]
  set data := memory.bytes payload (memory.pbuf p).len.toNat
  -- what the callable raises comes after the call
  obtain ⟨⟨out, outside⟩, hcall⟩ : ∃ r, linkOutput (memory.object a) data w.lwip.outside = r :=
    ⟨_, rfl⟩
  have hrun : callLinkOutput linkOutput (memory.object a) data w = (out,
      { w with lwip := ⟨outside, w.lwip.calls ++ [(memory.object a, data)]⟩ }) := by
    simp [callLinkOutput, hcall]
  cases out with
  | ok u => rw [Py.bind_ok hrun, Py.pure_apply]
  | error e => rw [Py.bind_error hrun]

/-- **The frame is transmitted whole**: the user's callable is called once,
with the interface and the `tot_len` bytes of the chain, and every receiver
that is given these places them whole. -/
def TransmitsWhole (linkOutput : LinkOutput τ) (memory : NetMemory) (n a p : ℕ)
    (chain : List PBuf) (w : World (Sent τ)) : Prop :=
  ((linkOutputWrapper (some linkOutput) memory (some n) (some p) w).2.lwip.calls =
      w.lwip.calls ++ [(memory.object a, memory.content chain)] ∧
    (memory.content chain).length = (memory.pbuf p).totLen.toNat) ∧
  ∀ (σ : Type) (lwip : Lwip σ), lwip.PlacesData → ∀ input w,
    PlacesWhole lwip input (memory.content chain) w

/-- **A frame is transmitted whole exactly if its first buffer holds all of
it.** -/
theorem transmits_whole_iff (h : Datagram memory.toMemory p chain)
    (hstate : (memory.netif n).state = some a) :
    TransmitsWhole linkOutput memory n a p chain w ↔
      (memory.pbuf p).len = (memory.pbuf p).totLen := by
  obtain ⟨payload, hpayload⟩ := h.exists_payload
  have hfits : (memory.content chain).length < 2 ^ 16 := by
    rw [h.content_length]
    exact UInt16.toNat_lt _
  rw [← h.head_eq_content_iff, TransmitsWhole, calls_linkOutputWrapper hpayload hstate]
  constructor
  · rintro ⟨⟨hcalls, -⟩, -⟩
    simpa using hcalls
  · intro heq
    rw [heq]
    exact ⟨⟨rfl, h.content_length⟩, fun σ lwip hl input w => placesWhole hl input hfits w⟩

end Output

end NetIf

/-! ## A frame in one buffer, and in two -/

/-- The interface 1, whose `state` leads to the object 7. -/
def stateOf (m : Memory) : NetMemory := { m with netif := fun _ => ⟨some 3⟩, object := fun _ => 7 }

/-- A callable that returns. -/
def silent : LinkOutput Unit := fun _ _ s => (.ok (), s)

theorem transmits_whole_oneBuffer :
    NetIf.TransmitsWhole silent (stateOf oneBuffer) 1 3 16 [⟨none, some 100, 3, 3⟩]
      ⟨⟨(), []⟩, []⟩ := by
  have h : Datagram (stateOf oneBuffer).toMemory 16 [⟨none, some 100, 3, 3⟩] :=
    ⟨.cons .nil, by decide, rfl⟩
  exact (NetIf.transmits_whole_iff h rfl).mpr rfl

/-- **A chained frame is cut off** after its first buffer. -/
theorem frame_cut_off :
    Datagram (stateOf twoBuffers).toMemory 16
        [⟨some 32, some 100, 3, 2⟩, ⟨none, some 200, 1, 1⟩] ∧
      (NetIf.linkOutputWrapper (some silent) (stateOf twoBuffers) (some 1) (some 16)
        ⟨⟨(), []⟩, []⟩).2.lwip.calls = [(7, [100, 101])] ∧
      ¬ NetIf.TransmitsWhole silent (stateOf twoBuffers) 1 3 16
        [⟨some 32, some 100, 3, 2⟩, ⟨none, some 200, 1, 1⟩] ⟨⟨(), []⟩, []⟩ := by
  refine ⟨⟨.cons (.cons .nil), by decide, rfl⟩, by decide, ?_⟩
  rintro ⟨⟨hcalls, -⟩, -⟩
  revert hcalls
  decide

end PyLwip
