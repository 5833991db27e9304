import PyLwip.Stack.Datagram

/-!
# What a buffer holds

`Allocator` asks lwIP for a buffer of the length of some data and has lwIP
copy the data into it. On the way the length passes a default that takes an
explicit 0 for no length, and twice a C parameter of 16 bits. `Placeable`
says of which data and which size nothing is lost on that way.
-/

namespace PyLwip

variable {σ : Type}

namespace Allocator

variable (lwip : Lwip σ)

/-- `allocate_raw_pbuf`. -/
def allocateRawPbuf (size : ℕ) : Py σ ℕ := do
  let newPbuf ← lwip.alloc 1 (UInt16.ofNat size) 386
  Py.contents newPbuf

/-- `allocate_raw_pbuf_from_data`. -/
def allocateRawPbufFromData (dataToPlace : Data) (size : Option ℕ) : Py σ ℕ := do
  let length := sizeOrLength size dataToPlace
  let newPbuf ← allocateRawPbuf lwip length
  let _ ← lwip.take (some newPbuf) dataToPlace (UInt16.ofNat length)
  pure newPbuf

end Allocator

/-! ## What lwIP does with a buffer -/

/-- **What lwIP promises of buffers**: a buffer that `pbuf_alloc` returns has
the length asked for, and `pbuf_take` copies what fits into one. -/
structure Lwip.PlacesData (lwip : Lwip σ) : Prop where
  alloc : ∀ layer length type s p s', lwip.pbufAlloc layer length type s = (some p, s') →
    ∃ chain, Datagram (lwip.memory s') p chain ∧ ((lwip.memory s').pbuf p).totLen = length
  take : ∀ s p chain data length taken s', Datagram (lwip.memory s) p chain →
    length ≤ ((lwip.memory s).pbuf p).totLen → length.toNat ≤ data.length →
    lwip.pbufTake (some p) data length s = (taken, s') →
    ∃ chain', Datagram (lwip.memory s') p chain' ∧
      ((lwip.memory s').pbuf p).totLen = ((lwip.memory s).pbuf p).totLen ∧
      ((lwip.memory s').content chain').take length.toNat = data.take length.toNat

/-- **The buffer holds the first `n` bytes of the data** and nothing else. -/
def Memory.Holds (m : Memory) (p : ℕ) (data : List UInt8) (n : ℕ) : Prop :=
  ∃ chain, Datagram m p chain ∧ (m.pbuf p).totLen.toNat = n ∧ m.content chain = data.take n

/-- The length asked for arrives: it fits 16 bits, and if it is an explicit 0
then so does the length of the data, as nothing. -/
def Placeable (data : List UInt8) (size : Option ℕ) : Prop :=
  size.getD data.length < 2 ^ 16 ∧ (size = some 0 → data.length % 2 ^ 16 = 0)

instance (data : List UInt8) (size : Option ℕ) : Decidable (Placeable data size) :=
  inferInstanceAs (Decidable (_ ∧ _))

namespace Allocator

theorem sizeOrLength_le {data : Data} {size : Option ℕ} (h : ∀ n ∈ size, n ≤ data.content.length) :
    sizeOrLength size data ≤ data.content.length := by
  unfold sizeOrLength
  split
  · next n => exact h _ rfl
  · exact le_rfl

/-- What arrives is what was asked for exactly if the data is placeable. -/
theorem sizeOrLength_mod_iff {data : Data} {size : Option ℕ} :
    sizeOrLength size data % 2 ^ 16 = size.getD data.content.length ↔
      Placeable data.content size := by
  unfold Placeable
  rcases size with - | - | n
  · simp [sizeOrLength]
  · simp [sizeOrLength]
  · simp [sizeOrLength]

end Allocator

section Placing

variable {lwip : Lwip σ} {data : Data} {size : Option ℕ}

/-- **What an allocation and a copy leave in the buffer**: as much of the data
as the 16 bits of its length say. -/
theorem Lwip.PlacesData.holds (hl : lwip.PlacesData) {layer type : ℤ} {length : UInt16}
    {s s₁ s₂ : σ} {p : ℕ} {content : List UInt8} {taken : Int8}
    (hlen : length.toNat ≤ content.length)
    (halloc : lwip.pbufAlloc layer length type s = (some p, s₁))
    (htake : lwip.pbufTake (some p) content length s₁ = (taken, s₂)) :
    (lwip.memory s₂).Holds p content length.toNat := by
  obtain ⟨chain, hchain, htot⟩ := hl.alloc _ _ _ _ _ _ halloc
  obtain ⟨chain', hchain', htot', hcontent⟩ :=
    hl.take _ _ _ _ _ _ _ hchain (htot ▸ le_refl length.toNat) hlen htake
  rw [htot] at htot'
  refine ⟨chain', hchain', by rw [htot'], ?_⟩
  -- the copy is as long as the buffer, so it is all of its content
  have hlength := hchain'.content_length
  rw [htot'] at hlength
  rwa [List.take_of_length_le hlength.le] at hcontent

/-- A buffer holds data up to one length only. -/
theorem Memory.Holds.length_eq {m : Memory} {p k n : ℕ} {content : List UInt8}
    (h : m.Holds p content k) (h' : m.Holds p content n) : k = n := by
  obtain ⟨_, _, hk, _⟩ := h
  obtain ⟨_, _, hn, _⟩ := h'
  omega

/-- What a buffer of the length that arrives holds. -/
theorem holds_iff_placeable {m : Memory} {p : ℕ}
    (h : m.Holds p data.content (UInt16.ofNat (Allocator.sizeOrLength size data)).toNat) :
    m.Holds p data.content (size.getD data.content.length) ↔ Placeable data.content size := by
  rw [← Allocator.sizeOrLength_mod_iff]
  -- 16 bits of the length arrive
  have hmod : (UInt16.ofNat (Allocator.sizeOrLength size data)).toNat =
      Allocator.sizeOrLength size data % 2 ^ 16 := rfl
  rw [hmod] at h
  constructor
  · exact fun h' => h.length_eq h'
  · intro heq
    rwa [heq] at h

variable {w w' : World σ} {p : ℕ}

/-- The length that arrives is no longer than the data. -/
theorem arriving_le (hsize : ∀ n ∈ size, n ≤ data.content.length) :
    (UInt16.ofNat (Allocator.sizeOrLength size data)).toNat ≤ data.content.length :=
  (Nat.mod_le _ _).trans (Allocator.sizeOrLength_le hsize)

/-- What `allocate_transport_pbuf_from_data` returns. -/
theorem holds_of_transport (hl : lwip.PlacesData) (hsize : ∀ n ∈ size, n ≤ data.content.length)
    (h : Allocator.allocateTransportPbufFromData lwip data size w = (.ok p, w')) :
    (lwip.memory w'.lwip).Holds p data.content
      (UInt16.ofNat (Allocator.sizeOrLength size data)).toNat := by
  unfold Allocator.allocateTransportPbufFromData at h
  obtain ⟨ret, w₁, halloc, h⟩ := Py.of_bind_ok h
  obtain ⟨taken, w₂, htake, h⟩ := Py.of_bind_ok h
  obtain ⟨rfl, rfl⟩ := Py.of_contents_ok h
  exact hl.holds (arriving_le hsize) (Lwip.alloc_ok halloc).1 (Lwip.take_ok htake).1

/-- What `allocate_raw_pbuf_from_data` returns. -/
theorem holds_of_raw (hl : lwip.PlacesData) (hsize : ∀ n ∈ size, n ≤ data.content.length)
    (h : Allocator.allocateRawPbufFromData lwip data size w = (.ok p, w')) :
    (lwip.memory w'.lwip).Holds p data.content
      (UInt16.ofNat (Allocator.sizeOrLength size data)).toNat := by
  unfold Allocator.allocateRawPbufFromData Allocator.allocateRawPbuf at h
  obtain ⟨newPbuf, w₂, hraw, h⟩ := Py.of_bind_ok h
  obtain ⟨ret, w₁, halloc, hraw⟩ := Py.of_bind_ok hraw
  obtain ⟨rfl, rfl⟩ := Py.of_contents_ok hraw
  obtain ⟨taken, w₃, htake, h⟩ := Py.of_bind_ok h
  cases h
  exact hl.holds (arriving_le hsize) (Lwip.alloc_ok halloc).1 (Lwip.take_ok htake).1

/-- The one way in which it raises for data that `c_void_p` takes. -/
theorem Allocator.error_of_raw {e : StackError} (hdata : data.asVoidPointer ≠ none)
    (h : Allocator.allocateRawPbufFromData lwip data size w = (.error e, w')) :
    e = .valueError := by
  unfold Allocator.allocateRawPbufFromData Allocator.allocateRawPbuf at h
  rcases Py.of_bind_error h with h | ⟨p, w₁, -, h⟩
  · rcases Py.of_bind_error h with h | ⟨ret, w₁, -, h⟩
    · cases h
    · exact (Py.of_contents_error h).2.1
  · rcases Py.of_bind_error h with h | ⟨taken, w₂, -, h⟩
    · exact absurd (Lwip.take_error h).1 hdata
    · cases h

/-- **`send_to` hands lwIP all of the data**: the buffer that its call of
`udp_sendto` is given holds the data when it is given. -/
def UdpSocket.HandsAll (lwip : Lwip σ) (socket : UdpSocket) (data : Data) (dst : IpV4Addr)
    (port : UInt16) (w : World σ) : Prop :=
  ∃ p w₁ ret, Allocator.allocateTransportPbufFromData lwip data none w = (.ok p, w₁) ∧
    (socket.sendTo lwip data dst port w).2.calls =
      w₁.calls ++ [.udpSendto socket.pcb p dst port ret] ∧
    (lwip.memory w₁.lwip).Holds p data.content data.content.length

/-- A send that returns has placed the data and passed the buffer on. -/
theorem UdpSocket.sendTo_ok {socket : UdpSocket} {dst : IpV4Addr} {port : UInt16}
    (h : socket.sendTo lwip data dst port w = (.ok (), w')) :
    ∃ p w₁ ret, Allocator.allocateTransportPbufFromData lwip data none w = (.ok p, w₁) ∧
      w'.calls = w₁.calls ++ [.udpSendto socket.pcb p dst port ret] := by
  unfold UdpSocket.sendTo at h
  obtain ⟨p, w₁, hplace, h⟩ := Py.of_bind_ok h
  rw [UdpSocket.truthy, if_pos rfl] at h
  obtain ⟨ret, w₂, hsend, h⟩ := Py.of_bind_ok h
  refine ⟨p, w₁, ret, hplace, ?_⟩
  split at h
  · cases h
  · cases h
    exact (Lwip.sendto_ok hsend).2

/-- **Buffers hold exactly the data if and only if it is placeable**: a buffer
that one of the two allocations returns, of a size that the data has, holds
the bytes asked for; and a send that returns handed all of the data to lwIP
exactly if its length fits 16 bits. -/
theorem buffers_hold_data_iff (hl : lwip.PlacesData) (hsize : ∀ n ∈ size, n ≤ data.content.length) :
    (∀ p w w', Allocator.allocateTransportPbufFromData lwip data size w = (.ok p, w') →
      ((lwip.memory w'.lwip).Holds p data.content (size.getD data.content.length) ↔
        Placeable data.content size)) ∧
    (∀ p w w', Allocator.allocateRawPbufFromData lwip data size w = (.ok p, w') →
      ((lwip.memory w'.lwip).Holds p data.content (size.getD data.content.length) ↔
        Placeable data.content size)) ∧
    ∀ socket dst port w w', UdpSocket.sendTo lwip socket data dst port w = (.ok (), w') →
      (socket.HandsAll lwip data dst port w ↔ data.content.length < 2 ^ 16) := by
  refine ⟨fun p w w' h => holds_iff_placeable (holds_of_transport hl hsize h),
    fun p w w' h => holds_iff_placeable (holds_of_raw hl hsize h), ?_⟩
  intro socket dst port w w' h
  have hnone : ∀ n ∈ (none : Option ℕ), n ≤ data.content.length := by simp
  obtain ⟨p, w₁, ret, hplace, hcalls⟩ := UdpSocket.sendTo_ok h
  have hiff := holds_iff_placeable (holds_of_transport hl hnone hplace)
  have hplaceable : Placeable data.content none ↔ data.content.length < 2 ^ 16 := by
    simp [Placeable]
  rw [Option.getD_none, hplaceable] at hiff
  rw [← hiff]
  constructor
  · rintro ⟨p', w₁', -, hplace', -, hholds⟩
    obtain ⟨hp, rfl⟩ := Prod.mk.inj (hplace'.symm.trans hplace)
    obtain rfl := Except.ok.inj hp
    exact hholds
  · exact fun hholds => ⟨p, w₁, ret, hplace, by rw [h, hcalls], hholds⟩

end Placing

/-! ## One buffer of lwIP's -/

/-- The buffer at 16: its length, and its bytes from 100 on. -/
structure Slot where
  length : UInt16
  data : List UInt8

/-- A library with one buffer. -/
def slotLwip : Lwip Slot where
  memory s := ⟨fun _ => ⟨none, some 100, s.length, s.length⟩, fun a => s.data.getD (a - 100) 0⟩
  pbufAlloc _ n _ s := (some 16, ⟨n, s.data⟩)
  pbufTake _ data n s :=
    if n ≤ s.length then (0, ⟨s.length, data.take n.toNat ++ s.data.drop n.toNat⟩) else (-16, s)
  pbufFree _ s := (1, s)
  udpSendto _ _ _ _ s := (0, s)

theorem slotLwip_datagram (s : Slot) (p : ℕ) :
    Datagram (slotLwip.memory s) p [⟨none, some 100, s.length, s.length⟩] :=
  ⟨.cons .nil, by simp, by simp [slotLwip]⟩

/-- It keeps what lwIP promises. -/
theorem slotLwip_placesData : slotLwip.PlacesData where
  alloc _ length _ s p s' h := by
    cases h
    exact ⟨_, slotLwip_datagram _ _, rfl⟩
  take s p chain data length taken s' _ hle hlen h := by
    have hfits : length ≤ s.length := hle
    rw [show slotLwip.pbufTake (some p) data length s =
      (0, ⟨s.length, data.take length.toNat ++ s.data.drop length.toNat⟩) from if_pos hfits] at h
    cases h
    refine ⟨_, slotLwip_datagram _ _, rfl, ?_⟩
    have hfits' : length.toNat ≤ s.length.toNat := hfits
    refine List.ext_getElem (by simp [slotLwip, Memory.content, Memory.segment]; omega) ?_
    intro i hi hi'
    have hlt : i < length.toNat ∧ i < data.length := by simpa using hi'
    simp [slotLwip, Memory.content, Memory.segment, Memory.bytes, List.getElem?_append_left, hlt]

theorem buffers_hold_data_slot :
    ∃ w', Allocator.allocateTransportPbufFromData slotLwip (.bytes [1, 2, 3]) (some 2)
      ⟨⟨0, []⟩, []⟩ =
      (.ok 16, w') ∧ (slotLwip.memory w'.lwip).Holds 16 [1, 2, 3] 2 := by
  have hsize : ∀ n ∈ some 2, n ≤ (Data.bytes [1, 2, 3]).content.length := by
    simp [Data.content]
  refine ⟨_, rfl, ?_⟩
  exact ((buffers_hold_data_iff slotLwip_placesData hsize).1 _ _ _ rfl).mpr (by decide)

/-- **An explicit 0 is taken for no length**: no byte of the data is asked
for, and all of it is in the buffer. -/
theorem size_zero_ignored :
    ∃ w', Allocator.allocateTransportPbufFromData slotLwip (.bytes [1, 2]) (some 0)
      ⟨⟨0, []⟩, []⟩ =
        (.ok 16, w') ∧
      ((slotLwip.memory w'.lwip).pbuf 16).totLen = 2 ∧
      ¬ (slotLwip.memory w'.lwip).Holds 16 [1, 2] 0 := by
  refine ⟨_, rfl, rfl, ?_⟩
  rintro ⟨chain, -, htot, -⟩
  cases htot

end PyLwip
