import Mathlib.Data.List.Basic
import Mathlib.Data.Int.Notation
import Mathlib.Data.Nat.Notation

/-!
# lwIP as the Python code calls it

lwIP is a library behind `ctypes`, and its source is not here: `Lwip` is
whatever its functions do to a state `σ` of its own, of which the Python code
can read the memory. `Py` is a Python computation that calls it: it changes
lwIP's state, it leaves a record of its calls with what they returned, and it
returns or raises. Whatever it has done stays done where it raises.
-/

namespace PyLwip

/-! ## Data -/

/-- `PBuf`, of which the code reads these fields. A NULL pointer is `none`. -/
structure PBuf where
  next : Option ℕ
  payload : Option ℕ
  totLen : UInt16
  len : UInt16
deriving DecidableEq

/-- What the pointers of lwIP point to. -/
structure Memory where
  pbuf : ℕ → PBuf
  byte : ℕ → UInt8

/-- `IpV4Addr`. -/
structure IpV4Addr where
  addr : UInt32
deriving DecidableEq

/-- The bytes from `p` on, as `bytearray` copies them. -/
def Memory.bytes (m : Memory) (p n : ℕ) : List UInt8 :=
  (List.range n).map fun i => m.byte (p + i)

@[simp] theorem Memory.bytes_length (m : Memory) (p n : ℕ) : (m.bytes p n).length = n := by
  simp [bytes]

/-- Data as the caller has it: the bytes of a `bytes`, of a `bytearray` or of
a ctypes array of `c_uint8`. -/
inductive Data
  | bytes (content : List UInt8)
  | bytearray (content : List UInt8)
  | array (content : List UInt8)
deriving DecidableEq

namespace Data

/-- The bytes. -/
def content : Data → List UInt8
  | bytes content | bytearray content | array content => content

/-- What a parameter of type `c_void_p` makes of the data: it points to the
bytes of a `bytes` or an array, and it takes no `bytearray`. -/
def asVoidPointer : Data → Option (List UInt8)
  | bytes content | array content => some content
  | bytearray _ => none

theorem content_of_asVoidPointer {data : Data} {content : List UInt8}
    (h : data.asVoidPointer = some content) : data.content = content := by
  cases data with
  | bytes _ => exact Option.some.inj h
  | array _ => exact Option.some.inj h
  | bytearray _ => cases h

end Data

/-! ## Calls -/

/-- The functions of lwIP that the buffers and the sockets use. -/
structure Lwip (σ : Type) where
  memory : σ → Memory
  pbufAlloc (layer : ℤ) (length : UInt16) (type : ℤ) : σ → Option ℕ × σ
  pbufTake (buf : Option ℕ) (data : List UInt8) (len : UInt16) : σ → Int8 × σ
  pbufFree (p : ℕ) : σ → UInt8 × σ
  udpSendto (pcb : Option ℕ) (p : ℕ) (dst : IpV4Addr) (port : UInt16) : σ → Int8 × σ

/-- A call over the border, with what it returned. `udpRecv` is a call of
lwIP's, which hands a buffer to the socket; `rxCallback` is the call of the
user's callback. -/
inductive Call
  | pbufAlloc (layer : ℤ) (length : UInt16) (type : ℤ) (ret : Option ℕ)
  | pbufTake (buf : Option ℕ) (data : List UInt8) (len : UInt16) (ret : Int8)
  | pbufFree (p : ℕ) (ret : UInt8)
  | udpSendto (pcb : Option ℕ) (p : ℕ) (dst : IpV4Addr) (port : UInt16) (ret : Int8)
  | udpRecv (p : ℕ)
  | rxCallback (data : List UInt8) (src : IpV4Addr) (port : UInt16)
deriving DecidableEq

/-- What the code of the stack raises. `argumentError` is that of `ctypes`,
`user` any exception of the user's callback. -/
inductive StackError
  | valueError
  | typeError
  | argumentError
  | allocationError
  | stackException (code : Int8)
  | user (tag : ℕ)
deriving DecidableEq

/-- lwIP's state and the calls so far. -/
structure World (σ : Type) where
  lwip : σ
  calls : List Call

/-- A Python computation. -/
def Py (σ α : Type) : Type := World σ → Except StackError α × World σ

namespace Py

variable {σ α β : Type}

instance : Monad (Py σ) where
  pure a w := (.ok a, w)
  bind x f w :=
    match x w with
    | (.ok a, w') => f a w'
    | (.error e, w') => (.error e, w')

/-- `raise`. -/
def raise (e : StackError) : Py σ α := fun w => (.error e, w)

/-- `.contents` of a pointer, which NULL does not have. -/
def contents : Option α → Py σ α
  | some a => pure a
  | none => raise .valueError

@[simp] theorem pure_apply (a : α) (w : World σ) : (pure a : Py σ α) w = (.ok a, w) := rfl

@[simp] theorem raise_apply (e : StackError) (w : World σ) :
    (raise e : Py σ α) w = (.error e, w) := rfl

@[simp] theorem contents_some (a : α) : (contents (some a) : Py σ α) = pure a := rfl

@[simp] theorem contents_none : (contents none : Py σ α) = raise .valueError := rfl

theorem bind_ok {x : Py σ α} {f : α → Py σ β} {w w' : World σ} {a : α}
    (h : x w = (.ok a, w')) : (x >>= f) w = f a w' := by
  show (match x w with | (.ok a, w') => f a w' | (.error e, w') => (.error e, w')) = _
  rw [h]

theorem bind_error {x : Py σ α} {f : α → Py σ β} {w w' : World σ} {e : StackError}
    (h : x w = (.error e, w')) : (x >>= f) w = (.error e, w') := by
  show (match x w with | (.ok a, w') => f a w' | (.error e, w') => (.error e, w')) = _
  rw [h]

/-- **A computation that returns** is one both of whose parts do. -/
theorem of_bind_ok {x : Py σ α} {f : α → Py σ β} {w w' : World σ} {b : β}
    (h : (x >>= f) w = (.ok b, w')) : ∃ a w₁, x w = (.ok a, w₁) ∧ f a w₁ = (.ok b, w') := by
  obtain ⟨⟨out, w₁⟩, hx⟩ : ∃ r, x w = r := ⟨_, rfl⟩
  cases out with
  | ok a => exact ⟨a, w₁, hx, by rwa [bind_ok hx] at h⟩
  | error e =>
    rw [bind_error hx] at h
    cases h

/-- A computation that raises raises in one of its parts. -/
theorem of_bind_error {x : Py σ α} {f : α → Py σ β} {w w' : World σ} {e : StackError}
    (h : (x >>= f) w = (.error e, w')) :
    x w = (.error e, w') ∨ ∃ a w₁, x w = (.ok a, w₁) ∧ f a w₁ = (.error e, w') := by
  obtain ⟨⟨out, w₁⟩, hx⟩ : ∃ r, x w = r := ⟨_, rfl⟩
  cases out with
  | ok a => exact .inr ⟨a, w₁, hx, by rwa [bind_ok hx] at h⟩
  | error e' =>
    rw [bind_error hx] at h
    cases h
    exact .inl hx

theorem of_contents_ok {p : Option α} {a : α} {w w' : World σ}
    (h : (contents p : Py σ α) w = (.ok a, w')) : p = some a ∧ w' = w := by
  cases p <;> cases h
  exact ⟨rfl, rfl⟩

theorem of_contents_error {p : Option α} {e : StackError} {w w' : World σ}
    (h : (contents p : Py σ α) w = (.error e, w')) : p = none ∧ e = .valueError ∧ w' = w := by
  cases p <;> cases h
  exact ⟨rfl, rfl, rfl⟩

end Py

namespace Lwip

variable {σ : Type} (lwip : Lwip σ)

/-- The memory as it is now. -/
def read : Py σ Memory := fun w => (.ok (lwip.memory w.lwip), w)

/-- `_pbuf_alloc`. -/
def alloc (layer : ℤ) (length : UInt16) (type : ℤ) : Py σ (Option ℕ) := fun w =>
  let r := lwip.pbufAlloc layer length type w.lwip
  (.ok r.1, ⟨r.2, w.calls ++ [.pbufAlloc layer length type r.1]⟩)

/-- `_pbuf_take`. Where `c_void_p` does not take the data, lwIP is not
called. -/
def take (buf : Option ℕ) (data : Data) (len : UInt16) : Py σ Int8 := fun w =>
  match data.asVoidPointer with
  | none => (.error .argumentError, w)
  | some content =>
    let r := lwip.pbufTake buf content len w.lwip
    (.ok r.1, ⟨r.2, w.calls ++ [.pbufTake buf content len r.1]⟩)

/-- `_pbuf_free`. -/
def free (p : ℕ) : Py σ UInt8 := fun w =>
  let r := lwip.pbufFree p w.lwip
  (.ok r.1, ⟨r.2, w.calls ++ [.pbufFree p r.1]⟩)

/-- `_udp_send_to`. -/
def sendto (pcb : Option ℕ) (p : ℕ) (dst : IpV4Addr) (port : UInt16) : Py σ Int8 := fun w =>
  let r := lwip.udpSendto pcb p dst port w.lwip
  (.ok r.1, ⟨r.2, w.calls ++ [.udpSendto pcb p dst port r.1]⟩)

variable {lwip} {w w' : World σ}

/-- What a call of `_pbuf_alloc` says of lwIP. -/
theorem alloc_ok {layer type : ℤ} {length : UInt16} {ret : Option ℕ}
    (h : lwip.alloc layer length type w = (.ok ret, w')) :
    lwip.pbufAlloc layer length type w.lwip = (ret, w'.lwip) ∧
      w'.calls = w.calls ++ [.pbufAlloc layer length type ret] := by
  cases h
  exact ⟨rfl, rfl⟩

/-- What a call of `_pbuf_take` says of lwIP. -/
theorem take_ok {buf : Option ℕ} {data : Data} {len : UInt16} {ret : Int8}
    (h : lwip.take buf data len w = (.ok ret, w')) :
    lwip.pbufTake buf data.content len w.lwip = (ret, w'.lwip) ∧
      w'.calls = w.calls ++ [.pbufTake buf data.content len ret] := by
  unfold take at h
  split at h
  · cases h
  · next hcontent =>
    rw [Data.content_of_asVoidPointer hcontent]
    cases h
    exact ⟨rfl, rfl⟩

/-- The one way in which it raises. -/
theorem take_error {buf : Option ℕ} {data : Data} {len : UInt16} {e : StackError}
    (h : lwip.take buf data len w = (.error e, w')) :
    data.asVoidPointer = none ∧ e = .argumentError ∧ w' = w := by
  unfold take at h
  split at h
  · next hrefused =>
    cases h
    exact ⟨hrefused, rfl, rfl⟩
  · cases h

/-- What a call of `_udp_send_to` says of lwIP. -/
theorem sendto_ok {pcb : Option ℕ} {p : ℕ} {dst : IpV4Addr} {port : UInt16} {ret : Int8}
    (h : lwip.sendto pcb p dst port w = (.ok ret, w')) :
    lwip.udpSendto pcb p dst port w.lwip = (ret, w'.lwip) ∧
      w'.calls = w.calls ++ [.udpSendto pcb p dst port ret] := by
  cases h
  exact ⟨rfl, rfl⟩

end Lwip

end PyLwip
