import PyLwip.Scheduler.Acts
import Mathlib.Data.List.FinRange

/-!
# The emulated network

A network is a bus and its hosts, each with an executor of its own, and the
interfaces that connect them. `Net` is the state of all of them together:
the executors, the lists of filters and observers, where the bus stands in
the body of `_broadcast`, and where the caller stands in `start` and `stop`.

A step is one move at one clock reading: a call from outside, a move of one
of the workers, the next call that `_broadcast` makes, or the next line of
`EthernetNetwork.start` or `stop`. As in a single executor, whose turn it is
and what filters, observers and actions answer is the label's choice.
-/

namespace PyLwip

/-! ## The objects of the network's tasks -/

/-- What the tasks are made of: the bound methods that are scheduled, the
functions handed to `execute`, interfaces, hosts, and the bytes of frames. -/
inductive Obj
  | broadcast
  | inputData (netif : ℕ)
  | setUpInterfaces (host : ℕ)
  | user (action : Callable)
  | netif (id : ℕ)
  | host (id : ℕ)
  | bytes (data : List UInt8)
deriving DecidableEq

/-- `<` of two byte strings. -/
def bytesLt : List UInt8 → List UInt8 → Bool
  | _, [] => false
  | [], _ :: _ => true
  | a :: as, b :: bs => if a = b then bytesLt as bs else decide (a < b)

/-- Bound methods are equal when object and function are, interfaces and
hosts when they are the same object. Of all these only bytes have an
order. -/
instance : RichCompare Obj where
  eq a b := .ok (decide (a = b))
  lt
    | .bytes a, .bytes b => .ok (bytesLt a b)
    | _, _ => .error .typeError

/-- What a call of `broadcast` is given. -/
structure Frame where
  sender : ℕ
  data : List UInt8
deriving DecidableEq

/-- The arguments that `broadcast` schedules `_broadcast` with. -/
def Frame.args (f : Frame) : List Obj := [.netif f.sender, .bytes f.data]

variable {T V : Type} {n : ℕ}

/-- The frame that a task of the bus dispatches. -/
def Task.frame? (t : Task T Obj) : Option Frame :=
  match t.args with
  | [.netif s, .bytes d] => some ⟨s, d⟩
  | _ => none

theorem Task.frame?_of_args {t : Task T Obj} {f : Frame} (h : t.args = f.args) :
    t.frame? = some f := by
  simp [frame?, h, Frame.args]

/-! ## The state -/

/-- The bus, and the hosts in the order they were added. -/
inductive Component (n : ℕ)
  | bus
  | host (i : Fin n)
deriving DecidableEq

/-- The order in which `start` and `stop` go through them. -/
def components (n : ℕ) : List (Component n) := .bus :: (List.finRange n).map .host

theorem mem_components (c : Component n) : c ∈ components n := by
  cases c <;> simp [components]

/-- The interfaces on the bus with their hosts. `add_host` makes a new
interface for each, so that none is there twice. -/
structure Topology (n : ℕ) where
  interfaces : List (ℕ × Fin n)
  nodup : (interfaces.map Prod.fst).Nodup

/-- Where `_broadcast` stands: before the next filter, the next observer or
the next interface, or at its end. The lists are walked by index, as a list
iterator does, so that what is appended meanwhile is seen. -/
inductive Dispatch
  | filtering (i : ℕ)
  | observing (shouldForward : Bool) (j : ℕ)
  | delivering (k : ℕ)
  | returned
  | raised (error : PyError)
deriving DecidableEq

/-- The end of `_broadcast` that an outcome stands for. -/
def Dispatch.ends : Dispatch → Outcome V → Bool
  | .returned, .result _ => true
  | .raised x, .exception y => decide (x = y)
  | _, _ => false

/-- Where a call of `on_incoming_data` for the interface with the index `k`
leaves `_broadcast`. -/
def Dispatch.afterCall (k : ℕ) : Event T Obj V → Dispatch
  | .rejected => .raised .stopped
  | .scheduleRaised _ x => .raised x
  | _ => .delivering (k + 1)

/-- Where the caller of `EthernetNetwork.start` and `stop` stands, with the
components that are left. -/
inductive Control (n : ℕ)
  | built
  | starting (todo : List (Component n))
  | started
  | stopping (todo : List (Component n))
  /-- In `join` of the thread of `c`. -/
  | joining (c : Component n) (todo : List (Component n))
  | stopped
deriving DecidableEq

/-- The network. `exposed` are the futures that `Host.execute` returned; no
other call hands out the future of its task. Every executor reads the same
clock; `now` is the reading at which the last step began. -/
structure Net (T V : Type) (n : ℕ) where
  sys : Component n → Sys T Obj V
  filters : ℕ
  observers : ℕ
  dispatch : Dispatch
  exposed : Fin n → List ℕ
  control : Control n
  now : T

/-- What an observer sees of a run of the network. -/
inductive NetEvent (T V : Type) (n : ℕ)
  | startCalled
  | startReturned
  | stopCalled
  | stopReturned
  | observerAdded
  /-- An event of the executor of `c`. -/
  | component (c : Component n) (e : Event T Obj V)
  /-- The filter `i` was asked about the frame of `t`. -/
  | filtered (t : Task T Obj) (i : ℕ) (accepted : Bool)
  /-- The observer `j` was passed the frame of `t`. -/
  | observed (t : Task T Obj) (j : ℕ) (wasForwarded : Bool)
  /-- `on_incoming_data` was called for the frame of `t` and an interface of
  the host `i`; `e` is what became of the call. -/
  | delivered (t : Task T Obj) (netif : ℕ) (i : Fin n) (e : Event T Obj V)
  /-- A filter or an observer raised. -/
  | dispatchRaised (t : Task T Obj) (error : PyError)
deriving DecidableEq

/-- A move. The first eight are calls from outside, from any thread. Hosts and
the bus are started and stopped by the network's `start` and `stop` alone. -/
inductive Move (T V : Type) (n : ℕ)
  | broadcast (f : Frame)
  | setUpInterfaces (i : Fin n)
  | onIncomingData (i : Fin n) (netif : ℕ) (data : List UInt8)
  | execute (i : Fin n) (action : Callable) (delay : T)
  | cancel (i : Fin n) (future : ℕ)
  | addFilter
  | addObserver
  /-- The next line of `start` or `stop`. -/
  | control
  /-- A move of the worker of `c`. -/
  | work (c : Component n) (a : Act T Obj V)
  /-- The next call of `_broadcast`, and what it answers if it is one of a
  filter or an observer. -/
  | dispatch (answer : Except PyError Bool)

/-! ## The steps -/

namespace Net

/-- A network before `start`. -/
def new (now : T) : Net T V n where
  sys _ := Sys.new now
  filters := 0
  observers := 0
  dispatch := .filtering 0
  exposed _ := []
  control := .built
  now := now

variable [AddCommGroup T] [LinearOrder T]

/-- A move of one executor. -/
def tell (timeoutMax r : T) (c : Component n) (a : Act T Obj V) (N : Net T V n) :
    Option (Net T V n × Option (NetEvent T V n)) :=
  (Sys.step timeoutMax (N.sys c) (r, a)).map fun x =>
    ({ N with sys := Function.update N.sys c x.1 }, x.2.map (.component c))

/-- `execute` hands out the future of an accepted task. -/
def expose (i : Fin n) (ev : Option (NetEvent T V n)) (N : Net T V n) : Net T V n :=
  match ev with
  | some (.component _ (.accepted _ t)) =>
    { N with exposed := Function.update N.exposed i (t.future :: N.exposed i) }
  | _ => N

/-- The next line of `EthernetNetwork.start` or `stop`. A thread that has
ended is joined at once, and one that has not is waited for. -/
def controlStep (timeoutMax r : T) (N : Net T V n) :
    Option (Net T V n × Option (NetEvent T V n)) :=
  match N.control with
  | .built => some ({ N with control := .starting (components n) }, some .startCalled)
  | .starting (c :: todo) =>
    (N.tell timeoutMax r c .start).map fun x => ({ x.1 with control := .starting todo }, x.2)
  | .starting [] => some ({ N with control := .started }, some .startReturned)
  | .started => some ({ N with control := .stopping (components n) }, some .stopCalled)
  | .stopping (c :: todo) =>
    (N.tell timeoutMax r c (.stop true)).map fun x => ({ x.1 with control := .joining c todo }, x.2)
  | .joining c todo =>
    if (N.sys c).worker.ended then some ({ N with control := .stopping todo }, none) else none
  | .stopping [] => some ({ N with control := .stopped }, some .stopReturned)
  | .stopped => none

/-- The next interface: the sender is passed over, and for any other one
`on_incoming_data` of its host is called, which schedules
`interface.input_data`. -/
def deliver (timeoutMax r : T) (t : Task T Obj) (f : Frame) (k : ℕ) (interface : ℕ × Fin n)
    (N : Net T V n) : Option (Net T V n × Option (NetEvent T V n)) :=
  if interface.1 ≠ f.sender then
    match Sys.step timeoutMax (N.sys (.host interface.2))
      (r, .schedule 0 0 (.inputData interface.1) [.bytes f.data] []) with
    | some (s, some e) =>
      some ({ N with
        sys := Function.update N.sys (.host interface.2) s
        dispatch := .afterCall k e },
        some (.delivered t interface.1 interface.2 e))
    | _ => none
  else some ({ N with dispatch := .delivering (k + 1) }, none)

/-- The next call of `_broadcast` for the task `t` with the frame `f`. -/
def dispatchStep (top : Topology n) (timeoutMax r : T) (answer : Except PyError Bool)
    (t : Task T Obj) (f : Frame) (N : Net T V n) :
    Option (Net T V n × Option (NetEvent T V n)) :=
  match N.dispatch with
  | .filtering i =>
    if i < N.filters then
      match answer with
      | .ok true => some ({ N with dispatch := .filtering (i + 1) }, some (.filtered t i true))
      | .ok false => some ({ N with dispatch := .observing false 0 }, some (.filtered t i false))
      | .error x => some ({ N with dispatch := .raised x }, some (.dispatchRaised t x))
    else some ({ N with dispatch := .observing true 0 }, none)
  | .observing b j =>
    if j < N.observers then
      match answer with
      | .ok _ => some ({ N with dispatch := .observing b (j + 1) }, some (.observed t j b))
      | .error x => some ({ N with dispatch := .raised x }, some (.dispatchRaised t x))
    else some ({ N with dispatch := if b then .delivering 0 else .returned }, none)
  | .delivering k =>
    match top.interfaces[k]? with
    | some interface => N.deliver timeoutMax r t f k interface
    | none => some ({ N with dispatch := .returned }, none)
  | .returned | .raised _ => none

/-- A worker's move. The bus begins `_broadcast` when it takes a task, and
ends the action as `_broadcast` ended. -/
def work (timeoutMax r : T) (c : Component n) (a : Act T Obj V) (N : Net T V n) :
    Option (Net T V n × Option (NetEvent T V n)) :=
  match c, a with
  | .bus, .take => N.tell timeoutMax r .bus .take |>.map fun x =>
      ({ x.1 with dispatch := .filtering 0 }, x.2)
  | .bus, .finish o =>
    if N.dispatch.ends o then N.tell timeoutMax r .bus (.finish o) else none
  | c, a => if a.byWorker then N.tell timeoutMax r c a else none

/-- A move, `none` where it is not enabled. `IMMEDIATE` and `TOP_PRIO` are
zero, and so are the delay and the priority that `broadcast` passes. -/
def act (top : Topology n) (timeoutMax r : T) (N : Net T V n) :
    Move T V n → Option (Net T V n × Option (NetEvent T V n))
  | .broadcast f => N.tell timeoutMax r .bus (.schedule 0 0 .broadcast f.args [])
  | .setUpInterfaces i =>
    N.tell timeoutMax r (.host i) (.schedule 0 0 (.setUpInterfaces i) [] [])
  | .onIncomingData i netif data =>
    N.tell timeoutMax r (.host i) (.schedule 0 0 (.inputData netif) [.bytes data] [])
  | .execute i action delay =>
    (N.tell timeoutMax r (.host i) (.schedule delay 0 (.user action) [.host i] [])).map fun x =>
      (x.1.expose i x.2, x.2)
  | .cancel i future =>
    if future ∈ N.exposed i then N.tell timeoutMax r (.host i) (.cancel future) else none
  | .addFilter => some ({ N with filters := N.filters + 1 }, none)
  | .addObserver => some ({ N with observers := N.observers + 1 }, some .observerAdded)
  | .control => N.controlStep timeoutMax r
  | .work c a => N.work timeoutMax r c a
  | .dispatch answer =>
    match (N.sys .bus).worker with
    | .executing t _ => t.frame?.bind fun f => N.dispatchStep top timeoutMax r answer t f
    | _ => none

/-- **A step**: a move at a clock reading, which is never less than the
last. -/
def step (top : Topology n) (timeoutMax : T) (N : Net T V n) (l : T × Move T V n) :
    Option (Net T V n × Option (NetEvent T V n)) :=
  if N.now ≤ l.1 then act top timeoutMax l.1 { N with now := l.1 } l.2 else none

end Net

end PyLwip
