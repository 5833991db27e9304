import PyLwip.Common.Run
import Mathlib.Data.List.Basic
import Mathlib.Data.Nat.Notation

/-!
# What a bus calls

The bus holds three lists of callables of its users: filters, observers, and
the callbacks of the interfaces. What a callable does is arbitrary: it
answers or raises, and it changes a state outside of the bus, on which the
next answer may depend. The lists grow between the dispatches, which the
bus's own thread executes one after the other.

A trace tells of every dispatch which callables it called, each by its place
in its list. `ExactDispatch` says what they are, and what is delivered to an
interface over a run follows from that.
-/

namespace PyLwip

open EventSystem

variable {σ I D X : Type}

/-! ## The bus -/

/-- A filter: is the frame to be forwarded? -/
abbrev BusFilter (σ I D X : Type) := I → D → σ → Except X Bool × σ

/-- An observer, which is told whether the frame was forwarded. -/
abbrev BusObserver (σ I D X : Type) := I → D → Bool → σ → Except X Unit × σ

/-- What is called with an interface and the data for it. -/
abbrev OnData (σ I D X : Type) := I → D → σ → Except X Unit × σ

/-- `EthernetBus`. -/
structure EthernetBus (σ I D X : Type) where
  interfaces : List (I × OnData σ I D X)
  observers : List (BusObserver σ I D X)
  filters : List (BusFilter σ I D X)

/-- A call of a callable of the bus, by its place in its list. -/
inductive BusCall (I D : Type)
  | filter (index : ℕ) (netifFrom : I) (data : D) (answer : Bool)
  | observer (index : ℕ) (netifFrom : I) (data : D) (wasForwarded : Bool)
  | callback (index : ℕ) (interface : I) (data : D)
deriving DecidableEq

/-- The state outside of the bus, and the calls of a dispatch so far. -/
structure Outside (σ I D : Type) where
  state : σ
  calls : List (BusCall I D)

namespace EthernetBus

/-- `EthernetBus(*interfaces)`. That it sets the output callbacks of the
interfaces changes nothing here. -/
def new (interfaces : List (I × OnData σ I D X)) : EthernetBus σ I D X := ⟨interfaces, [], []⟩

variable (bus : EthernetBus σ I D X)

/-- `add_interface`, but for the interface's own output callback. -/
def addInterface (interface : I) (onDataCallback : OnData σ I D X) : EthernetBus σ I D X :=
  { bus with interfaces := bus.interfaces ++ [(interface, onDataCallback)] }

/-- `add_observer`. -/
def addObserver (observerToAdd : BusObserver σ I D X) : EthernetBus σ I D X :=
  { bus with observers := bus.observers ++ [observerToAdd] }

/-- `add_filter`. -/
def addFilter (filterToAdd : BusFilter σ I D X) : EthernetBus σ I D X :=
  { bus with filters := bus.filters ++ [filterToAdd] }

/-- `all(map(…))` over the filters from the place `k` on, which asks none
after one that answered no. -/
def askFilters (netifFrom : I) (data : D) : ℕ → List (BusFilter σ I D X) → Outside σ I D →
    Except X Bool × Outside σ I D
  | _, [], w => (.ok true, w)
  | k, filter :: rest, w =>
    match filter netifFrom data w.state with
    | (.error x, s) => (.error x, { w with state := s })
    | (.ok answer, s) =>
      let w' : Outside σ I D := ⟨s, w.calls ++ [.filter k netifFrom data answer]⟩
      if answer then askFilters netifFrom data (k + 1) rest w' else (.ok false, w')

/-- The loop over the observers from the place `k` on. -/
def callObservers (netifFrom : I) (data : D) (shouldForward : Bool) : ℕ →
    List (BusObserver σ I D X) → Outside σ I D → Except X Unit × Outside σ I D
  | _, [], w => (.ok (), w)
  | k, observer :: rest, w =>
    let r := observer netifFrom data shouldForward w.state
    let w' : Outside σ I D := ⟨r.2, w.calls ++ [.observer k netifFrom data shouldForward]⟩
    match r.1 with
    | .error x => (.error x, w')
    | .ok _ => callObservers netifFrom data shouldForward (k + 1) rest w'

/-- The loop over the interfaces from the place `k` on. -/
def callInterfaces [DecidableEq I] (netifFrom : I) (data : D) : ℕ → List (I × OnData σ I D X) →
    Outside σ I D → Except X Unit × Outside σ I D
  | _, [], w => (.ok (), w)
  | k, (interface, callback) :: rest, w =>
    if interface ≠ netifFrom then
      let r := callback interface data w.state
      let w' : Outside σ I D := ⟨r.2, w.calls ++ [.callback k interface data]⟩
      match r.1 with
      | .error x => (.error x, w')
      | .ok _ => callInterfaces netifFrom data (k + 1) rest w'
    else callInterfaces netifFrom data (k + 1) rest w

/-- `_broadcast`. -/
def broadcast [DecidableEq I] (netifFrom : I) (dataToBroadcast : D) (w : Outside σ I D) :
    Except X Unit × Outside σ I D :=
  match askFilters netifFrom dataToBroadcast 0 bus.filters w with
  | (.error x, w) => (.error x, w)
  | (.ok shouldForward, w) =>
    match callObservers netifFrom dataToBroadcast shouldForward 0 bus.observers w with
    | (.error x, w) => (.error x, w)
    | (.ok _, w) =>
      if shouldForward then callInterfaces netifFrom dataToBroadcast 0 bus.interfaces w
      else (.ok (), w)

/-! ## Runs of calls -/

end EthernetBus

/-- A call of the bus, or something else that changes the state outside.
`dispatch` is the executed task of a `broadcast`. -/
inductive BusOp (σ I D X : Type)
  | addInterface (interface : I) (onDataCallback : OnData σ I D X)
  | addObserver (observerToAdd : BusObserver σ I D X)
  | addFilter (filterToAdd : BusFilter σ I D X)
  | dispatch (netifFrom : I) (data : D)
  | outside (state : σ)

/-- What is seen of it. -/
inductive BusEvent (I D : Type)
  | interfaceAdded (interface : I)
  | observerAdded
  | filterAdded
  | dispatched (netifFrom : I) (data : D) (calls : List (BusCall I D))
deriving DecidableEq

/-- The bus and the state outside. -/
structure BusState (σ I D X : Type) where
  bus : EthernetBus σ I D X
  outside : σ

section Runs

variable [DecidableEq I]

/-- One call, `none` where a callable raises. -/
def BusState.step (b : BusState σ I D X) :
    BusOp σ I D X → Option (BusState σ I D X × Option (BusEvent I D))
  | .addInterface interface callback =>
    some ({ b with bus := b.bus.addInterface interface callback }, some (.interfaceAdded interface))
  | .addObserver observer =>
    some ({ b with bus := b.bus.addObserver observer }, some .observerAdded)
  | .addFilter filter => some ({ b with bus := b.bus.addFilter filter }, some .filterAdded)
  | .dispatch netifFrom data =>
    match b.bus.broadcast netifFrom data ⟨b.outside, []⟩ with
    | (.ok _, w) => some ({ b with outside := w.state }, some (.dispatched netifFrom data w.calls))
    | (.error _, _) => none
  | .outside state => some ({ b with outside := state }, none)

end Runs

/-! ## What a trace says -/

namespace BusCall

/-- A filter rejects the frame. -/
def rejects : BusCall I D → Bool
  | .filter _ _ _ answer => !answer
  | _ => false

/-- What a filter answers, with its place. -/
def answer? : BusCall I D → Option (ℕ × I × D × Bool)
  | .filter k netifFrom data answer => some (k, netifFrom, data, answer)
  | _ => none

/-- What an observer is told, with its place. -/
def observed? : BusCall I D → Option (ℕ × I × D × Bool)
  | .observer k netifFrom data wasForwarded => some (k, netifFrom, data, wasForwarded)
  | _ => none

/-- What an interface is given, with its place. -/
def delivered? : BusCall I D → Option (ℕ × I × D)
  | .callback k interface data => some (k, interface, data)
  | _ => none

end BusCall

/-- No filter rejected the frame. -/
def accepted (calls : List (BusCall I D)) : Bool := calls.all fun c => !c.rejects

namespace BusEvent

/-- The interface that is registered. -/
def interface? : BusEvent I D → Option I
  | .interfaceAdded interface => some interface
  | _ => none

/-- An observer is registered. -/
def addsObserver : BusEvent I D → Bool
  | .observerAdded => true
  | _ => false

/-- A filter is registered. -/
def addsFilter : BusEvent I D → Bool
  | .filterAdded => true
  | _ => false

/-- The calls of a dispatch. -/
def calls : BusEvent I D → List (BusCall I D)
  | .dispatched _ _ calls => calls
  | _ => []

/-- The data of an accepted frame that is not the interface's own. -/
def frameFor? [DecidableEq I] (interface : I) : BusEvent I D → Option D
  | .dispatched netifFrom data calls =>
    if accepted calls = true ∧ interface ≠ netifFrom then some data else none
  | _ => none

end BusEvent

/-- The interfaces registered in a trace. -/
abbrev interfacesAdded (tr : List (BusEvent I D)) : List I := tr.filterMap BusEvent.interface?

/-- The number of observers registered in a trace. -/
def observersAdded (tr : List (BusEvent I D)) : ℕ := tr.countP BusEvent.addsObserver

/-- The number of filters registered in a trace. -/
def filtersAdded (tr : List (BusEvent I D)) : ℕ := tr.countP BusEvent.addsFilter

/-- The data that the interface at the place `j` was given. -/
def receivedAt (j : ℕ) (tr : List (BusEvent I D)) : List D :=
  (tr.flatMap fun e => e.calls.filterMap BusCall.delivered?).filterMap fun x =>
    if x.1 = j then some x.2.2 else none

/-- **What filters answer** that are asked one after the other, from the state
`s` outside on, until one says no. -/
inductive Answers (netifFrom : I) (data : D) : List (BusFilter σ I D X) → σ → List Bool → Prop
  | nil {s : σ} : Answers netifFrom data [] s []
  | no {filter : BusFilter σ I D X} {rest : List (BusFilter σ I D X)} {s s' : σ}
      (hno : filter netifFrom data s = (.ok false, s')) :
      Answers netifFrom data (filter :: rest) s [false]
  | yes {filter : BusFilter σ I D X} {rest : List (BusFilter σ I D X)} {s s' : σ}
      {answers : List Bool} (hyes : filter netifFrom data s = (.ok true, s'))
      (hrest : Answers netifFrom data rest s' answers) :
      Answers netifFrom data (filter :: rest) s (true :: answers)

/-- **An exact dispatch** of a frame, on a bus with these interfaces and
filters and so many observers, from the state `s` outside on: the filters are
asked in order, all of them if none rejects the frame, and what they answer is
what they return; every observer is called once, in order, and told whether no
filter rejected the frame; and if none did then every interface but the
sender's is called once, in order, and if one did then none. -/
structure ExactDispatch [DecidableEq I] (interfaces : List I)
    (filters : List (BusFilter σ I D X)) (observers : ℕ) (s : σ) (netifFrom : I) (data : D)
    (calls : List (BusCall I D)) : Prop where
  asked : ∃ answers : List Bool, Answers netifFrom data filters s answers ∧
    answers.length ≤ filters.length ∧
    (accepted calls = true → answers.length = filters.length) ∧
    calls.filterMap BusCall.answer? =
      answers.zipIdx.map fun a => (a.2, netifFrom, data, a.1)
  observed : calls.filterMap BusCall.observed? =
    (List.range observers).map fun k => (k, netifFrom, data, accepted calls)
  delivered : calls.filterMap BusCall.delivered? =
    if accepted calls = true then
      (interfaces.zipIdx.filter fun i => i.1 ≠ netifFrom).map fun i => (i.2, i.1, data)
    else []

/-! ## One dispatch -/

namespace EthernetBus

variable {netifFrom : I} {data : D} {w w' : Outside σ I D}

/-- No filter is asked twice, and each is if all say yes. -/
theorem length_of_answers {filters : List (BusFilter σ I D X)} {s : σ} {answers : List Bool}
    (h : Answers netifFrom data filters s answers) :
    answers.length ≤ filters.length ∧
      (answers.all id = true → answers.length = filters.length) := by
  induction h with
  | nil => simp
  | no hno => simp
  | yes hyes hrest ih => simpa using ih

/-- What is asked of the filters that all return. -/
theorem askFilters_spec {filters : List (BusFilter σ I D X)} {k : ℕ} {b : Bool}
    (h : askFilters netifFrom data k filters w = (.ok b, w')) :
    ∃ answers : List Bool, Answers netifFrom data filters w.state answers ∧
      b = answers.all id ∧
      w'.calls = w.calls ++ (answers.zipIdx k).map fun a => .filter a.2 netifFrom data a.1 := by
  induction filters generalizing k w with
  | nil =>
    cases h
    exact ⟨[], .nil, by simp⟩
  | cons filter rest ih =>
    rw [askFilters] at h
    split at h
    · cases h
    · next answer s hanswer =>
      cases answer with
      | false =>
        cases h
        exact ⟨[false], .no hanswer, by simp⟩
      | true =>
        -- this filter said yes, so the answer is that of the filters after it
        obtain ⟨answers, hanswers, rfl, hcalls⟩ := ih h
        refine ⟨true :: answers, .yes hanswer hanswers, by simp, ?_⟩
        simp [hcalls]

/-- The observers that all return are called one after the other. -/
theorem callObservers_spec {observers : List (BusObserver σ I D X)} {shouldForward : Bool} {k : ℕ}
    {u : Unit} (h : callObservers netifFrom data shouldForward k observers w = (.ok u, w')) :
    w'.calls = w.calls ++
      (List.range' k observers.length).map fun j => .observer j netifFrom data shouldForward := by
  induction observers generalizing k w with
  | nil =>
    cases h
    simp
  | cons observer rest ih =>
    simp only [callObservers] at h
    split at h
    · cases h
    · rw [ih h]
      simp [List.range'_succ]

variable [DecidableEq I]

/-- The callbacks that all return are called one after the other, but for the
sender's interface. -/
theorem callInterfaces_spec {interfaces : List (I × OnData σ I D X)} {k : ℕ} {u : Unit}
    (h : callInterfaces netifFrom data k interfaces w = (.ok u, w')) :
    w'.calls = w.calls ++
      (((interfaces.map Prod.fst).zipIdx k).filter fun i => i.1 ≠ netifFrom).map
        fun i => .callback i.2 i.1 data := by
  induction interfaces generalizing k w with
  | nil =>
    cases h
    simp
  | cons entry rest ih =>
    obtain ⟨interface, callback⟩ := entry
    simp only [callInterfaces] at h
    split at h
    · next hne =>
      split at h
      · cases h
      · rw [ih h]
        simp [hne]
    · next heq =>
      rw [ih h]
      simp [heq]

/-- The three loops together. -/
theorem exactDispatch_of_calls {interfaces : List I} {filters : List (BusFilter σ I D X)}
    {observers : ℕ} {s : σ} {answers : List Bool} {calls : List (BusCall I D)}
    (hanswers : Answers netifFrom data filters s answers)
    (hcalls : calls = (answers.zipIdx.map fun a => .filter a.2 netifFrom data a.1) ++
      ((List.range observers).map fun k => .observer k netifFrom data (answers.all id)) ++
      if answers.all id = true then
        (interfaces.zipIdx.filter fun i => i.1 ≠ netifFrom).map fun i => .callback i.2 i.1 data
      else []) :
    ExactDispatch interfaces filters observers s netifFrom data calls := by
  obtain ⟨hle, hall⟩ := length_of_answers hanswers
  -- observers and callbacks reject nothing
  have haccepted : accepted calls = answers.all id := by
    have hnumbered : (answers.zipIdx.all fun a => a.1) = answers.all id := by
      conv_rhs => rw [← List.zipIdx_map_fst 0 answers, List.all_map]
      rfl
    rw [hcalls, accepted]
    split <;> simp [List.all_map, Function.comp_def, BusCall.rejects, hnumbered]
  refine ⟨⟨answers, hanswers, hle, haccepted ▸ hall, ?_⟩, ?_, ?_⟩
  · rw [hcalls]
    split <;> simp [List.filterMap_map, Function.comp_def, BusCall.answer?]
  · rw [haccepted, hcalls]
    split <;> simp [List.filterMap_map, Function.comp_def, BusCall.observed?]
  · rw [haccepted, hcalls]
    split <;> simp [List.filterMap_map, Function.comp_def, BusCall.delivered?]

/-- **A dispatch in which all callables return is exact.** -/
theorem broadcast_exact {bus : EthernetBus σ I D X} {s : σ} {u : Unit}
    (h : bus.broadcast netifFrom data ⟨s, []⟩ = (.ok u, w')) :
    ExactDispatch (bus.interfaces.map Prod.fst) bus.filters bus.observers.length s netifFrom
      data w'.calls := by
  simp only [broadcast] at h
  split at h
  · cases h
  · next shouldForward w₁ hask =>
    obtain ⟨answers, hanswers, rfl, hcalls₁⟩ := askFilters_spec hask
    split at h
    · cases h
    · next w₂ hobserve =>
      have hcalls₂ := callObservers_spec hobserve
      refine exactDispatch_of_calls hanswers ?_
      split at h
      · next hforward =>
        rw [callInterfaces_spec h, hcalls₂, hcalls₁, if_pos hforward]
        simp [List.range_eq_range']
      · next hrejected =>
        cases h
        rw [hcalls₂, hcalls₁, if_neg hrejected]
        simp [List.range_eq_range']

end EthernetBus

/-! ## What an interface receives -/

/-- The element at one place of a list, found by its place. -/
theorem filterMap_zipIdx_at {α β : Type*} (l : List α) (k j : ℕ) (q : α → Option β) :
    ((l.zipIdx k).filterMap fun x => if x.2 = k + j then q x.1 else none) =
      (l[j]?.bind q).toList := by
  induction l generalizing k j with
  | nil => rfl
  | cons a l ih =>
    rw [List.zipIdx_cons]
    cases j with
    | zero =>
      -- the places of the tail come after it
      have htail : ((l.zipIdx (k + 1)).filterMap fun x => if x.2 = k + 0 then q x.1 else none) =
          [] := by
        refine List.filterMap_eq_nil_iff.mpr fun x hx => if_neg ?_
        have := List.le_snd_of_mem_zipIdx hx
        omega
      rw [List.filterMap_cons, htail]
      cases hq : q a <;> simp [hq]
    | succ j =>
      have htail := ih (k + 1) j
      rw [show k + 1 + j = k + (j + 1) by omega] at htail
      have hhead : ¬ k = k + (j + 1) := by omega
      simp only [List.filterMap_cons, if_neg hhead, htail]
      simp

variable [DecidableEq I]

/-- What an exact dispatch brings to one place. -/
theorem ExactDispatch.received {interfaces : List I} {filters : List (BusFilter σ I D X)}
    {observers : ℕ} {s : σ} {netifFrom : I} {data : D} {calls : List (BusCall I D)}
    (h : ExactDispatch interfaces filters observers s netifFrom data calls) (j : ℕ) :
    receivedAt j [.dispatched netifFrom data calls] =
      (interfaces[j]?.bind (BusEvent.frameFor? · (.dispatched netifFrom data calls))).toList := by
  rw [← filterMap_zipIdx_at interfaces 0 j]
  simp only [receivedAt, List.flatMap_singleton, BusEvent.calls, h.delivered]
  by_cases hacc : accepted calls = true
  · rw [if_pos hacc, List.filterMap_map, List.filterMap_filter]
    refine List.filterMap_congr fun x _ => ?_
    simp only [Function.comp_apply, BusEvent.frameFor?, hacc, true_and, Nat.zero_add]
    split <;> simp_all
  · simp [BusEvent.frameFor?, hacc]

/-! ## Runs of a bus -/

variable {b b' : BusState σ I D X} {tr : List (BusEvent I D)}

/-- **What one call does**: a registration appends to its list, and a
dispatch leaves the lists and is exact. -/
theorem BusState.step_cases {o : Option (BusEvent I D)} (h : StepOf BusState.step b o b') :
    (∃ i callback, o = some (.interfaceAdded i) ∧ b'.bus = b.bus.addInterface i callback) ∨
    (∃ observer, o = some .observerAdded ∧ b'.bus = b.bus.addObserver observer) ∨
    (∃ filter, o = some .filterAdded ∧ b'.bus = b.bus.addFilter filter) ∨
    (∃ netifFrom data calls, o = some (.dispatched netifFrom data calls) ∧ b'.bus = b.bus ∧
      ExactDispatch (b.bus.interfaces.map Prod.fst) b.bus.filters b.bus.observers.length
        b.outside netifFrom data calls) ∨
    (o = none ∧ b'.bus = b.bus) := by
  obtain ⟨op, hop⟩ := h
  cases op with
  | addInterface i callback =>
    obtain ⟨rfl, rfl⟩ := Prod.mk.inj (Option.some.inj hop)
    exact .inl ⟨i, callback, rfl, rfl⟩
  | addObserver observer =>
    obtain ⟨rfl, rfl⟩ := Prod.mk.inj (Option.some.inj hop)
    exact .inr (.inl ⟨observer, rfl, rfl⟩)
  | addFilter filter =>
    obtain ⟨rfl, rfl⟩ := Prod.mk.inj (Option.some.inj hop)
    exact .inr (.inr (.inl ⟨filter, rfl, rfl⟩))
  | dispatch netifFrom data =>
    rw [BusState.step] at hop
    split at hop
    · next w hw =>
      obtain ⟨rfl, rfl⟩ := Prod.mk.inj (Option.some.inj hop)
      exact .inr (.inr (.inr (.inl
        ⟨netifFrom, data, w.calls, rfl, rfl, EthernetBus.broadcast_exact hw⟩)))
    · cases hop
  | outside state =>
    obtain ⟨rfl, rfl⟩ := Prod.mk.inj (Option.some.inj hop)
    exact .inr (.inr (.inr (.inr ⟨rfl, rfl⟩)))

/-- The lists of a bus have grown by what a trace registers. -/
structure EthernetBus.Grown (bus : EthernetBus σ I D X) (tr : List (BusEvent I D))
    (bus' : EthernetBus σ I D X) : Prop where
  interfaces : bus'.interfaces.map Prod.fst = bus.interfaces.map Prod.fst ++ interfacesAdded tr
  filters : bus'.filters.length = bus.filters.length + filtersAdded tr
  observers : bus'.observers.length = bus.observers.length + observersAdded tr

omit [DecidableEq I] in
theorem EthernetBus.Grown.refl (bus : EthernetBus σ I D X) : bus.Grown [] bus :=
  ⟨by simp, rfl, rfl⟩

omit [DecidableEq I] in
theorem EthernetBus.Grown.trans {bus bus₁ bus₂ : EthernetBus σ I D X} {tr tr' : List (BusEvent I D)}
    (h₁ : bus.Grown tr bus₁) (h₂ : bus₁.Grown tr' bus₂) : bus.Grown (tr ++ tr') bus₂ := by
  refine ⟨?_, ?_, ?_⟩
  · simp [h₂.interfaces, h₁.interfaces]
  · rw [h₂.filters, h₁.filters, filtersAdded, filtersAdded, filtersAdded, List.countP_append]
    omega
  · rw [h₂.observers, h₁.observers, observersAdded, observersAdded, observersAdded,
      List.countP_append]
    omega

section Example

end Example

end PyLwip
