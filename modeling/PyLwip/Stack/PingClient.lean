import PyLwip.Common.Run
import Mathlib.Data.Nat.Notation
import Mathlib.Logic.Function.Basic

/-!
# Pings of one lwIP instance

lwIP has one slot for a callback, which all ping clients of the instance
share, and each client has a field for its user's. A result empties the slot,
then the field, and calls the user only then, who may ping again before the
call returns; nothing is left to do after it.

A callback is one that is not `None`; whether it counts as true is not the
code's to say. A trace tells of the pings, of the results with the callbacks
they called, and of the returns of these.
-/

namespace PyLwip

open EventSystem

variable {ι A C : Type}

/-! ## The slot and the clients -/

/-- The slot of lwIP, and the clients by their identities. A pointer in the
slot is to the `_ping_callback_internal` of a client, and NULL is `none`. -/
structure PingState (ι C : Type) where
  pingCbk : Option ι
  pingCallback : ι → Option C
  /-- The clients whose callbacks are being called, the innermost first. -/
  calling : List ι

namespace PingState

/-- An instance of lwIP that nobody has pinged from. -/
def new : PingState ι C := ⟨none, fun _ => none, []⟩

/-- `set_ping_callback`. -/
def setPingCallback (callback : Option ι) (s : PingState ι C) : PingState ι C :=
  { s with pingCbk := callback }

variable [DecidableEq ι]

/-- `ping`, which hands the target on to lwIP once the slot is set. -/
def ping (client : ι) (callback : C) (s : PingState ι C) : PingState ι C :=
  setPingCallback (some client)
    { s with pingCallback := Function.update s.pingCallback client (some callback) }

/-- `_ping_callback_internal` up to the call of the user's callback, and that
call if there is one. -/
def pingCallbackInternal (truthy : C → Bool) (client : ι) (pingResult : UInt8)
    (s : PingState ι C) : PingState ι C × List (C × Bool) :=
  let s := s.setPingCallback none
  match s.pingCallback client with
  | some callback =>
    if truthy callback then
      ({ s with
        pingCallback := Function.update s.pingCallback client none
        calling := client :: s.calling },
        [(callback, decide (pingResult ≠ 0))])
    else (s, [])
  | none => (s, [])

/-- `ping_result`. -/
def pingResult (truthy : C → Bool) (result : UInt8) (s : PingState ι C) :
    PingState ι C × List (C × Bool) :=
  match s.pingCbk with
  | some client => s.pingCallbackInternal truthy client result
  | none => (s, [])

end PingState

/-- What happens at the instance. A ping or a result can come while callbacks
are being called; the innermost of these returns, or raises, which `ctypes`
drops. -/
inductive PingAct (ι A C : Type)
  | ping (client : ι) (targetIp : A) (callback : C)
  | result (result : UInt8)
  | callbackReturns

/-- What is seen of it. -/
inductive PingEvent (ι A C : Type)
  | pinged (client : ι) (targetIp : A) (callback : C)
  /-- A result came, and these callbacks were called with these arguments. -/
  | resulted (result : UInt8) (calls : List (C × Bool))
  | returned
deriving DecidableEq

section Runs

variable [DecidableEq ι]

/-- One happening, `none` where no callback is being called that could
return. -/
def PingState.step (truthy : C → Bool) (s : PingState ι C) :
    PingAct ι A C → Option (PingState ι C × Option (PingEvent ι A C))
  | .ping client targetIp callback =>
    some (s.ping client callback, some (.pinged client targetIp callback))
  | .result result =>
    let r := s.pingResult truthy result
    some (r.1, some (.resulted result r.2))
  | .callbackReturns =>
    match s.calling with
    | _ :: rest => some ({ s with calling := rest }, some .returned)
    | [] => none

/-- Pings, results and returns, one after the other. -/
abbrev PingRun (truthy : C → Bool) :
    PingState ι C → List (PingEvent ι A C) → PingState ι C → Prop :=
  Run (StepOf (PingState.step truthy))

end Runs

/-! ## What a trace says -/

/-- The callback of a ping. -/
def PingEvent.pinged? : PingEvent ι A C → Option C
  | .pinged _ _ callback => some callback
  | _ => none

/-- What was called on a result. -/
def PingEvent.calls : PingEvent ι A C → List (C × Bool)
  | .resulted _ calls => calls
  | _ => []

/-- The callbacks of the pings. -/
def pingedCallbacks (tr : List (PingEvent ι A C)) : List C := tr.filterMap PingEvent.pinged?

/-- The callbacks that were called. -/
def calledCallbacks (tr : List (PingEvent ι A C)) : List C :=
  (tr.flatMap PingEvent.calls).map Prod.fst

theorem pingedCallbacks_snoc (tr : List (PingEvent ι A C)) (e : PingEvent ι A C) :
    pingedCallbacks (tr ++ [e]) = pingedCallbacks tr ++ e.pinged?.toList := by
  cases h : e.pinged? <;> simp [pingedCallbacks, h]

theorem calledCallbacks_snoc (tr : List (PingEvent ι A C)) (e : PingEvent ι A C) :
    calledCallbacks (tr ++ [e]) = calledCallbacks tr ++ e.calls.map Prod.fst := by
  simp [calledCallbacks]

/-- **The last ping is outstanding**, with this callback: no result has come
since. -/
def Outstanding (tr : List (PingEvent ι A C)) (callback : C) : Prop :=
  ∃ pre client targetIp post, tr = pre ++ .pinged client targetIp callback :: post ∧
    ∀ e ∈ post, e = .returned

namespace Outstanding

variable {tr : List (PingEvent ι A C)} {callback callback' : C}

theorem not_nil : ¬ Outstanding ([] : List (PingEvent ι A C)) callback := by
  rintro ⟨pre, client, targetIp, post, h, -⟩
  simp at h

/-- What the end of a trace says. -/
theorem snoc_iff {e : PingEvent ι A C} :
    Outstanding (tr ++ [e]) callback ↔
      (∃ client targetIp, e = .pinged client targetIp callback) ∨
        e = .returned ∧ Outstanding tr callback := by
  constructor
  · rintro ⟨pre, client, targetIp, post, h, hpost⟩
    rcases List.eq_nil_or_concat post with rfl | ⟨post, e', rfl⟩
    · exact .inl ⟨client, targetIp, (List.append_inj' h rfl).2 |> List.cons.inj |>.1⟩
    · have h' : tr ++ [e] = (pre ++ .pinged client targetIp callback :: post) ++ [e'] := by
        simpa using h
      obtain ⟨htr, he⟩ := List.append_inj' h' rfl
      obtain rfl : e = e' := by simpa using he
      exact .inr ⟨hpost e (by simp), pre, client, targetIp, post, htr,
        fun e' he' => hpost e' (by simp [he'])⟩
  · rintro (⟨client, targetIp, rfl⟩ | ⟨rfl, pre, client, targetIp, post, rfl, hpost⟩)
    · exact ⟨tr, client, targetIp, [], rfl, by simp⟩
    · refine ⟨pre, client, targetIp, post ++ [.returned], by simp, fun e he => ?_⟩
      rcases List.mem_append.mp he with he | he
      · exact hpost e he
      · exact List.mem_singleton.mp he

end Outstanding

/-! ## Armed is what is outstanding -/

/-- The callback that the next result reaches. -/
def PingState.armed (s : PingState ι C) : Option C := s.pingCbk.bind s.pingCallback

variable [DecidableEq ι] {truthy : C → Bool} {tr : List (PingEvent ι A C)} {s s' : PingState ι C}

/-- What a result calls. -/
theorem PingState.pingResult_calls (result : UInt8) (s : PingState ι C) :
    (s.pingResult truthy result).2 =
      (s.armed.toList.filter truthy).map fun callback => (callback, decide (result ≠ 0)) := by
  unfold pingResult pingCallbackInternal armed
  cases s.pingCbk with
  | none => rfl
  | some client =>
    cases h : s.pingCallback client with
    | none => simp [setPingCallback, h]
    | some callback => cases ht : truthy callback <;> simp [setPingCallback, h, ht]

/-- A result leaves nothing armed. -/
theorem PingState.armed_pingResult (result : UInt8) (s : PingState ι C) :
    (s.pingResult truthy result).1.armed = none := by
  unfold pingResult pingCallbackInternal
  cases hc : s.pingCbk with
  | none => simp [armed, hc]
  | some client =>
    -- the slot is empty whichever way it goes
    cases h : s.pingCallback client with
    | none => simp [setPingCallback, h, armed]
    | some callback => cases ht : truthy callback <;> simp [setPingCallback, h, ht, armed]

theorem PingState.armed_ping (client : ι) (callback : C) (s : PingState ι C) :
    (s.ping client callback).armed = some callback := by
  simp [ping, setPingCallback, armed]

/-- **What can happen**, and what is armed after it. -/
theorem PingState.step_cases {o : Option (PingEvent ι A C)}
    (h : StepOf (PingState.step truthy) s o s') :
    (∃ client targetIp callback, o = some (.pinged client targetIp callback) ∧
      s'.armed = some callback) ∨
    (∃ result, o = some (.resulted result (s.pingResult truthy result).2) ∧ s'.armed = none) ∨
    (o = some .returned ∧ s'.armed = s.armed) := by
  obtain ⟨act, hact⟩ := h
  cases act with
  | ping client targetIp callback =>
    obtain ⟨rfl, rfl⟩ := Prod.mk.inj (Option.some.inj hact)
    exact .inl ⟨client, targetIp, callback, rfl, s.armed_ping client callback⟩
  | result result =>
    obtain ⟨rfl, rfl⟩ := Prod.mk.inj (Option.some.inj hact)
    exact .inr (.inl ⟨result, rfl, s.armed_pingResult result⟩)
  | callbackReturns =>
    rw [PingState.step] at hact
    split at hact
    · obtain ⟨rfl, rfl⟩ := Prod.mk.inj (Option.some.inj hact)
      exact .inr (.inr ⟨rfl, rfl⟩)
    · cases hact

/-- **What is armed is what is outstanding**, at every moment. -/
theorem PingRun.outstanding_iff (h : PingRun truthy .new tr s) (callback : C) :
    Outstanding tr callback ↔ s.armed = some callback := by
  refine h.invariant (I := fun tr s => Outstanding tr callback ↔ s.armed = some callback) ?_ ?_
  · simp [Outstanding.not_nil, PingState.new, PingState.armed]
  · intro tr s o s' _ ih hs
    rcases PingState.step_cases hs with ⟨client, targetIp, callback', rfl, harmed⟩ |
      ⟨result, rfl, harmed⟩ | ⟨rfl, harmed⟩
    · simp [Outstanding.snoc_iff, harmed]
    · simp [Outstanding.snoc_iff, harmed]
    · simpa [Outstanding.snoc_iff, harmed] using ih

/-- What was called and what is armed are callbacks of different pings. -/
theorem PingRun.called_armed_sublist (h : PingRun truthy .new tr s) :
    (calledCallbacks tr ++ s.armed.toList).Sublist (pingedCallbacks tr) := by
  refine h.invariant
    (I := fun tr s => (calledCallbacks tr ++ s.armed.toList).Sublist (pingedCallbacks tr)) ?_ ?_
  · simp [calledCallbacks, PingState.new, PingState.armed]
  · intro tr s o s' _ ih hs
    rcases PingState.step_cases hs with ⟨client, targetIp, callback, rfl, harmed⟩ |
      ⟨result, rfl, harmed⟩ | ⟨rfl, harmed⟩
    · -- what was armed is replaced
      have hcalled := (List.sublist_append_left _ _).trans ih
      rw [Option.toList_some, calledCallbacks_snoc, pingedCallbacks_snoc, harmed]
      simpa [PingEvent.calls, PingEvent.pinged?] using hcalled
    · have hcalls : ((s.pingResult truthy result).2.map Prod.fst).Sublist s.armed.toList := by
        rw [PingState.pingResult_calls, List.map_map]
        simp [Function.comp_def]
      rw [Option.toList_some, calledCallbacks_snoc, pingedCallbacks_snoc, harmed]
      simpa [PingEvent.calls, PingEvent.pinged?] using
        ((List.Sublist.refl (calledCallbacks tr)).append hcalls).trans ih
    · rw [Option.toList_some, calledCallbacks_snoc, pingedCallbacks_snoc, harmed]
      simpa [PingEvent.calls, PingEvent.pinged?] using ih

/-- What one result of a run calls. -/
theorem PingRun.calls_at {pre post : List (PingEvent ι A C)} {result : UInt8}
    {calls : List (C × Bool)}
    (h : PingRun truthy .new (pre ++ .resulted result calls :: post) s) :
    (∀ callback, Outstanding pre callback →
      calls = if truthy callback then [(callback, decide (result ≠ 0))] else []) ∧
    ((∀ callback, ¬ Outstanding pre callback) → calls = []) := by
  obtain ⟨t, t', hpre, hs, -⟩ := Run.split h
  have hcalls : calls =
      (t.armed.toList.filter truthy).map fun callback => (callback, decide (result ≠ 0)) := by
    rw [← PingState.pingResult_calls]
    rcases PingState.step_cases hs with ⟨client, targetIp, callback, ho, -⟩ | ⟨result, ho, -⟩ |
      ⟨ho, -⟩ <;> cases ho
    rfl
  refine ⟨fun callback hout => ?_, fun hnone => ?_⟩
  · rw [hcalls, (PingRun.outstanding_iff hpre callback).mp hout]
    cases ht : truthy callback <;> simp [ht]
  · have hunarmed : t.armed = none :=
      Option.eq_none_iff_forall_ne_some.mpr fun callback harmed =>
        hnone callback ((PingRun.outstanding_iff hpre callback).mpr harmed)
    simp [hcalls, hunarmed]

/-- **A result reaches the latest ping, once.** In every run of pings, results
and callbacks that ping before they return: a result calls the callback of
the last ping, with whether the result is not zero, if no result has come
since that ping, and otherwise nothing; every call is for a ping of its own;
and what is armed is at every moment the callback of the last ping if it is
outstanding, also where a callback has just returned that pinged. -/
theorem ping_results_exact (h : PingRun truthy .new tr s) :
    (∀ pre result calls post, tr = pre ++ .resulted result calls :: post →
      (∀ callback, Outstanding pre callback →
        calls = if truthy callback then [(callback, decide (result ≠ 0))] else []) ∧
      ((∀ callback, ¬ Outstanding pre callback) → calls = [])) ∧
    (calledCallbacks tr).Sublist (pingedCallbacks tr) ∧
    (∀ callback, Outstanding tr callback ↔ s.armed = some callback) ∧
    ∀ pre callback, tr = pre ++ [.returned] → Outstanding pre callback →
      s.armed = some callback := by
  refine ⟨?_, (List.sublist_append_left _ _).trans h.called_armed_sublist, h.outstanding_iff, ?_⟩
  · rintro pre result calls post rfl
    exact PingRun.calls_at h
  · rintro pre callback rfl hout
    exact (h.outstanding_iff callback).mp (Outstanding.snoc_iff.mpr (.inr ⟨rfl, hout⟩))

section Example

/-- The second client pings after the first, and the first again from inside
the callback of the second; the last result comes in vain. -/
def nestedPings : List (PingAct ℕ Unit ℕ) :=
  [.ping 0 () 7, .ping 1 () 8, .result 1, .ping 0 () 9, .callbackReturns, .result 0,
    .callbackReturns, .result 1]

theorem ping_results_exact_nested :
    let r := outcome (PingState.step fun _ => true) .new nestedPings (by decide)
    (r.2.flatMap PingEvent.calls = [(8, true), (9, false)]) ∧
      (calledCallbacks r.2).Sublist [7, 8, 9] ∧ r.1.armed = none := by
  have hrun := run_outcome (PingState.step fun _ => true) .new nestedPings (by decide)
  obtain ⟨-, hsub, -, -⟩ := ping_results_exact hrun
  exact ⟨by decide, hsub, by decide⟩

end Example

end PyLwip
