import PyLwip.Common.Run
import PyLwip.Common.Digits
import PyLwip.Stack.Native
import Mathlib.Data.List.Sublists
import Mathlib.Logic.Function.Basic

/-!
# The exchange of datagrams between two peers

The script of the examples binds a socket on each of two hosts, sends the
number 1 from the one to the other, and each peer answers a number with the
next one until the maximum is reached. Then it waits until both have set their
`completion`, and stops the network.

The network may lose, duplicate and reorder datagrams, lwIP may fail, and
`Host.execute` may raise. What both completions tell the script is that the
whole exchange took place; and if nothing fails both are set exactly if the
maximum is a number that four bytes can hold, and not less than 2.
-/

namespace PyLwip

open EventSystem

namespace PingPong

/-! ## The applications -/

/-- The applications of the script, each on the host of its name. -/
inductive Peer
  | one
  | two
deriving DecidableEq

def Peer.other : Peer → Peer
  | .one => .two
  | .two => .one

@[simp] theorem Peer.other_other (p : Peer) : p.other.other = p := by cases p <;> rfl

theorem Peer.other_ne (p : Peer) : p.other ≠ p := by cases p <;> simp [other]

/-- The address and the port of a socket. -/
abbrev EndPoint := IpV4Addr × UInt16

/-- A datagram on its way. -/
structure Packet where
  source : EndPoint
  destination : EndPoint
  data : List UInt8
deriving DecidableEq

/-- What the script is given: `max_counter` and the two end points, which
differ. -/
structure Setup where
  maxCounter : ℤ
  endPoint : Peer → EndPoint
  distinct : endPoint .one ≠ endPoint .two

/-- The socket that lwIP delivers a datagram to. -/
def Setup.receiver? (setup : Setup) (destination : EndPoint) : Option Peer :=
  if destination = setup.endPoint .one then some .one
  else if destination = setup.endPoint .two then some .two
  else none

theorem Setup.receiver?_endPoint (setup : Setup) (p : Peer) :
    setup.receiver? (setup.endPoint p) = some p := by
  cases p
  · simp [receiver?]
  · simp [receiver?, setup.distinct.symm]

/-- `_UdpPingPongApp` on its host. `scheduled` are the calls of `_send_ping`
that the host was handed and has not made. -/
structure UdpPingPongApp where
  listening : Bool
  scheduled : List (EndPoint × ℕ)
  completion : Bool
deriving DecidableEq

/-- What a call of `Host.execute` comes to: it is accepted, or `Stopped` is
raised, or the push raises when the task is queued already. -/
inductive Scheduling
  | accepted
  | stopped
  | pushRaised
deriving DecidableEq

/-- What becomes of a call of `send_to`: whether lwIP passes the datagram on,
and whether the call returns. -/
structure Sending where
  passedOn : Bool
  returns : Bool
deriving DecidableEq

/-- `_receive_data`. -/
def UdpPingPongApp.receiveData (maxCounter : ℤ) (answer : Scheduling) (receivedData : List UInt8)
    (sender : EndPoint) (app : UdpPingPongApp) : UdpPingPongApp :=
  let counter := Words.ofBytes receivedData
  if (counter : ℤ) < maxCounter then
    let newCounter := counter + 1
    match answer with
    | .accepted =>
      { app with
        scheduled := app.scheduled ++ [(sender, newCounter)]
        completion := app.completion || decide ((newCounter : ℤ) = maxCounter) }
    | .stopped => app
    | .pushRaised => { app with scheduled := app.scheduled ++ [(sender, newCounter)] }
  else { app with completion := true }

/-- `_send_ping`: the datagram that is passed on, and whether the call
returns. `to_bytes` raises for a number of more than four bytes. -/
def sendPing (source destination : EndPoint) (counter : ℕ) (answer : Sending) :
    Option Packet × Bool :=
  match Words.toBytes 4 counter with
  | some data =>
    (if answer.passedOn then some ⟨source, destination, data⟩ else none, answer.returns)
  | none => (none, false)

/-! ## The script and the network -/

/-- Where the script stands: before `execute(peer_one_app.start).result()`,
before the same for `start_and_send_ping`, in the two waits, before
`network.stop()`, or where a result has raised. -/
inductive Line
  | startOne
  | startTwo
  | waitOne
  | waitTwo
  | stop
  | raised
deriving DecidableEq

structure Session where
  app : Peer → UdpPingPongApp
  inFlight : List Packet
  line : Line

/-- What an observer sees. -/
inductive Event
  | script
  | sent (p : Peer) (counter : ℕ)
  | unsent (p : Peer) (counter : ℕ)
  | received (p : Peer) (counter : ℕ)
  | lost
  | duplicated
deriving DecidableEq

/-- What happens next. The index is that of the scheduled call or the
datagram, so that any order is possible. -/
inductive Move
  /-- The next line of the script. -/
  | script (bindReturns : Bool) (answer : Sending)
  | execute (p : Peer) (i : ℕ) (answer : Sending)
  | deliver (i : ℕ) (answer : Scheduling)
  | lose (i : ℕ)
  | duplicate (i : ℕ)

namespace Session

/-- The script begins. -/
def new : Session := ⟨fun _ => ⟨false, [], false⟩, [], .startOne⟩

/-- `start` binds the socket and sets its callback. -/
def listen (p : Peer) (s : Session) : Session :=
  { s with app := Function.update s.app p { s.app p with listening := true } }

/-- `_send_ping` of `p`. -/
def send (p : Peer) (packet : Option Packet) (counter : ℕ) (s : Session) : Session × Option Event :=
  ({ s with inFlight := s.inFlight ++ packet.toList },
    some (if packet.isSome then .sent p counter else .unsent p counter))

/-- The next line of the script. A task whose result is waited for is executed
meanwhile. -/
def script (setup : Setup) (bindReturns : Bool) (answer : Sending) (s : Session) :
    Option (Session × Option Event) :=
  match s.line with
  | .startOne =>
    if bindReturns then some ({ s.listen .one with line := .startTwo }, some .script)
    else some ({ s with line := .raised }, some .script)
  | .startTwo =>
    if bindReturns then
      let ping := sendPing (setup.endPoint .two) (setup.endPoint .one) 1 answer
      some ({ s.listen .two with line := if ping.2 then .waitOne else .raised }.send .two ping.1 1)
    else some ({ s with line := .raised }, some .script)
  | .waitOne =>
    if (s.app .one).completion then some ({ s with line := .waitTwo }, some .script) else none
  | .waitTwo =>
    if (s.app .two).completion then some ({ s with line := .stop }, some .script) else none
  | .stop | .raised => none

/-- The `i`-th scheduled call of `p`. -/
def execute (setup : Setup) (p : Peer) (i : ℕ) (answer : Sending) (s : Session) :
    Option (Session × Option Event) :=
  (s.app p).scheduled[i]?.map fun call =>
    ({ s with
      app := Function.update s.app p
        { s.app p with scheduled := (s.app p).scheduled.eraseIdx i } } : Session).send p
      (sendPing (setup.endPoint p) call.1 call.2 answer).1 call.2

/-- The `i`-th datagram arrives. Without a socket for it it is dropped. -/
def deliver (setup : Setup) (i : ℕ) (answer : Scheduling) (s : Session) :
    Option (Session × Option Event) :=
  s.inFlight[i]?.map fun packet =>
    match setup.receiver? packet.destination with
    | some p =>
      if (s.app p).listening then
        ({ s with
          app := Function.update s.app p
            ((s.app p).receiveData setup.maxCounter answer packet.data packet.source)
          inFlight := s.inFlight.eraseIdx i },
          some (.received p (Words.ofBytes packet.data)))
      else ({ s with inFlight := s.inFlight.eraseIdx i }, some .lost)
    | none => ({ s with inFlight := s.inFlight.eraseIdx i }, some .lost)

/-- **A step**, `none` where it is not enabled. -/
def step (setup : Setup) (s : Session) : Move → Option (Session × Option Event)
  | .script bindReturns answer => s.script setup bindReturns answer
  | .execute p i answer => s.execute setup p i answer
  | .deliver i answer => s.deliver setup i answer
  | .lose i => s.inFlight[i]?.map fun _ =>
      ({ s with inFlight := s.inFlight.eraseIdx i }, some .lost)
  | .duplicate i => s.inFlight[i]?.map fun packet =>
      ({ s with inFlight := s.inFlight ++ [packet] }, some .duplicated)

end Session

/-! ## Causal traces -/

/-- The peer that sends a number. -/
def sender : ℕ → Peer
  | 0 => .one
  | c + 1 => (sender c).other

/-- **The exchange** of the numbers up to `c`, each sent by its peer and received
by the other one, which then sends the next. -/
def exchange : ℕ → List Event
  | 0 => []
  | c + 1 => exchange c ++
    [.sent (sender (c + 1)) (c + 1), .received (sender (c + 1)).other (c + 1)]

/-- **A causal trace**: the first number is sent by the second peer, any other
one after the number before it was received and not beyond the maximum, and
nothing is received that was not sent. -/
inductive Causal (maxCounter : ℤ) : List Event → Prop
  | nil : Causal maxCounter []
  | sent {tr : List Event} {p : Peer} {c : ℕ} (h : Causal maxCounter tr)
      (hcause : (p = .two ∧ c = 1) ∨
        ∃ c', .received p c' ∈ tr ∧ c = c' + 1 ∧ (c : ℤ) ≤ maxCounter)
      (hfits : c < 2 ^ 32) : Causal maxCounter (tr ++ [.sent p c])
  | received {tr : List Event} {p : Peer} {c : ℕ} (h : Causal maxCounter tr)
      (hsent : Event.sent p.other c ∈ tr) : Causal maxCounter (tr ++ [.received p c])
  | silent {tr : List Event} {e : Event} (h : Causal maxCounter tr)
      (hsent : ∀ p c, e ≠ .sent p c) (hreceived : ∀ p c, e ≠ .received p c) :
      Causal maxCounter (tr ++ [e])

variable {maxCounter : ℤ} {tr : List Event}

/-- A number of the exchange. -/
structure Counted (maxCounter : ℤ) (c : ℕ) : Prop where
  pos : 1 ≤ c
  le : c = 1 ∨ (c : ℤ) ≤ maxCounter
  fits : c < 2 ^ 32

/-- **What a trace tells** of the events in it: each is of the peer whose number
it is, and the exchange up to it took place. -/
structure Told (maxCounter : ℤ) (tr : List Event) : Prop where
  sent : ∀ p c, Event.sent p c ∈ tr → Counted maxCounter c ∧ p = sender c ∧
    (exchange (c - 1) ++ [Event.sent p c]).Sublist tr
  received : ∀ p c, Event.received p c ∈ tr → Counted maxCounter c ∧ p.other = sender c ∧
    (exchange c).Sublist tr

/-- Of one event more only that has to be shown. -/
theorem Told.snoc {e : Event} (h : Told maxCounter tr)
    (hsent : ∀ p c, Event.sent p c = e → Counted maxCounter c ∧ p = sender c ∧
      (exchange (c - 1) ++ [Event.sent p c]).Sublist (tr ++ [e]))
    (hreceived : ∀ p c, Event.received p c = e → Counted maxCounter c ∧ p.other = sender c ∧
      (exchange c).Sublist (tr ++ [e])) : Told maxCounter (tr ++ [e]) := by
  constructor
  · intro p c hmem
    rcases List.mem_append.mp hmem with hold | hnew
    · obtain ⟨hc, hp, hsub⟩ := h.sent p c hold
      exact ⟨hc, hp, hsub.trans (List.sublist_append_left _ _)⟩
    · exact hsent p c (List.mem_singleton.mp hnew)
  · intro p c hmem
    rcases List.mem_append.mp hmem with hold | hnew
    · obtain ⟨hc, hp, hsub⟩ := h.received p c hold
      exact ⟨hc, hp, hsub.trans (List.sublist_append_left _ _)⟩
    · exact hreceived p c (List.mem_singleton.mp hnew)

/-- **A number in a causal trace ends the exchange up to it.** -/
theorem Causal.told (h : Causal maxCounter tr) : Told maxCounter tr := by
  induction h with
  | nil => exact ⟨by simp, by simp⟩
  | @sent tr p c h hcause hfits ih =>
    refine ih.snoc (fun q k heq => ?_) fun q k heq => by cases heq
    cases heq
    rcases hcause with ⟨rfl, rfl⟩ | ⟨c', hr, rfl, hle⟩
    · exact ⟨⟨le_rfl, .inl rfl, hfits⟩, rfl, List.sublist_append_right _ _⟩
    · -- the number before was received, and ends the exchange up to it
      obtain ⟨-, hq, hsub⟩ := ih.received p c' hr
      refine ⟨⟨by omega, .inr hle, hfits⟩, ?_, hsub.append (List.Sublist.refl _)⟩
      rw [sender, ← hq, Peer.other_other]
  | @received tr p c h hsent ih =>
    refine ih.snoc (fun q k heq => by cases heq) fun q k heq => ?_
    cases heq
    obtain ⟨hc, hq, hsub⟩ := ih.sent p.other c hsent
    refine ⟨hc, hq, ?_⟩
    obtain ⟨c, rfl⟩ : ∃ j, c = j + 1 := ⟨c - 1, by have := hc.pos; omega⟩
    have hsnoc := hsub.append (List.Sublist.refl [Event.received p (c + 1)])
    rw [exchange, ← hq, Peer.other_other]
    simpa using hsnoc
  | silent h hsent hreceived ih =>
    exact ih.snoc (fun q k heq => absurd heq.symm (hsent q k))
      fun q k heq => absurd heq.symm (hreceived q k)

/-! ## Every trace is causal -/

section Runs

variable {setup : Setup} {s s' : Session}

/-- **What holds in every session**, with the trace that leads to it: a datagram
carries a number that was sent, between the peers; a scheduled call answers
one that was received; and a peer that is complete has received one of the
last two. -/
structure Exchanging (setup : Setup) (tr : List Event) (s : Session) : Prop where
  causal : Causal setup.maxCounter tr
  inFlight : ∀ packet ∈ s.inFlight, ∃ p, Event.sent p (Words.ofBytes packet.data) ∈ tr ∧
    packet.source = setup.endPoint p ∧ packet.destination = setup.endPoint p.other
  scheduled : ∀ p, ∀ call ∈ (s.app p).scheduled, call.1 = setup.endPoint p.other ∧
    ∃ c, Event.received p c ∈ tr ∧ call.2 = c + 1 ∧ (call.2 : ℤ) ≤ setup.maxCounter
  completion : ∀ p, (s.app p).completion = true →
    ∃ c : ℕ, Event.received p c ∈ tr ∧ setup.maxCounter ≤ c + 1
  waiting : s.line = .waitTwo ∨ s.line = .stop → (s.app .one).completion = true
  stopping : s.line = .stop → (s.app .two).completion = true

/-- What a longer trace tells is no less. -/
theorem Exchanging.mono (h : Exchanging setup tr s) {tr' : List Event}
    (hcausal : Causal setup.maxCounter (tr ++ tr')) : Exchanging setup (tr ++ tr') s where
  causal := hcausal
  inFlight packet hmem :=
    have ⟨p, hsent, hends⟩ := h.inFlight packet hmem
    ⟨p, List.mem_append_left _ hsent, hends⟩
  scheduled p call hmem :=
    have ⟨hdst, c, hreceived, hc⟩ := h.scheduled p call hmem
    ⟨hdst, c, List.mem_append_left _ hreceived, hc⟩
  completion p hp :=
    have ⟨c, hreceived, hc⟩ := h.completion p hp
    ⟨c, List.mem_append_left _ hreceived, hc⟩
  waiting := h.waiting
  stopping := h.stopping

/-- Fewer datagrams and calls, and what is complete stays so. -/
theorem Exchanging.shrink (h : Exchanging setup tr s)
    (hin : ∀ packet ∈ s'.inFlight, packet ∈ s.inFlight)
    (hsched : ∀ p, ∀ call ∈ (s'.app p).scheduled, call ∈ (s.app p).scheduled)
    (hcomp : ∀ p, (s'.app p).completion = (s.app p).completion)
    (hline : s'.line = s.line ∨ s'.line ≠ .waitTwo ∧ s'.line ≠ .stop) :
    Exchanging setup tr s' where
  causal := h.causal
  inFlight packet hmem := h.inFlight packet (hin packet hmem)
  scheduled p call hmem := h.scheduled p call (hsched p call hmem)
  completion p hp := h.completion p (hcomp p ▸ hp)
  waiting hl := by
    rw [hcomp]
    rcases hline with heq | ⟨hne₁, hne₂⟩
    · exact h.waiting (heq ▸ hl)
    · exact absurd hl (by simp [hne₁, hne₂])
  stopping hl := by
    rw [hcomp]
    rcases hline with heq | ⟨-, hne⟩
    · exact h.stopping (heq ▸ hl)
    · exact absurd hl hne

/-- An event that neither sends nor receives. -/
theorem Exchanging.silent (h : Exchanging setup tr s) (e : Event) (hsent : ∀ p c, e ≠ .sent p c)
    (hreceived : ∀ p c, e ≠ .received p c) : Exchanging setup (tr ++ [e]) s :=
  h.mono (h.causal.silent hsent hreceived)

/-- The network may lose and duplicate what is in flight. -/
theorem Exchanging.transit (h : Exchanging setup tr s) {inFlight : List Packet}
    (hin : ∀ packet ∈ inFlight, packet ∈ s.inFlight) (e : Event) (hsent : ∀ p c, e ≠ .sent p c)
    (hreceived : ∀ p c, e ≠ .received p c) :
    Exchanging setup (tr ++ [e]) { s with inFlight := inFlight } := by
  have hin : Exchanging setup tr { s with inFlight := inFlight } :=
    h.shrink hin (fun _ _ => id) (fun _ => rfl) (.inl rfl)
  exact hin.silent e hsent hreceived

theorem sendPing_fst (source destination : EndPoint) (c : ℕ) (answer : Sending) :
    (sendPing source destination c answer).1 = none ∨ c < 2 ^ 32 ∧ ∃ data,
      (sendPing source destination c answer).1 = some ⟨source, destination, data⟩ ∧
        Words.ofBytes data = c := by
  unfold sendPing
  split
  · next data hdata =>
    by_cases hpass : answer.passedOn = true
    · refine .inr ⟨Words.toBytes_isSome.mp (by rw [hdata]; rfl), data, by simp [hpass], ?_⟩
      exact Words.ofBytes_of_toBytes hdata
    · exact .inl (by simp [hpass])
  · exact .inl rfl

/-- **A number is sent** that has a cause. -/
theorem Exchanging.send (h : Exchanging setup tr s) {p : Peer} {c : ℕ} {answer : Sending}
    (hcause : (p = .two ∧ c = 1) ∨
      ∃ c', Event.received p c' ∈ tr ∧ c = c' + 1 ∧ (c : ℤ) ≤ setup.maxCounter) {o : Option Event}
    (hs : s.send p (sendPing (setup.endPoint p) (setup.endPoint p.other) c answer).1 c = (s', o)) :
    Exchanging setup (tr ++ o.toList) s' := by
  rcases sendPing_fst (setup.endPoint p) (setup.endPoint p.other) c answer with
    hnone | ⟨hfits, data, hsome, hdata⟩
  · rw [hnone] at hs
    obtain ⟨rfl, rfl⟩ := Prod.mk.inj hs
    exact h.transit (by simp) _ (by simp) (by simp)
  · rw [hsome] at hs
    obtain ⟨rfl, rfl⟩ := Prod.mk.inj hs
    have hgrown := h.mono (h.causal.sent hcause hfits)
    refine { hgrown with inFlight := fun packet hmem => ?_ }
    rcases List.mem_append.mp hmem with hold | hnew
    · exact hgrown.inFlight packet hold
    · obtain rfl : packet = ⟨setup.endPoint p, setup.endPoint p.other, data⟩ := by simpa using hnew
      exact ⟨p, by simp [hdata], rfl, rfl⟩

theorem Exchanging.script (h : Exchanging setup tr s) {bindReturns : Bool} {answer : Sending}
    {o : Option Event} (hs : s.script setup bindReturns answer = some (s', o)) :
    Exchanging setup (tr ++ o.toList) s' := by
  have hlisten : ∀ (p : Peer) (l : Line), l ≠ .waitTwo ∧ l ≠ .stop →
      Exchanging setup tr { s.listen p with line := l } := by
    intro p l hl
    refine h.shrink (fun _ => id) (fun q call hcall => ?_) (fun q => ?_) (.inr hl)
    · by_cases hq : q = p <;> simp_all [Session.listen]
    · by_cases hq : q = p <;> simp_all [Session.listen]
  have hraised : Exchanging setup tr { s with line := .raised } :=
    h.shrink (fun _ => id) (fun _ _ => id) (fun _ => rfl) (by simp)
  unfold Session.script at hs
  split at hs
  · split at hs
    · cases hs
      exact (hlisten _ _ (by simp)).silent _ (by simp) (by simp)
    · cases hs
      exact hraised.silent _ (by simp) (by simp)
  · split at hs
    · refine (hlisten .two _ ?_).send (.inl ⟨rfl, rfl⟩) (Option.some.inj hs)
      split <;> simp
    · cases hs
      exact hraised.silent _ (by simp) (by simp)
  · split at hs
    · next hone =>
      cases hs
      have hgrown := h.silent .script (by simp) (by simp)
      exact { hgrown with waiting := fun _ => hone, stopping := fun hl => by cases hl }
    · cases hs
  · split at hs
    · next hl htwo =>
      cases hs
      have hgrown := h.silent .script (by simp) (by simp)
      exact { hgrown with waiting := fun _ => h.waiting (.inl hl), stopping := fun _ => htwo }
    · cases hs
  · cases hs
  · cases hs

theorem Exchanging.execute (h : Exchanging setup tr s) {p : Peer} {i : ℕ} {answer : Sending}
    {o : Option Event} (hs : s.execute setup p i answer = some (s', o)) :
    Exchanging setup (tr ++ o.toList) s' := by
  obtain ⟨⟨dst, c⟩, hcall, hs⟩ := Option.map_eq_some_iff.mp hs
  obtain ⟨rfl, c', hreceived, hc, hle⟩ := h.scheduled p _ (List.mem_of_getElem? hcall)
  have herased : Exchanging setup tr { s with
      app := Function.update s.app p
        { s.app p with scheduled := (s.app p).scheduled.eraseIdx i } } := by
    refine h.shrink (fun _ => id) (fun q call hmem => ?_) (fun q => ?_) (.inl rfl)
    · by_cases hq : q = p
      · subst hq
        simp only [Function.update_self] at hmem
        exact List.mem_of_mem_eraseIdx hmem
      · simpa [Function.update_of_ne hq] using hmem
    · by_cases hq : q = p
      · subst hq
        simp
      · simp [Function.update_of_ne hq]
  exact herased.send (.inr ⟨c', hreceived, hc, hle⟩) hs

/-- **`_receive_data`** schedules a call that answers the number, and completes
its peer where the number is one of the last two. -/
theorem UdpPingPongApp.receiveData_spec (maxCounter : ℤ) (answer : Scheduling) (data : List UInt8)
    (sender : EndPoint) (app : UdpPingPongApp) :
    (∀ call ∈ (app.receiveData maxCounter answer data sender).scheduled, call ∈ app.scheduled ∨
      call = (sender, Words.ofBytes data + 1) ∧ ((Words.ofBytes data + 1 : ℕ) : ℤ) ≤ maxCounter) ∧
    (app.completion = true → (app.receiveData maxCounter answer data sender).completion = true) ∧
    ((app.receiveData maxCounter answer data sender).completion = true →
      app.completion = true ∨ maxCounter ≤ Words.ofBytes data + 1) := by
  by_cases hlt : (Words.ofBytes data : ℤ) < maxCounter
  · have hpushed : ∀ call ∈ app.scheduled ++ [(sender, Words.ofBytes data + 1)],
        call ∈ app.scheduled ∨ call = (sender, Words.ofBytes data + 1) ∧
          ((Words.ofBytes data + 1 : ℕ) : ℤ) ≤ maxCounter := by
      intro call hmem
      rcases List.mem_append.mp hmem with hold | hnew
      · exact .inl hold
      · exact .inr ⟨List.mem_singleton.mp hnew, by push_cast; omega⟩
    cases answer with
    | stopped =>
      simp only [receiveData, if_pos hlt]
      exact ⟨fun _ => .inl, id, .inl⟩
    | pushRaised =>
      simp only [receiveData, if_pos hlt]
      exact ⟨hpushed, id, .inl⟩
    | accepted =>
      simp only [receiveData, if_pos hlt]
      refine ⟨hpushed, fun hc => by simp [hc], fun hc => ?_⟩
      rw [Bool.or_eq_true, decide_eq_true_eq] at hc
      exact hc.imp_right fun hc => by push_cast at hc; omega
  · simp only [receiveData, if_neg hlt]
    exact ⟨fun _ => .inl, fun _ => trivial, fun _ => .inr (by omega)⟩

theorem Exchanging.deliver (h : Exchanging setup tr s) {i : ℕ} {answer : Scheduling}
    {o : Option Event} (hs : s.deliver setup i answer = some (s', o)) :
    Exchanging setup (tr ++ o.toList) s' := by
  obtain ⟨packet, hpacket, hs⟩ := Option.map_eq_some_iff.mp hs
  have hdropped : Exchanging setup (tr ++ [.lost]) { s with inFlight := s.inFlight.eraseIdx i } :=
    h.transit (fun _ => List.mem_of_mem_eraseIdx) _ (by simp) (by simp)
  split at hs
  · next p hp =>
    split at hs
    · cases hs
      obtain ⟨q, hsent, hsrc, hdst⟩ := h.inFlight packet (List.mem_of_getElem? hpacket)
      rw [hdst, setup.receiver?_endPoint] at hp
      obtain rfl := Option.some.inj hp
      set c := Words.ofBytes packet.data with hc
      obtain ⟨hsched, hkeep, hcomp⟩ := UdpPingPongApp.receiveData_spec setup.maxCounter answer
        packet.data packet.source (s.app q.other)
      have hgrown := h.mono (h.causal.received (p := q.other) (c := c) (by simpa using hsent))
      have hnew : Event.received q.other c ∈ tr ++ [.received q.other c] := by simp
      have hkept : ∀ p, (s.app p).completion = true → (Function.update s.app q.other
          ((s.app q.other).receiveData setup.maxCounter answer packet.data packet.source)
            p).completion = true := by
        intro p hp
        by_cases hpq : p = q.other
        · subst hpq
          simpa using hkeep hp
        · simpa [Function.update_of_ne hpq] using hp
      refine ⟨hgrown.causal, fun x hx => hgrown.inFlight x (List.mem_of_mem_eraseIdx hx),
        fun p call hmem => ?_, fun p hp => ?_, fun hl => hkept _ (h.waiting hl),
        fun hl => hkept _ (h.stopping hl)⟩
      · by_cases hpq : p = q.other
        · subst hpq
          simp only [Function.update_self] at hmem
          rcases hsched call hmem with hold | ⟨rfl, hle⟩
          · exact hgrown.scheduled _ call hold
          · exact ⟨by rw [hsrc, Peer.other_other], c, hnew, rfl, hle⟩
        · exact hgrown.scheduled p call (by simpa [Function.update_of_ne hpq] using hmem)
      · by_cases hpq : p = q.other
        · subst hpq
          simp only [Function.update_self] at hp
          rcases hcomp hp with hold | hlast
          · exact hgrown.completion _ hold
          · exact ⟨c, hnew, hlast⟩
        · exact hgrown.completion p (by simpa [Function.update_of_ne hpq] using hp)
    · cases hs
      exact hdropped
  · cases hs
    exact hdropped

/-- **The run lemma.** -/
theorem exchanging_of_run (h : Run (StepOf (Session.step setup)) Session.new tr s) :
    Exchanging setup tr s := by
  refine h.invariant (I := Exchanging setup) ⟨.nil, by simp [Session.new], by simp [Session.new],
    by simp [Session.new], by simp [Session.new], by simp [Session.new]⟩ ?_
  rintro tr s o s' - ih ⟨m, hs⟩
  cases m with
  | script => exact ih.script hs
  | execute => exact ih.execute hs
  | deliver => exact ih.deliver hs
  | lose i =>
    obtain ⟨packet, -, hs⟩ := Option.map_eq_some_iff.mp hs
    cases hs
    exact ih.transit (fun _ => List.mem_of_mem_eraseIdx) _ (by simp) (by simp)
  | duplicate i =>
    obtain ⟨packet, hpacket, hs⟩ := Option.map_eq_some_iff.mp hs
    cases hs
    refine ih.transit (fun x hmem => ?_) _ (by simp) (by simp)
    rcases List.mem_append.mp hmem with hmem | hmem
    · exact hmem
    · exact List.mem_singleton.mp hmem ▸ List.mem_of_getElem? hpacket

/-- **The script stops after the whole exchange.** In every run in which the
script comes to `network.stop()`, the maximum is at least 2 and fits four
bytes, and every number up to it was sent by its peer and received by the
other one, one after the other: whatever datagrams the network has lost,
duplicated and reordered, and whichever calls have raised. -/
theorem exchange_of_stop (h : Run (StepOf (Session.step setup)) Session.new tr s)
    (hstop : s.line = .stop) : 2 ≤ setup.maxCounter ∧ setup.maxCounter < 2 ^ 32 ∧
      (exchange setup.maxCounter.toNat).Sublist tr := by
  have hex := exchanging_of_run h
  obtain ⟨a, ha, hlasta⟩ := hex.completion .one (hex.waiting (.inr hstop))
  obtain ⟨b, hb, hlastb⟩ := hex.completion .two (hex.stopping hstop)
  obtain ⟨hca, hpa, hsuba⟩ := hex.causal.told.received _ _ ha
  obtain ⟨hcb, hpb, hsubb⟩ := hex.causal.told.received _ _ hb
  -- they are of different peers, so they are the last two numbers
  have hne : a ≠ b := by
    rintro rfl
    cases hpa.trans hpb.symm
  have hone : b ≠ 1 := by
    rintro rfl
    cases hpb
  have hle := hcb.le.resolve_left hone
  have := hca.pos
  have := hcb.pos
  have hlast : a = setup.maxCounter.toNat ∨ b = setup.maxCounter.toNat := by
    rcases hca.le with rfl | hle' <;> omega
  have hfits : setup.maxCounter.toNat < 2 ^ 32 := by
    rcases hlast with hlast | hlast
    · exact hlast ▸ hca.fits
    · exact hlast ▸ hcb.fits
  refine ⟨by omega, by omega, ?_⟩
  rcases hlast with hlast | hlast
  · exact hlast ▸ hsuba
  · exact hlast ▸ hsubb

end Runs

/-! ## Where nothing fails -/

/-- Nothing fails: every call returns, and no datagram is lost or duplicated. -/
def Move.reliable : Move → Bool
  | .script bindReturns answer => bindReturns && answer.passedOn && answer.returns
  | .execute _ _ answer => answer.passedOn && answer.returns
  | .deliver _ answer => decide (answer = .accepted)
  | .lose _ | .duplicate _ => false

/-- The steps in which nothing fails. -/
def Session.reliableStep (setup : Setup) (s : Session) (m : Move) :
    Option (Session × Option Event) :=
  if m.reliable then s.step setup m else none

theorem Session.reliableStep_eq_some {setup : Setup} {s : Session} {m : Move}
    {r : Session × Option Event} :
    s.reliableStep setup m = some r ↔ m.reliable = true ∧ s.step setup m = some r := by
  simp [reliableStep]

abbrev ReliableSteps (setup : Setup) : Session → Option Event → Session → Prop :=
  StepOf (Session.reliableStep setup)

/-- Nothing can happen any more if nothing fails. -/
def AtRest (setup : Setup) (s : Session) : Prop := ∀ m, s.reliableStep setup m = none

/-- The waits of the script that are over. -/
def Line.waited : Line → ℕ
  | .waitTwo => 1
  | .stop => 2
  | _ => 0

/-- The script is in its waits or has come to `stop`. -/
structure Waiting (app : Peer → UdpPingPongApp) (l : Line) : Prop where
  line : l = .waitOne ∨ l = .waitTwo ∨ l = .stop
  one : l ≠ .waitOne → (app .one).completion = true
  two : l = .stop → (app .two).completion = true

/-- The peer that is complete while the number `c` is on its way. -/
def completeAt (maxCounter : ℤ) (c : ℕ) (p : Peer) : Bool :=
  decide (2 ≤ c ∧ (c : ℤ) = maxCounter ∧ p = sender c)

/-- The number `c` is in flight, and nothing else. -/
structure Flying (setup : Setup) (c : ℕ) (app : Peer → UdpPingPongApp) (inFlight : List Packet) :
    Prop where
  counted : Counted setup.maxCounter c
  apps : ∀ p, app p = ⟨true, [], completeAt setup.maxCounter c p⟩
  inFlight : ∃ data, Words.ofBytes data = c ∧
    inFlight = [⟨setup.endPoint (sender c), setup.endPoint (sender c).other, data⟩]

/-- The call that sends the number `c` is scheduled, and nothing else. -/
structure Pending (setup : Setup) (c : ℕ) (app : Peer → UdpPingPongApp) (inFlight : List Packet) :
    Prop where
  two_le : 2 ≤ c
  le : (c : ℤ) ≤ setup.maxCounter
  apps : ∀ p, app p = ⟨true, if p = sender c then [(setup.endPoint (sender c).other, c)] else [],
    completeAt setup.maxCounter c p⟩
  inFlight : inFlight = []

/-- Nothing is on its way any more. -/
structure Over (setup : Setup) (app : Peer → UdpPingPongApp) (inFlight : List Packet) : Prop where
  scheduled : ∀ p, (app p).scheduled = []
  inFlight : inFlight = []
  complete : (∀ p, (app p).completion = true) ↔
    2 ≤ setup.maxCounter ∧ setup.maxCounter < 2 ^ 32

/-- **Where a session is after `k` steps**: in its two first lines, with one
number in flight or about to be sent, or at its end. -/
inductive Phase (setup : Setup) (k : ℕ) (s : Session) : Prop
  | first (hs : s = Session.new) (hk : k = 0)
  | second (hs : s = { Session.new.listen .one with line := .startTwo }) (hk : k = 1)
  | flying {c : ℕ} (h : Flying setup c s.app s.inFlight) (hw : Waiting s.app s.line)
      (hk : k = 2 * c + s.line.waited)
  | pending {c : ℕ} (h : Pending setup c s.app s.inFlight) (hw : Waiting s.app s.line)
      (hk : k + 1 = 2 * c + s.line.waited)
  | ended (h : Over setup s.app s.inFlight) (hw : Waiting s.app s.line)
      (hk : k ≤ 2 * max 1 setup.maxCounter.toNat + 1 + s.line.waited)

section Reliable

variable {setup : Setup} {s s' : Session} {o : Option Event} {k c : ℕ} {m : Move}

/-- A line of the script in its waits. -/
theorem Waiting.script {bindReturns : Bool} {answer : Sending} (hw : Waiting s.app s.line)
    (hs : s.script setup bindReturns answer = some (s', o)) :
    s'.app = s.app ∧ s'.inFlight = s.inFlight ∧ Waiting s'.app s'.line ∧
      s'.line.waited = s.line.waited + 1 ∧ o = some .script := by
  unfold Session.script at hs
  rcases hw.line with hl | hl | hl
  · rw [hl] at hs ⊢
    simp only at hs
    split at hs
    · next hone =>
      cases hs
      exact ⟨rfl, rfl, ⟨by simp, fun _ => hone, fun hl => by cases hl⟩, rfl, rfl⟩
    · cases hs
  · rw [hl] at hs ⊢
    simp only at hs
    split at hs
    · next htwo =>
      cases hs
      exact ⟨rfl, rfl, ⟨by simp, fun _ => hw.one (by simp [hl]), fun _ => htwo⟩, rfl, rfl⟩
    · cases hs
  · rw [hl] at hs
    cases hs

/-- What is complete stays so. -/
theorem Waiting.mono {app app' : Peer → UdpPingPongApp} {l : Line} (hw : Waiting app l)
    (h : ∀ p, (app p).completion = true → (app' p).completion = true) : Waiting app' l :=
  ⟨hw.line, fun hl => h _ (hw.one hl), fun hl => h _ (hw.two hl)⟩

theorem completeAt_other : completeAt setup.maxCounter c (sender c).other = false := by
  simp [completeAt, Peer.other_ne]

/-- A peer is one of the two. -/
theorem Peer.eq_or_eq_other (p q : Peer) : p = q ∨ p = q.other := by
  cases p <;> cases q <;> simp [other]

/-- `_receive_data` of a peer that has nothing to do yet. -/
theorem receiveData_idle {data : List UInt8} {source : EndPoint} (hdata : Words.ofBytes data = c) :
    UdpPingPongApp.receiveData setup.maxCounter .accepted data source ⟨true, [], false⟩ =
      if (c : ℤ) < setup.maxCounter then
        ⟨true, [(source, c + 1)], decide (((c + 1 : ℕ) : ℤ) = setup.maxCounter)⟩
      else ⟨true, [], true⟩ := by
  simp [UdpPingPongApp.receiveData, hdata]

/-- **A number arrives**: it is answered, or it was the last one. -/
theorem Flying.deliver (h : Flying setup c s.app s.inFlight) {i : ℕ}
    (hs : s.deliver setup i .accepted = some (s', o)) :
    (Pending setup (c + 1) s'.app s'.inFlight ∨
      Over setup s'.app s'.inFlight ∧ c ≤ max 1 setup.maxCounter.toNat) ∧
    s'.line = s.line ∧ (∀ p, (s.app p).completion = true → (s'.app p).completion = true) ∧
    o = some (.received (sender c).other c) := by
  obtain ⟨data, hdata, hin⟩ := h.inFlight
  obtain ⟨packet, hpacket, hs⟩ := Option.map_eq_some_iff.mp hs
  rw [hin] at hpacket
  obtain rfl : i = 0 := by
    cases i with
    | zero => rfl
    | succ i => simp at hpacket
  obtain rfl := Option.some.inj hpacket
  simp only [setup.receiver?_endPoint, h.apps, if_true, hin, List.eraseIdx_zero, List.tail_cons,
    completeAt_other, hdata, receiveData_idle hdata] at hs
  have hpos := h.counted.pos
  by_cases hlt : (c : ℤ) < setup.maxCounter
  · simp only [if_pos hlt] at hs
    cases hs
    have hnone : ∀ p, completeAt setup.maxCounter c p = false := by
      intro p
      simp only [completeAt, decide_eq_false_iff_not]
      omega
    refine ⟨.inl ⟨by omega, by push_cast; omega, fun p => ?_, rfl⟩, rfl, fun p hp => ?_, rfl⟩
    · rcases p.eq_or_eq_other (sender c) with rfl | rfl
      · have hlater : completeAt setup.maxCounter (c + 1) (sender c) = false := by
          simp [completeAt, sender, (Peer.other_ne _).symm]
        simp [h.apps, hnone, hlater, sender, (Peer.other_ne _).symm]
      · simp [completeAt, sender, hpos]
    · simp [h.apps, hnone] at hp
  · simp only [if_neg hlt] at hs
    cases hs
    have hle : c ≤ max 1 setup.maxCounter.toNat := by
      rcases h.counted.le with rfl | hle <;> omega
    refine ⟨.inr ⟨⟨fun p => ?_, rfl, ?_⟩, hle⟩, rfl, fun p hp => ?_, rfl⟩
    · rcases p.eq_or_eq_other (sender c) with rfl | rfl
      · simp [Function.update_of_ne (Peer.other_ne _).symm, h.apps]
      · simp
    · -- the receiver is complete, and the sender is if this was the maximum
      have hboth : (∀ p, (Function.update s.app (sender c).other ⟨true, [], true⟩ p).completion =
          true) ↔ 2 ≤ c ∧ (c : ℤ) = setup.maxCounter := by
        constructor
        · intro hall
          have hsender := hall (sender c)
          rw [Function.update_of_ne (Peer.other_ne _).symm, h.apps] at hsender
          have hcomplete := of_decide_eq_true hsender
          exact ⟨hcomplete.1, hcomplete.2.1⟩
        · rintro ⟨h2, heq⟩ p
          rcases p.eq_or_eq_other (sender c) with rfl | rfl
          · rw [Function.update_of_ne (Peer.other_ne _).symm, h.apps]
            exact decide_eq_true ⟨h2, heq, rfl⟩
          · simp
      rw [hboth]
      have hfits := h.counted.fits
      constructor
      · rintro ⟨h2, heq⟩
        omega
      · rintro ⟨h2, -⟩
        rcases h.counted.le with rfl | hle <;> omega
    · by_cases hp' : p = (sender c).other
      · subst hp'
        simp
      · simpa [Function.update_of_ne hp'] using hp

/-- **A scheduled call is made**: the number is in flight, or it was too large. -/
theorem Pending.execute (h : Pending setup c s.app s.inFlight) {p : Peer} {i : ℕ}
    {answer : Sending} (hpass : answer.passedOn = true)
    (hs : s.execute setup p i answer = some (s', o)) :
    (Flying setup c s'.app s'.inFlight ∨ Over setup s'.app s'.inFlight) ∧ s'.line = s.line ∧
      (∀ p, (s'.app p).completion = (s.app p).completion) ∧ o.isSome = true := by
  obtain ⟨⟨dst, d⟩, hcall, hs⟩ := Option.map_eq_some_iff.mp hs
  rw [h.apps] at hcall
  by_cases hp : p = sender c
  · subst hp
    simp only [if_true] at hcall
    obtain rfl : i = 0 := by
      cases i with
      | zero => rfl
      | succ i => simp at hcall
    obtain ⟨rfl, rfl⟩ := Prod.mk.inj (Option.some.inj hcall)
    have happs : ∀ p, Function.update s.app (sender c)
        { s.app (sender c) with scheduled := (s.app (sender c)).scheduled.eraseIdx 0 } p =
        ⟨true, [], completeAt setup.maxCounter c p⟩ := by
      intro p
      by_cases hp : p = sender c
      · subst hp
        simp [h.apps]
      · simp [h.apps, hp]
    have hkeeps : ∀ p, (Function.update s.app (sender c)
        { s.app (sender c) with scheduled := (s.app (sender c)).scheduled.eraseIdx 0 }
          p).completion = (s.app p).completion := fun p => by rw [happs, h.apps]
    have h2 := h.two_le
    have hle := h.le
    cases hdata : Words.toBytes 4 c with
    | some data =>
      simp only [sendPing, hdata, hpass, if_true] at hs
      cases hs
      have hfits : c < 2 ^ 32 := Words.toBytes_isSome.mp (by rw [hdata]; rfl)
      refine ⟨.inl ⟨⟨by omega, .inr hle, hfits⟩, happs, data, Words.ofBytes_of_toBytes hdata, ?_⟩,
        rfl, hkeeps, rfl⟩
      simp [h.inFlight]
    | none =>
      simp only [sendPing, hdata] at hs
      cases hs
      have hlarge : ¬ c < 2 ^ 32 := fun hfits => by
        have := Words.toBytes_isSome (k := 4).mpr hfits
        simp [hdata] at this
      refine ⟨.inr ⟨fun p => congrArg UdpPingPongApp.scheduled (happs p), by simp [h.inFlight], ?_⟩,
        rfl, hkeeps, rfl⟩
      constructor
      · intro hall
        have hother := congrArg UdpPingPongApp.completion (happs (sender c).other)
        rw [completeAt_other] at hother
        cases hother.symm.trans (hall (sender c).other)
      · omega
  · simp [hp] at hcall

/-- **The second line** sends the first number. -/
theorem flying_of_second {bindReturns : Bool} {answer : Sending}
    (hm : (Move.script bindReturns answer).reliable = true)
    (hs : Session.script setup bindReturns answer
      { Session.new.listen .one with line := .startTwo } = some (s', o)) :
    Flying setup 1 s'.app s'.inFlight ∧ s'.line = .waitOne ∧ o.isSome = true := by
  obtain ⟨⟨rfl, hpass⟩, hreturns⟩ : (bindReturns = true ∧ answer.passedOn = true) ∧
      answer.returns = true := by
    simpa [Move.reliable] using hm
  have hbytes := Words.toBytes_isSome (k := 4) (n := 1).mpr (by decide)
  obtain ⟨data, hdata⟩ := Option.isSome_iff_exists.mp hbytes
  simp only [Session.script, sendPing, hdata, hpass, hreturns, if_true] at hs
  cases hs
  refine ⟨⟨⟨le_rfl, .inl rfl, by decide⟩, fun p => ?_, data, Words.ofBytes_of_toBytes hdata, rfl⟩,
    rfl, rfl⟩
  cases p <;> simp [Session.listen, Session.new, completeAt]

/-- **The step lemma.** -/
theorem Phase.step (h : Phase setup k s) (hs : ReliableSteps setup s o s') :
    Phase setup (k + 1) s' ∧ o.isSome = true := by
  obtain ⟨m, hs⟩ := hs
  obtain ⟨hm, hs⟩ := Session.reliableStep_eq_some.mp hs
  cases h with
  | first hnew hk =>
    subst hnew hk
    cases m with
    | script bindReturns answer =>
      obtain ⟨⟨rfl, -⟩, -⟩ : (bindReturns = true ∧ answer.passedOn = true) ∧
          answer.returns = true := by
        simpa [Move.reliable] using hm
      cases hs
      exact ⟨.second rfl rfl, rfl⟩
    | execute | deliver => simp [Session.step, Session.execute, Session.deliver, Session.new] at hs
    | lose | duplicate => cases hm
  | second hnew hk =>
    subst hnew hk
    cases m with
    | script bindReturns answer =>
      obtain ⟨hflying, hl, ho⟩ := flying_of_second hm hs
      exact ⟨.flying hflying ⟨.inl hl, by simp [hl], by simp [hl]⟩ (by simp [hl, Line.waited]), ho⟩
    | execute p =>
      cases p <;> simp [Session.step, Session.execute, Session.new, Session.listen] at hs
    | deliver => simp [Session.step, Session.deliver, Session.new, Session.listen] at hs
    | lose | duplicate => cases hm
  | flying h hw hk =>
    cases m with
    | script =>
      obtain ⟨happ, hin, hw', hwaited, rfl⟩ := hw.script hs
      exact ⟨.flying (by rwa [happ, hin]) hw' (by omega), rfl⟩
    | execute => simp [Session.step, Session.execute, h.apps] at hs
    | deliver i answer =>
      obtain rfl : answer = .accepted := by simpa [Move.reliable] using hm
      obtain ⟨hnext, hline, hmono, rfl⟩ := h.deliver hs
      have hw' : Waiting s'.app s'.line := hline ▸ hw.mono hmono
      refine ⟨?_, rfl⟩
      rcases hnext with hpending | ⟨hover, hle⟩
      · exact .pending hpending hw' (by rw [hline]; omega)
      · exact .ended hover hw' (by rw [hline]; omega)
    | lose | duplicate => cases hm
  | @pending c h hw hk =>
    cases m with
    | script =>
      obtain ⟨happ, hin, hw', hwaited, rfl⟩ := hw.script hs
      exact ⟨.pending (by rwa [happ, hin]) hw' (by omega), rfl⟩
    | execute p i answer =>
      have hpass : answer.passedOn = true := by
        simp only [Move.reliable, Bool.and_eq_true] at hm
        exact hm.1
      obtain ⟨hnext, hline, hkeeps, ho⟩ := h.execute hpass hs
      have hw' : Waiting s'.app s'.line := hline ▸ hw.mono fun p hp => (hkeeps p).trans hp
      refine ⟨?_, ho⟩
      have hle := h.le
      rcases hnext with hflying | hover
      · exact .flying hflying hw' (by rw [hline]; omega)
      · exact .ended hover hw' (by rw [hline]; omega)
    | deliver => simp [Session.step, Session.deliver, h.inFlight] at hs
    | lose | duplicate => cases hm
  | ended h hw hk =>
    cases m with
    | script =>
      obtain ⟨happ, hin, hw', hwaited, rfl⟩ := hw.script hs
      exact ⟨.ended (by rwa [happ, hin]) hw' (by omega), rfl⟩
    | execute => simp [Session.step, Session.execute, h.scheduled] at hs
    | deliver => simp [Session.step, Session.deliver, h.inFlight] at hs
    | lose | duplicate => cases hm

/-- **The run lemma**: the steps of a run are as many as its events. -/
theorem phase_of_run {tr : List Event} (h : Run (ReliableSteps setup) Session.new tr s) :
    Phase setup tr.length s := by
  refine h.invariant (I := fun tr s => Phase setup tr.length s) (.first rfl rfl) ?_
  rintro tr s o s' - ih hs
  obtain ⟨hphase, ho⟩ := ih.step hs
  obtain ⟨e, rfl⟩ := Option.isSome_iff_exists.mp ho
  simpa using hphase

theorem Line.waited_le (l : Line) : l.waited ≤ 2 := by cases l <;> simp [waited]

theorem Phase.le (h : Phase setup k s) : k ≤ 2 * max 1 setup.maxCounter.toNat + 3 := by
  have hwaited := s.line.waited_le
  cases h with
  | first hs hk | second hs hk => omega
  | flying h hw hk =>
    have := h.counted.pos
    rcases h.counted.le with rfl | hle <;> omega
  | pending h hw hk =>
    have := h.le
    omega
  | ended h hw hk => omega

/-- A session at rest is at its end. -/
theorem Phase.over_of_rest (h : Phase setup k s) (hrest : AtRest setup s) :
    Over setup s.app s.inFlight ∧ Waiting s.app s.line := by
  cases h with
  | first hnew | second hnew =>
    subst hnew
    cases hrest (.script true ⟨true, true⟩)
  | flying h =>
    obtain ⟨data, -, hin⟩ := h.inFlight
    simpa [Session.reliableStep, Move.reliable, Session.step, Session.deliver, hin] using
      hrest (.deliver 0 .accepted)
  | @pending c h =>
    simpa [Session.reliableStep, Move.reliable, Session.step, Session.execute, h.apps] using
      hrest (.execute (sender c) 0 ⟨true, true⟩)
  | ended h hw => exact ⟨h, hw⟩

/-- **Where nothing fails the script comes to an end**, after two steps for each
number and the four lines of the script at most; and then it has come to
`network.stop()` if and only if the maximum is at least 2 and fits four
bytes. Otherwise it is in one of its two waits for ever: for a maximum below 2
since the second peer receives nothing, and for one of more than four bytes
since `to_bytes` raises where nobody looks at the result. -/
theorem reliable_stop_iff {tr : List Event} (h : Run (ReliableSteps setup) Session.new tr s) :
    tr.length ≤ 2 * max 1 setup.maxCounter.toNat + 3 ∧
      (AtRest setup s →
        (s.line = .stop ↔ 2 ≤ setup.maxCounter ∧ setup.maxCounter < 2 ^ 32) ∧
        (s.line ≠ .stop → s.line = .waitOne ∨ s.line = .waitTwo)) := by
  have hphase := phase_of_run h
  refine ⟨hphase.le, fun hrest => ?_⟩
  obtain ⟨hover, hw⟩ := hphase.over_of_rest hrest
  refine ⟨?_, fun hne => ?_⟩
  swap
  · rcases hw.line with hl | hl | hl
    · exact .inl hl
    · exact .inr hl
    · exact absurd hl hne
  rw [← hover.complete]
  have hscript : s.step setup (.script true ⟨true, true⟩) = none :=
    hrest (.script true ⟨true, true⟩)
  constructor
  · rintro hstop (_ | _)
    · exact hw.one (by simp [hstop])
    · exact hw.two hstop
  · intro hall
    rcases hw.line with hl | hl | hl
    · simp [Session.step, Session.script, hl, hall] at hscript
    · simp [Session.step, Session.script, hl, hall] at hscript
    · exact hl

end Reliable

/-! ## An exchange of two numbers -/

/-- The end points of the script, with a maximum. -/
def peers (maxCounter : ℤ) : Setup where
  maxCounter := maxCounter
  endPoint
    | .one => (⟨0x0102037f⟩, 1000)
    | .two => (⟨0x0202037f⟩, 2000)
  distinct := by decide

/-- The first datagram is duplicated, and the answer to the duplicate lost. -/
def duplicated : Session × List Event :=
  outcome (Session.step (peers 2)) Session.new
    [.script true ⟨true, true⟩, .script true ⟨true, true⟩, .duplicate 0, .deliver 0 .accepted,
      .deliver 0 .accepted, .execute .one 1 ⟨true, true⟩, .execute .one 0 ⟨true, true⟩, .lose 0,
      .script true ⟨true, true⟩, .deliver 0 .accepted, .script true ⟨true, true⟩]
    (by decide +kernel)

theorem exchange_of_stop_duplicated :
    [.sent .two 1, .received .one 1, .sent .one 2, .received .two 2].Sublist duplicated.2 := by
  have hrun : Run (StepOf (Session.step (peers 2))) Session.new duplicated.2 duplicated.1 :=
    run_outcome _ _ _ _
  exact (exchange_of_stop hrun (by decide +kernel)).2.2

/-- Nothing fails. -/
def undisturbed : Session × List Event :=
  outcome (Session.reliableStep (peers 2)) Session.new
    [.script true ⟨true, true⟩, .script true ⟨true, true⟩, .deliver 0 .accepted,
      .execute .one 0 ⟨true, true⟩, .deliver 0 .accepted, .script true ⟨true, true⟩,
      .script true ⟨true, true⟩] (by decide +kernel)

theorem reliable_stop_undisturbed :
    AtRest (peers 2) undisturbed.1 ∧ undisturbed.2.length = 7 ∧ undisturbed.1.line = .stop := by
  have hrun : Run (ReliableSteps (peers 2)) Session.new undisturbed.2 undisturbed.1 :=
    run_outcome _ _ _ _
  have hline : undisturbed.1.line = .stop := by decide +kernel
  have hin : undisturbed.1.inFlight = [] := by decide +kernel
  have hsched : ∀ p, (undisturbed.1.app p).scheduled = [] := by
    rintro (_ | _) <;> decide +kernel
  have hrest : AtRest (peers 2) undisturbed.1 := by
    intro m
    cases m <;> simp [Session.reliableStep, Session.step, Session.script, Session.execute,
      Session.deliver, hline, hin, hsched]
  exact ⟨hrest, by decide +kernel, ((reliable_stop_iff hrun).2 hrest).1.mpr (by decide)⟩

end PingPong

end PyLwip
