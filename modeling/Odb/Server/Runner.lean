import Odb.Lib.Machine
import Odb.Server.ClientHandler

/-!
# `DataClientServerRunner` (`server/data-client-handler.cc`)

The runner thread receives requests and sends responses; the main thread, in the calls of
`DataClientHandler`, executes the requests. They share `_state`, `_stop`, `_in` and `_out`. Each
step is one access to an atomic, or one call of the transport; the transport may fail at any call,
and the steps of the two threads come in any order.

* `RunnerStep`, `MainStep`: the two threads.
* `Inv`: what always holds, with a place for every thread.
* `one_response_per_request`: the buffers have one owner at a time, and the responses are sent in
  the order of the requests.
-/

namespace Odb

namespace DataClientServerRunner

/-- `DataClientServerRunner::State`. -/
inductive State where
  | connecting
  | noReq
  | sendingRes
  | hasReq
  | error
deriving DecidableEq, Repr

/-- Where the runner thread is in `loop()`. -/
inductive RunnerPc where
  /-- `start()` was not called yet. -/
  | unborn
  /-- In `_serv->connect()`. -/
  | connect
  /-- Before the first `_state = NO_REQ`. -/
  | connected
  /-- At the test of `while (!_stop)`. -/
  | loop
  /-- In `_serv->recv_data(_in)`. -/
  | recv
  /-- Before `_state = HAS_REQ`. -/
  | received
  /-- At `!_stop` of the waiting loop. -/
  | waitStop
  /-- At `_state == HAS_REQ` of the waiting loop. -/
  | waitState
  /-- At `if (_stop)` after it. -/
  | waited
  /-- At the assertion of `SENDING_RES`. -/
  | check
  /-- In `_serv->send_data(_out)`. -/
  | send
  /-- Before the last `_state = NO_REQ`. -/
  | sent
  /-- In `stop()`, before `_stop = true`. -/
  | stop
  /-- In `stop()`, before `_state = ERROR`. -/
  | stopState
  | done
  /-- An assertion failed. -/
  | failed
deriving DecidableEq, Repr

/-- The two functions that execute requests. -/
inductive Kind where
  | runCommand
  | checkStopped
deriving DecidableEq, Repr

/-- Where the main thread is in the calls of `DataClientHandler`. -/
inductive MainPc where
  /-- In none of them. -/
  | idle
  /-- At `setup_connection()`. -/
  | setup
  /-- In `start()`, before `_stop = false`. -/
  | startStop
  /-- In `start()`, before `_state = CONNECTING`. -/
  | startState
  /-- In `start()`, before it creates the thread. -/
  | startThread
  /-- At `state() == CONNECTING`. -/
  | testConnecting
  /-- At `state() == ERROR` of `setup_connection`. -/
  | testError
  /-- At `state() != HAS_REQ` of the loop of `run_command`. -/
  | waitReq
  /-- At `state() != ERROR` of that loop. -/
  | waitError
  /-- At `state() != HAS_REQ` of `check_stopped`. -/
  | pollReq
  /-- At `state() == ERROR` of `run_command` and `check_stopped`. -/
  | ifError (kind : Kind)
  /-- At the assertion of `get_req()`. -/
  | getReq (kind : Kind)
  /-- At the assertion of `get_res()`. -/
  | getRes (kind : Kind)
  /-- At `os.reset()`. -/
  | reset (kind : Kind)
  /-- Reads `_in`, executes the request and writes `_out`. -/
  | execute (kind : Kind)
  /-- At the assertion of `signal_res()`. -/
  | signal
  /-- In `signal_res()`, before `_state = SENDING_RES`. -/
  | signalState
  /-- An assertion failed. -/
  | failed
deriving DecidableEq, Repr

/-- What the two threads share, and where they are. -/
structure Threads where
  runner : RunnerPc
  main : MainPc
  state : State
  stop : Bool
  inBuff : Bytes
  outBuff : Bytes
  /-- `ClientHandler::_state` of the `DataClientHandler`. -/
  client : ClientState
  /-- The messages received. -/
  received : List Bytes
  /-- The requests executed, each with its complete response. -/
  answered : List (Bytes × Bytes)
  /-- The messages sent. -/
  sent : List Bytes

/-- A step of the runner thread. -/
inductive RunnerStep : Threads → Threads → Prop where
  | connect {t : Threads} : t.runner = .connect → RunnerStep t { t with runner := .connected }
  | connectFails {t : Threads} : t.runner = .connect → RunnerStep t { t with runner := .stop }
  | connected {t : Threads} : t.runner = .connected →
      RunnerStep t { t with state := .noReq, runner := .loop }
  | loop {t : Threads} : t.runner = .loop →
      RunnerStep t { t with runner := if t.stop then .done else .recv }
  | recv {t : Threads} (m : Bytes) : t.runner = .recv →
      RunnerStep t { t with inBuff := m, received := t.received ++ [m], runner := .received }
  | recvFails {t : Threads} (m : Bytes) : t.runner = .recv →
      RunnerStep t { t with inBuff := m, runner := .stop } -- with a part of a message
  | received {t : Threads} : t.runner = .received →
      RunnerStep t { t with state := .hasReq, runner := .waitStop }
  | waitStop {t : Threads} : t.runner = .waitStop →
      RunnerStep t { t with runner := if t.stop then .waited else .waitState }
  | waitState {t : Threads} : t.runner = .waitState →
      RunnerStep t { t with runner := if t.state = .hasReq then .waitStop else .waited }
  | waited {t : Threads} : t.runner = .waited →
      RunnerStep t { t with runner := if t.stop then .done else .check }
  | check {t : Threads} : t.runner = .check →
      RunnerStep t { t with runner := if t.state = .sendingRes then .send else .failed }
  | send {t : Threads} : t.runner = .send →
      RunnerStep t { t with sent := t.sent ++ [t.outBuff], runner := .sent }
  | sendFails {t : Threads} : t.runner = .send → RunnerStep t { t with runner := .stop }
  | sent {t : Threads} : t.runner = .sent →
      RunnerStep t { t with state := .noReq, runner := .loop }
  | stop {t : Threads} : t.runner = .stop →
      RunnerStep t { t with stop := true, runner := .stopState }
  | stopState {t : Threads} : t.runner = .stopState →
      RunnerStep t { t with state := .error, runner := .done }

/-- A step of the main thread. `serve kind d req d' res`: with the request `req` in `_in`, the
switch of a function takes the debugger from `d` to `d'` and leaves the response `res` in `_out`. -/
inductive MainStep {D : Type} (serve : Kind → D → Bytes → D → Bytes → Prop) :
    Threads → D → Threads → D → Prop where
  | callSetup {t : Threads} {d : D} : t.main = .idle →
      MainStep serve t d { t with main := .setup } d
  | callRunCommand {t : Threads} {d : D} : t.main = .idle → t.runner ≠ .unborn →
      MainStep serve t d { t with main := .waitReq } d
  | callCheckStopped {t : Threads} {d : D} : t.main = .idle → t.runner ≠ .unborn →
      MainStep serve t d { t with main := .pollReq } d
  | setup {t : Threads} {d : D} : t.main = .setup →
      MainStep serve t d
        { t with main := if t.runner = .unborn then .startStop else .testConnecting } d
  | startStop {t : Threads} {d : D} : t.main = .startStop →
      MainStep serve t d { t with stop := false, main := .startState } d
  | startState {t : Threads} {d : D} : t.main = .startState →
      MainStep serve t d { t with state := .connecting, main := .startThread } d
  | startThread {t : Threads} {d : D} : t.main = .startThread →
      MainStep serve t d { t with runner := .connect, main := .testConnecting } d
  | testConnecting {t : Threads} {d : D} : t.main = .testConnecting →
      MainStep serve t d
        { t with main := if t.state = .connecting then .idle else .testError } d
  | testError {t : Threads} {d : D} : t.main = .testError →
      MainStep serve t d { t with
        client := if t.state = .error then .disconnected else .connected
        main := .idle } d
  | waitReq {t : Threads} {d : D} : t.main = .waitReq →
      MainStep serve t d
        { t with main := if t.state ≠ .hasReq then .waitError else .ifError .runCommand } d
  | waitError {t : Threads} {d : D} : t.main = .waitError →
      MainStep serve t d
        { t with main := if t.state ≠ .error then .waitReq else .ifError .runCommand } d
  | pollReq {t : Threads} {d : D} : t.main = .pollReq →
      MainStep serve t d
        { t with main := if t.state ≠ .hasReq then .idle else .ifError .checkStopped } d
  | ifError {t : Threads} {d : D} {kind : Kind} : t.main = .ifError kind →
      MainStep serve t d (if t.state = .error then { t with client := .disconnected, main := .idle }
        else { t with main := .getReq kind }) d
  | getReq {t : Threads} {d : D} {kind : Kind} : t.main = .getReq kind →
      MainStep serve t d { t with main := if t.state = .hasReq then .getRes kind else .failed } d
  | getRes {t : Threads} {d : D} {kind : Kind} : t.main = .getRes kind →
      MainStep serve t d { t with main := if t.state = .hasReq then .reset kind else .failed } d
  | reset {t : Threads} {d : D} {kind : Kind} : t.main = .reset kind →
      MainStep serve t d { t with outBuff := [], main := .execute kind } d
  | write {t : Threads} {d : D} {kind : Kind} (part : Bytes) : t.main = .execute kind →
      MainStep serve t d { t with outBuff := part } d
  | execute {t : Threads} {d d' : D} {kind : Kind} {res : Bytes} : t.main = .execute kind →
      serve kind d t.inBuff d' res →
      MainStep serve t d { t with
        outBuff := res
        answered := t.answered ++ [(t.inBuff, res)]
        main := .signal } d'
  | signal {t : Threads} {d : D} : t.main = .signal →
      MainStep serve t d
        { t with main := if t.state = .hasReq then .signalState else .failed } d
  | signalState {t : Threads} {d : D} : t.main = .signalState →
      MainStep serve t d { t with state := .sendingRes, main := .idle } d

/-- The handler when it is built: `_stop` and `_state` have no value yet. -/
structure Built (t : Threads) : Prop where
  runner : t.runner = .unborn
  main : t.main = .idle
  client : t.client = .notConnected
  received : t.received = []
  answered : t.answered = []
  sent : t.sent = []

/-- The two threads over the debugger. -/
def machine {D : Type} (serve : Kind → D → Bytes → D → Bytes → Prop) : Machine (Threads × D) where
  Init s := Built s.1
  Step s s' := (RunnerStep s.1 s'.1 ∧ s'.2 = s.2) ∨ MainStep serve s.1 s.2 s'.1 s'.2

/-! ## The invariant -/

/-- What `_state` may be where the runner thread is. -/
def StateAt : RunnerPc → State → Prop
  | .unborn, _ => True
  | .connect, s | .connected, s => s = .connecting
  | .loop, s | .recv, s | .received, s => s = .noReq
  | .waitStop, s | .waitState, s => s = .hasReq ∨ s = .sendingRes
  | .waited, s | .check, s | .send, s | .sent, s => s = .sendingRes
  | .stop, s | .stopState, s => s ≠ .hasReq ∧ s ≠ .error
  | .done, s => s = .error
  | .failed, _ => False

/-- The main thread saw `HAS_REQ` and did not signal the response yet. -/
def MainPc.Owns : MainPc → Prop
  | .getReq _ | .getRes _ | .reset _ | .execute _ | .signal | .signalState => True
  | _ => False

/-- The main thread has written the response. -/
def MainPc.Wrote : MainPc → Prop
  | .signal | .signalState => True
  | _ => False

/-- The main thread reads `_in` or writes `_out`. -/
def MainPc.Buffers : MainPc → Prop
  | .reset _ | .execute _ => True
  | _ => False

/-- The main thread is in no call, or it starts the runner. -/
def MainPc.Starts : MainPc → Prop
  | .idle | .setup | .startStop | .startState | .startThread => True
  | _ => False

instance (p : MainPc) : Decidable p.Wrote := by
  cases p <;> unfold MainPc.Wrote <;> infer_instance

theorem MainPc.Wrote.owns {p : MainPc} (h : p.Wrote) : p.Owns := by
  cases p <;> trivial

/-- What the last message received waits for. -/
inductive Stage where
  /-- It was answered, or there is none. -/
  | none
  /-- It is in `_in`. -/
  | request
  /-- Its response is in `_out`. -/
  | response
  /-- The transport failed. -/
  | lost
deriving DecidableEq, Repr

def stage (t : Threads) : Stage :=
  match t.runner with
  | .received => .request
  | .waitStop | .waitState =>
    if t.state = .hasReq ∧ ¬ t.main.Wrote then .request else .response
  | .waited | .check | .send => .response
  | .stop | .stopState | .done => .lost
  | _ => .none

/-- The requests executed are those received, and the responses sent are theirs. -/
def Ledger (t : Threads) : Prop :=
  match stage t with
  | .none => t.received = t.answered.map Prod.fst ∧ t.sent = t.answered.map Prod.snd
  | .request => t.received = t.answered.map Prod.fst ++ [t.inBuff] ∧
      t.sent = t.answered.map Prod.snd
  | .response => t.received = t.answered.map Prod.fst ∧
      t.answered.map Prod.snd = t.sent ++ [t.outBuff]
  | .lost => t.received = t.answered.map Prod.fst ∧ t.sent <+: t.answered.map Prod.snd ∧
      t.answered.length ≤ t.sent.length + 1

/-- What holds in every state of the two threads. -/
structure Inv (t : Threads) : Prop where
  /-- `start()` is called once. -/
  starts : (t.runner = .unborn → t.main.Starts) ∧
    (t.main = .startStop ∨ t.main = .startState ∨ t.main = .startThread → t.runner = .unborn) ∧
    (t.main = .startState ∨ t.main = .startThread → t.stop = false) ∧
    (t.main = .startThread → t.state = .connecting)
  state : StateAt t.runner t.state
  stop : t.runner ≠ .unborn → (t.stop = true ↔ t.runner = .stopState ∨ t.runner = .done)
  owns : t.main.Owns → t.state = .hasReq
  ifError : ∀ kind, t.main = .ifError kind → t.state = .hasReq ∨ t.state = .error
  alive : t.main ≠ .failed
  ledger : Ledger t

theorem Built.inv {t : Threads} (h : Built t) : Inv t := by
  obtain ⟨h1, h2, -, h3, h4, h5⟩ := h
  constructor <;> simp [Ledger, stage, StateAt, MainPc.Starts, MainPc.Owns, *]

/-- The runner waits while the main thread has a request. -/
theorem Inv.waits {t : Threads} (hi : Inv t) (h : t.main.Owns) :
    t.state = .hasReq ∧ (t.runner = .waitStop ∨ t.runner = .waitState) := by
  have hstate := hi.state
  have hstarts := hi.starts.1
  have hhas := hi.owns h
  refine ⟨hhas, ?_⟩
  cases hr : t.runner <;> simp_all [StateAt]
  cases hm : t.main <;> simp_all [MainPc.Owns, MainPc.Starts]

/-- A step of the main thread that writes nothing. -/
theorem Inv.goto {t : Threads} (hi : Inv t) {p : MainPc} {c : ClientState}
    (hstarts : p.Starts ∧ p ≠ .startStop ∧ p ≠ .startState ∧ p ≠ .startThread ∨
      t.runner ≠ .unborn ∧ ¬ p.Starts)
    (howns : p.Owns → t.state = .hasReq)
    (herr : ∀ kind, p = .ifError kind → t.state = .hasReq ∨ t.state = .error)
    (halive : p ≠ .failed) (hwrote : p.Wrote ↔ t.main.Wrote) :
    Inv { t with main := p, client := c } where
  starts := by
    rcases hstarts with ⟨h, h1, h2, h3⟩ | ⟨hr, h⟩
    · simp [h, h1, h2, h3]
    · refine ⟨fun hu => absurd hu hr, ?_⟩
      cases p <;> simp_all [MainPc.Starts]
  state := hi.state
  stop := hi.stop
  owns := howns
  ifError := herr
  alive := halive
  ledger := by
    have := hi.ledger
    unfold Ledger stage at *
    simpa only [hwrote] using this

/-- Every step of the runner thread keeps the invariant: what it does to `_state` and to the buffers
is what its place says. -/
theorem RunnerStep.inv {t t' : Threads} (h : RunnerStep t t') (hi : Inv t) : Inv t' := by
  obtain ⟨hstarts, hstate, hstop, howns, herr, halive, hled⟩ := hi
  have hwrote := @MainPc.Wrote.owns t.main
  cases h <;> constructor <;> grind [Ledger, stage, StateAt, MainPc.Starts, MainPc.Owns]

theorem RunnerStep.answered {t t' : Threads} (h : RunnerStep t t') : t'.answered = t.answered := by
  cases h <;> rfl

theorem RunnerStep.client {t t' : Threads} (h : RunnerStep t t') :
    t'.client = t.client ∧ t'.main = t.main := by
  cases h <;> exact ⟨rfl, rfl⟩

section Main

variable {D : Type} {serve : Kind → D → Bytes → D → Bytes → Prop} {t t' : Threads} {d d' : D}

/-- Once started, the runner stays started. -/
theorem Inv.born (hi : Inv t) (h : ¬ t.main.Starts) : t.runner ≠ .unborn := fun hu =>
  h (hi.starts.1 hu)

/-- Every step of the main thread keeps the invariant: between `get_req` and `signal_res` it is alone
with the buffers, and elsewhere it only reads `_state`. -/
theorem MainStep.inv (h : MainStep serve t d t' d') (hi : Inv t) : Inv t' := by
  have hborn := @Inv.born t hi
  have hwait := @Inv.waits t hi
  obtain ⟨hu, hstart, hstop, hstate⟩ := hi.starts
  have herr := hi.ifError
  cases h with
  | callSetup | callRunCommand | callCheckStopped | testConnecting | testError | waitReq | waitError
    | pollReq | getReq | getRes | signal =>
    apply hi.goto <;> grind [MainPc.Starts, MainPc.Owns, MainPc.Wrote]
  | ifError =>
    split <;> apply hi.goto <;> grind [MainPc.Starts, MainPc.Owns, MainPc.Wrote]
  | setup | startStop | startState | startThread =>
    obtain ⟨-, hst, hstopped, -, -, -, hled⟩ := hi
    constructor <;> grind [Ledger, stage, StateAt, MainPc.Starts, MainPc.Owns, MainPc.Wrote]
  | reset | write | execute | signalState =>
    obtain ⟨-, hst, hstopped, -, -, -, hled⟩ := hi
    obtain ⟨hhas, hr⟩ := hwait (by simp [MainPc.Owns, *])
    constructor <;> grind [Ledger, stage, StateAt, MainPc.Starts, MainPc.Owns, MainPc.Wrote]

/-- Every entry of `answered` is a request executed by one of the two functions. -/
theorem MainStep.served (h : MainStep serve t d t' d')
    (ht : ∀ qr ∈ t.answered, ∃ kind d d', serve kind d qr.1 d' qr.2) :
    ∀ qr ∈ t'.answered, ∃ kind d d', serve kind d qr.1 d' qr.2 := by
  cases h with
  | execute _ hserve =>
    intro qr hqr
    rcases List.mem_append.mp hqr with hqr | hqr
    · exact ht qr hqr
    · rw [List.mem_singleton.mp hqr]
      exact ⟨_, d, d', hserve⟩
  | ifError => split <;> exact ht
  | _ => exact ht

end Main

/-! ## One response per request -/

/-- The order that the two threads keep. -/
structure Orderly {D : Type} (serve : Kind → D → Bytes → D → Bytes → Prop) (t : Threads) :
    Prop where
  /-- A buffer is not touched by both threads. -/
  owner : t.main.Buffers → t.runner ≠ .recv ∧ t.runner ≠ .send
  /-- The `k`-th request executed is the `k`-th message received. -/
  executes : ∀ (k : Nat) (q r : Bytes), t.answered[k]? = some (q, r) →
    t.received[k]? = some q ∧ ∃ kind d d', serve kind d q d' r
  /-- The `k`-th message sent is the response of the `k`-th request executed. -/
  sends : t.sent <+: t.answered.map Prod.snd
  /-- What is sent is a complete response, the next one. -/
  complete : t.runner = .send → t.answered.map Prod.snd = t.sent ++ [t.outBuff]
  /-- No response is left out. -/
  all : t.received.length ≤ t.sent.length + 1
  asserts : t.runner ≠ .failed ∧ t.main ≠ .failed
  /-- `SENDING_RES` is not written over `ERROR`. -/
  error : t.main = .signalState → t.state ≠ .error

section Reachable

variable {D : Type} {serve : Kind → D → Bytes → D → Bytes → Prop} {t t' : Threads} {d d' : D}

theorem reachable_inv {s : Threads × D} (h : (machine serve).Reachable s) : Inv s.1 := by
  refine Machine.Reachable.invariant (P := fun s => Inv s.1) (fun s => ?_) (fun s s' _ hi => ?_) h
  · exact Built.inv
  · rintro (⟨hr, -⟩ | hm)
    · exact hr.inv hi
    · exact hm.inv hi

theorem reachable_served {s : Threads × D} (h : (machine serve).Reachable s) :
    ∀ qr ∈ s.1.answered, ∃ kind d d', serve kind d qr.1 d' qr.2 := by
  refine Machine.Reachable.invariant (P := fun s : Threads × D => ∀ qr ∈ s.1.answered,
    ∃ kind d d', serve kind d qr.1 d' qr.2) (fun s hb => ?_) (fun s s' _ hi => ?_) h
  · rw [Built.answered hb]
    exact fun _ hqr => absurd hqr List.not_mem_nil
  · rintro (⟨hr, -⟩ | hm)
    · rw [hr.answered]
      exact hi
    · exact hm.served hi

/-- The ledger without the places of the threads. -/
theorem Inv.counts (hi : Inv t) : t.answered.map Prod.fst <+: t.received ∧
    t.sent <+: t.answered.map Prod.snd ∧ t.received.length ≤ t.sent.length + 1 := by
  have hled := hi.ledger
  unfold Ledger at hled
  split at hled
  · obtain ⟨h1, h2⟩ := hled
    rw [h1, h2]
    simp
  · obtain ⟨h1, h2⟩ := hled
    rw [h1, h2]
    simp
  · obtain ⟨h1, h2⟩ := hled
    have hlen := congrArg List.length h2
    rw [h1, h2]
    simp at hlen ⊢
    omega
  · obtain ⟨h1, h2, h3⟩ := hled
    rw [h1]
    simpa [h2] using h3

/-- In every state that any interleaving of the two threads reaches, with any outcome of the calls
of the transport. -/
theorem one_response_per_request {s : Threads × D} (h : (machine serve).Reachable s) :
    Orderly serve s.1 := by
  have hi := reachable_inv h
  obtain ⟨hreq, hres, hall⟩ := hi.counts
  have hled := hi.ledger
  refine ⟨fun hb => ?_, fun k q r hk => ⟨?_, ?_⟩, hres, fun hr => ?_, hall, ⟨fun hf => ?_, hi.alive⟩,
    fun hm => ?_⟩
  · have howns : s.1.main.Owns := by cases hm : s.1.main <;> simp_all [MainPc.Buffers, MainPc.Owns]
    obtain ⟨-, hr⟩ := hi.waits howns
    rcases hr with hr | hr <;> simp [hr]
  · obtain ⟨rest, hrest⟩ := hreq
    rw [← hrest, List.getElem?_append_left, List.getElem?_map, hk]
    · rfl
    · rw [List.length_map]
      exact (List.getElem?_eq_some_iff.mp hk).1
  · exact reachable_served h _ (List.mem_of_getElem? hk)
  · unfold Ledger stage at hled
    rw [hr] at hled
    exact hled.2
  · have := hi.state
    rw [hf] at this
    exact this
  · rw [hi.owns (by rw [hm]; trivial)]
    simp

theorem reach_runner (h : (machine serve).Reachable (t, d)) (hs : RunnerStep t t') :
    (machine serve).Reachable (t', d) := .step h (.inl ⟨hs, rfl⟩)

theorem reach_main (h : (machine serve).Reachable (t, d)) (hs : MainStep serve t d t' d') :
    (machine serve).Reachable (t', d') := .step h (.inr hs)

end Reachable

/-- A switch that answers every request with itself. -/
def echo (_ : Kind) (_ : Unit) (req : Bytes) (_ : Unit) (res : Bytes) : Prop := res = req

/-- One request, while the program runs. -/
theorem one_response_per_request_echo :
    Orderly echo ⟨.sent, .idle, .sendingRes, false, [1], [1], .notConnected, [[1]], [([1], [1])],
      [[1]]⟩ := by
  have start : (machine echo).Reachable
      (⟨.unborn, .idle, .error, true, [], [], .notConnected, [], [], []⟩, ()) :=
    .init ⟨rfl, rfl, rfl, rfl, rfl, rfl⟩
  have started : (machine echo).Reachable
      (⟨.connect, .idle, .connecting, false, [], [], .notConnected, [], [], []⟩, ()) :=
    reach_main (reach_main (reach_main (reach_main (reach_main (reach_main start (.callSetup rfl))
      (.setup rfl)) (.startStop rfl)) (.startState rfl)) (.startThread rfl)) (.testConnecting rfl)
  have received : (machine echo).Reachable
      (⟨.waitStop, .idle, .hasReq, false, [1], [], .notConnected, [[1]], [], []⟩, ()) :=
    reach_runner (reach_runner (reach_runner (reach_runner (reach_runner started (.connect rfl))
      (.connected rfl)) (.loop rfl)) (.recv [1] rfl)) (.received rfl)
  have read : (machine echo).Reachable
      (⟨.waitStop, .reset .checkStopped, .hasReq, false, [1], [], .notConnected, [[1]], [], []⟩, ()) :=
    reach_main (reach_main (reach_main (reach_main (reach_main received
      (.callCheckStopped rfl (by simp))) (.pollReq rfl)) (.ifError rfl)) (.getReq rfl)) (.getRes rfl)
  have wrote : (machine echo).Reachable (⟨.waitStop, .idle, .sendingRes, false, [1], [1],
      .notConnected, [[1]], [([1], [1])], []⟩, ()) :=
    reach_main (reach_main (reach_main (reach_main read (.reset rfl))
      (@MainStep.execute _ _ _ () () _ [1] rfl rfl)) (.signal rfl)) (.signalState rfl)
  exact one_response_per_request (reach_runner (reach_runner (reach_runner (reach_runner
    (reach_runner wrote (.waitStop rfl)) (.waitState rfl)) (.waited rfl)) (.check rfl)) (.send rfl))

end DataClientServerRunner

end Odb
