import Odb.Mess.StateText
import Odb.Server.AnyRequest
import Odb.Server.CommandLines
import Odb.Server.ServerApp

/-!
# `CLIClientHandler` (`server/cli-client-handler.cc`)

The client is in the process of the server: it reads command lines from the standard input, and a
`SIGINT` stops the program.

* `cliClient`: the handler obeys the laws of `ClientHandler`; the server loop calls it as any other.
* `Synced`: what the client of a connected handler knows; `reachable_synced`: it always does.
* `never_fails`: no assertion fails, and when the report of a stop is made.
* `reports`: a stop of the program is reported before the next command.
-/

namespace Odb

open Prog
open DBClient (World ClientM)

/-- The handler, with the globals of its source file. -/
structure CLIClientHandler where
  /-- `ClientHandler::_state`. -/
  state : ClientState
  /-- `_db_client`. -/
  client : DBClient
  /-- `_catch_sigint`. -/
  catchSigint : Bool
  /-- `g_sig_stop`. -/
  sigStop : Bool
  /-- `g_manual_stop`. -/
  manualStop : Bool

namespace CLIClientHandler

variable {V α : Type}

/-- Programs on the handler and the debugger. -/
abbrev CliM (V : Type) := Prog Fault (CLIClientHandler × Debugger V)

/-- `_db_client`, or `_client` that uses it. -/
def onClient (c : ClientM (Debugger V) α) : CliM V α :=
  .zoom (fun p => ⟨p.1.client, p.2⟩) (fun w p => ({ p.1 with client := w.client }, w.impl)) c

/-- Writes members of the handler. -/
def modifyHandler (f : CLIClientHandler → CLIClientHandler) : CliM V Unit :=
  modify fun p => (f p.1, p.2)

variable (api : VMApi V) (F : Floats)

/-- `setup_connection()`; `sighandler` is `server_cli_sighandler` of the configuration. -/
def setupConnection (sighandler : Bool) : CliM V Unit := do
  onClient (DBClient.connect (VMSide.impl api))
  modifyHandler ({ · with state := .connected })
  if sighandler then modifyHandler ({ · with catchSigint := true })

/-- `run_command()`, up to its assertion: what `stopped` is. -/
def catchUp : CliM V Bool := do
  let running := (← get).1.client.state = .vmRunning
  if running then onClient (DBClient.checkStopped (VMSide.impl api))
  let manual := (← get).1.manualStop
  if manual then modifyHandler ({ · with manualStop := false })
  Prog.lift (assertThat ((← get).1.client.state = .vmStopped))
  return running || manual

/-- What it prints then. -/
def report (stopped : Bool) : CliM V Bytes :=
  if stopped then onClient (SimpleCLIClient.exec F (VMSide.impl api) (lit "state")) else pure []

/-- `run_command()` from the prompt on, after it printed `state`: what it prints in all. `stdin` is
the next line, or `none` at the end of the input. -/
def readCommand (isTty : Bool) (stdin : Option Bytes) (state : Bytes) : CliM V Bytes := do
  let prompt := if isTty then lit "> " else []
  match stdin with
  | none => -- Disconnect if stdin closed
    modifyHandler ({ · with state := .disconnected, catchSigint := false })
    return state ++ (prompt ++ if isTty then lit "Debug session closed, program resumed.\n" else [])
  | some cmd =>
    if cmd = [] then return state ++ prompt
    let out ← onClient (SimpleCLIClient.exec F (VMSide.impl api) cmd)
    return state ++ (prompt ++ out ++ if out ≠ [] ∧ out.getLast? ≠ some 10 then lit "\n" else [])

/-- `run_command()`. -/
def runCommand (isTty : Bool) (stdin : Option Bytes) : CliM V Bytes := do
  let stopped ← catchUp api
  let state ← report api F stopped
  readCommand api F isTty stdin state

/-- `check_stopped()`. -/
def checkStopped : CliM V Unit := do
  if !(← get).1.sigStop then return
  onClient (DBClient.stop (VMSide.impl api))
  modifyHandler ({ · with sigStop := false, manualStop := true })

/-! ## What the calls do to the debugger -/

variable {api F} {sighandler isTty : Bool} {h h' : CLIClientHandler} {db db' : Debugger V}
  {w : World (Debugger V)}

theorem onClient_on {c : ClientM (Debugger V) α} {r : Except Fault α}
    (hc : c.on ⟨h.client, db⟩ = (r, w)) :
    (onClient c).on (h, db) = (r, { h with client := w.client }, w.impl) := on_zoom hc

theorem onClient_ok {c : ClientM (Debugger V) α} {a : α} {p : CLIClientHandler × Debugger V} :
    (onClient c).on (h, db) = (.ok a, p) ↔
      ∃ w, c.on ⟨h.client, db⟩ = (.ok a, w) ∧ p = ({ h with client := w.client }, w.impl) := by
  rcases hc : c.on ⟨h.client, db⟩ with ⟨e | b, w⟩ <;> rw [onClient_on hc] <;> simp [eq_comm]

theorem keeps_onClient {c : ClientM (Debugger V) α} (hc : Keeps World.impl c) :
    Keeps (fun p => (p.1.state, p.2)) (onClient c) := fun p => Prod.ext rfl (hc ⟨p.1.client, p.2⟩)

/-- Up to the assertion the debugger is only read. -/
theorem keeps_catchUp : Keeps (fun p => (p.1.state, p.2)) (catchUp api) := by
  have hcheck : Keeps World.impl (DBClient.checkStopped (VMSide.impl api)) :=
    .bind (.bind .get fun _ => .lift _) fun _ => .bind .get fun w =>
      .bind (.zoom (VMSide.keeps_checkStopped _) fun _ _ => rfl) fun _ =>
      .bind (.modify fun _ => rfl) fun _ => .ite (.modify fun _ => rfl) (.modify fun _ => rfl)
  have hassert (b : Bool) : Keeps (fun p : CLIClientHandler × Debugger V => (p.1.state, p.2))
      (do
        Prog.lift (assertThat ((← get).1.client.state = .vmStopped))
        return b) := .bind .get fun _ => .bind (.lift _) fun _ => .ret _
  have hend (b : Bool) : Keeps (fun p : CLIClientHandler × Debugger V => (p.1.state, p.2))
      (do
        let manual := (← get).1.manualStop
        if manual then modifyHandler ({ · with manualStop := false })
        Prog.lift (assertThat ((← get).1.client.state = .vmStopped))
        return b || manual) :=
    .bind .get fun _ => .ite (.bind (.modify fun _ => rfl) fun _ => hassert _) (hassert _)
  exact .bind .get fun _ => .ite (.bind (keeps_onClient hcheck) fun _ => hend _) (hend _)

/-- Queries for symbols leave the control of the program alone. -/
theorem symbol_queries (h : Relation.ReflTransGen
    (CommandIn api (Debugger.Call.InTypes [.getSymsByAddr])) db db') :
    Commands api db db' ∧ db'.toDbControl = db.toDbControl := by
  induction h with
  | refl => exact ⟨.refl, rfl⟩
  | tail _ hst ih =>
    obtain ⟨hcmd, hctrl⟩ := ih
    obtain ⟨k, ⟨ty, hty, hk⟩, hst⟩ := hst
    obtain rfl := List.mem_singleton.mp hty
    refine ⟨hcmd.tail ⟨k, hst⟩, ?_⟩
    rw [← hctrl, hst.control]
    cases k <;> first | rfl | cases hk

theorem report_ok {stopped : Bool} {text : Bytes}
    (hrun : (report api F stopped).on (h, db) = (.ok text, h', db')) :
    h'.state = h.state ∧ Commands api db db' ∧ db'.toDbControl = db.toDbControl := by
  unfold report at hrun
  split at hrun
  · obtain ⟨w, hexec, hp⟩ := onClient_ok.mp hrun
    obtain ⟨rfl, rfl⟩ := Prod.mk.inj hp
    have hcalls := SimpleCLIClient.exec_calls hexec
    rw [SimpleCLIClient.asks_state] at hcalls
    exact ⟨rfl, symbol_queries hcalls⟩
  · obtain ⟨-, hp⟩ := Prod.mk.inj hrun
    obtain ⟨rfl, rfl⟩ := Prod.mk.inj hp
    exact ⟨rfl, .refl, rfl⟩

/-- From the prompt on, a line is executed, or the session is closed. -/
theorem readCommand_cases {stdin : Option Bytes} {state out : Bytes}
    (hrun : (readCommand api F isTty stdin state).on (h, db) = (.ok out, h', db')) :
    state <+: out ∧
      ((h' = { h with state := .disconnected, catchSigint := false } ∧ db' = db) ∨
        (h' = h ∧ db' = db) ∨
        ∃ cmd text w, (SimpleCLIClient.exec F (VMSide.impl api) cmd).on ⟨h.client, db⟩ =
          (.ok text, w) ∧ h' = { h with client := w.client } ∧ db' = w.impl) := by
  unfold readCommand at hrun
  cases stdin with
  | none =>
    obtain ⟨hout, hp⟩ := Prod.mk.inj hrun
    obtain rfl := Except.ok.inj hout
    obtain ⟨rfl, rfl⟩ := Prod.mk.inj hp
    exact ⟨List.prefix_append _ _, .inl ⟨rfl, rfl⟩⟩
  | some cmd =>
    dsimp only at hrun
    split at hrun
    · obtain ⟨hout, hp⟩ := Prod.mk.inj hrun
      obtain rfl := Except.ok.inj hout
      obtain ⟨rfl, rfl⟩ := Prod.mk.inj hp
      exact ⟨List.prefix_append _ _, .inr (.inl ⟨rfl, rfl⟩)⟩
    · obtain ⟨text, p, hclient, hrun⟩ := bind_eq_ok.mp hrun
      obtain ⟨hout, hp⟩ := Prod.mk.inj hrun
      obtain rfl := Except.ok.inj hout
      obtain ⟨w, hexec, rfl⟩ := onClient_ok.mp hclient
      obtain ⟨rfl, rfl⟩ := Prod.mk.inj hp
      exact ⟨List.prefix_append _ _, .inr (.inr ⟨cmd, text, w, hexec, rfl, rfl⟩)⟩

/-- A `run_command()` that returns: it catches up, reports, and reads a command. -/
theorem runCommand_ok {stdin : Option Bytes} {out : Bytes}
    (hrun : (runCommand api F isTty stdin).on (h, db) = (.ok out, h', db')) :
    ∃ stopped h₁ text h₂ db₂, (catchUp api).on (h, db) = (.ok stopped, h₁, db) ∧
      h₁.state = h.state ∧ (report api F stopped).on (h₁, db) = (.ok text, h₂, db₂) ∧
      (readCommand api F isTty stdin text).on (h₂, db₂) = (.ok out, h', db') := by
  obtain ⟨stopped, ⟨h₁, db₁⟩, hcatch, hrun⟩ := bind_eq_ok.mp hrun
  obtain ⟨text, ⟨h₂, db₂⟩, hreport, hread⟩ := bind_eq_ok.mp hrun
  have hkeep := @keeps_catchUp _ api (h, db)
  rw [hcatch] at hkeep
  obtain ⟨hstate, rfl⟩ := Prod.mk.inj hkeep
  exact ⟨stopped, h₁, text, h₂, db₂, hcatch, hstate, hreport, hread⟩

/-- A `check_stopped()` that returns stopped the program, or did nothing. -/
theorem checkStopped_ok (hrun : (checkStopped api).on (h, db) = (.ok (), h', db')) :
    h'.state = h.state ∧ (db' = db ∨ Debugger.stop.on db = (.ok (), db')) := by
  unfold checkStopped at hrun
  rw [on_bind_ok (on_get _)] at hrun
  split at hrun
  · obtain ⟨-, hp⟩ := Prod.mk.inj hrun
    obtain ⟨rfl, rfl⟩ := Prod.mk.inj hp
    exact ⟨rfl, .inl rfl⟩
  · obtain ⟨u, p, hclient, hrun⟩ := bind_eq_ok.mp hrun
    obtain ⟨w, hstop, rfl⟩ := onClient_ok.mp hclient
    obtain ⟨-, hp⟩ := Prod.mk.inj hrun
    obtain ⟨rfl, rfl⟩ := Prod.mk.inj hp
    obtain ⟨-, i, udp, i', hstop, hcheck, -, rfl⟩ := DBClient.stop_ok.mp hstop
    obtain ⟨rfl, -⟩ := VMSide.checkStopped_ok hcheck
    exact ⟨rfl, .inr hstop⟩

/-- The handler obeys the laws of `ClientHandler`. A signal comes at any time while it is caught. -/
def cliClient (api : VMApi V) (F : Floats) (sighandler isTty : Bool) :
    ClientHandler api CLIClientHandler where
  state := CLIClientHandler.state
  setupConnection h db h' := (setupConnection api sighandler).on (h, db) = (.ok (), h', db)
  runCommand h db h' db' :=
    ∃ stdin out, (runCommand api F isTty stdin).on (h, db) = (.ok out, h', db')
  checkStopped h db h' db' := (checkStopped api).on (h, db) = (.ok (), h', db')
  meanwhile h h' := h.catchSigint = true ∧ h' = { h with sigStop := true }
  runCommand_spec hst hcall := by
    obtain ⟨stdin, out, hrun⟩ := hcall
    obtain ⟨stopped, h₁, text, h₂, db₂, -, hs₁, hreport, hread⟩ := runCommand_ok hrun
    obtain ⟨hs₂, hcmd, hctrl⟩ := report_ok hreport
    have hconn := hs₂.trans (hs₁.trans hst)
    rcases (readCommand_cases hread).2 with ⟨rfl, rfl⟩ | ⟨rfl, rfl⟩ |
      ⟨cmd, text', w, hexec, rfl, rfl⟩
    · exact .inr ⟨rfl, hcmd, hctrl⟩
    · exact .inl ⟨hconn, hcmd⟩
    · refine .inl ⟨hconn, hcmd.trans ?_⟩
      exact Relation.ReflTransGen.mono (fun _ _ ⟨k, _, hk⟩ => ⟨k, hk⟩) _ _
        (SimpleCLIClient.exec_calls hexec)
  checkStopped_spec hst hcall := by
    obtain ⟨hs, hdb⟩ := checkStopped_ok hcall
    exact .inl ⟨hs.trans hst, hdb⟩
  meanwhile_spec hmean := by rw [hmean.2]

/-! ## What the client knows -/

/-- The client takes the program for running, or knows where it is. -/
def Synced (h : CLIClientHandler) (db : Debugger V) : Prop :=
  h.client.state = .vmRunning ∨ SimpleCLIClient.Knows ⟨h.client, db⟩

/-- `run_command()` finds that the program has stopped. -/
def hasStopped (h : CLIClientHandler) : Bool := h.client.state = .vmRunning || h.manualStop

/-- `setup_connection` connects the client. -/
theorem setupConnection_on (hn : db.state ≠ .notStarted)
    (hclient : h.client.state = .notConnected) :
    ∃ client, (setupConnection api sighandler).on (h, db) = (.ok (),
        { h with client, state := .connected, catchSigint := sighandler || h.catchSigint }, db) ∧
      (client.state = .vmRunning ∨ SimpleCLIClient.Knows ⟨client, db⟩) := by
  obtain ⟨u, hu, hstopped, hview⟩ : ∃ u, (VMSide.checkStopped h.client.udp).on db = (.ok u, db) ∧
      u.stopped = DbControl.isStopped db.state ∧ (u.stopped = true → u = db.view) := by
    cases hst : DbControl.isStopped db.state with
    | true => exact ⟨db.view, VMSide.checkStopped_stopped hst _, rfl, fun _ => rfl⟩
    | false => exact ⟨_, VMSide.checkStopped_running hst hn _, rfl, fun hs => by cases hs⟩
  have hconnect : (VMSide.impl api (.connect h.client.udp)).on db = (.ok (db.infos, u), db) := by
    show (VMSide.connect _).on _ = _
    unfold VMSide.connect
    rw [on_bind_ok (on_get _), on_bind_ok hu]
    rfl
  have hrun := onClient_on (h := h) ((@DBClient.connect_ok _ (VMSide.impl api) ⟨h.client, db⟩ _
    ()).mpr ⟨hclient, _, db, hconnect, rfl⟩)
  refine ⟨{ h.client with
    vmInfos := db.infos, udp := u, state := if u.stopped then .vmStopped else .vmRunning }, ?_, ?_⟩
  · unfold setupConnection
    rw [on_bind_ok hrun]
    cases sighandler <;> rfl
  · cases hs : u.stopped with
    | false => exact .inl (by simp)
    | true => exact .inr ⟨by simp, hstopped ▸ hs, hview hs⟩

theorem setupConnection_state (hrun : (setupConnection api sighandler).on (h, db) =
    (.ok (), h', db')) : h'.state = .connected := by
  obtain ⟨u, p, hclient, hrun⟩ := bind_eq_ok.mp hrun
  cases sighandler with
  | false =>
    obtain ⟨-, hp⟩ := Prod.mk.inj hrun
    exact congrArg (·.1.state) hp.symm
  | true =>
    obtain ⟨-, hp⟩ := Prod.mk.inj hrun
    exact congrArg (·.1.state) hp.symm

/-- What `run_command` does after it asked. -/
theorem catchUp_end (hk : SimpleCLIClient.Knows ⟨h.client, db⟩) (b : Bool) :
    (do
      let manual := (← get).1.manualStop
      if manual then modifyHandler ({ · with manualStop := false })
      Prog.lift (assertThat ((← get).1.client.state = .vmStopped))
      return b || manual : CliM V Bool).on (h, db) =
    (.ok (b || h.manualStop), { h with manualStop := false }, db) := by
  have hclient : h.client.state = .vmStopped := hk.client
  rw [on_bind_ok (on_get _)]
  have hassert {h : CLIClientHandler} {b : Bool} (hc : h.client.state = .vmStopped) :
      (do
        Prog.lift (assertThat ((← get).1.client.state = .vmStopped))
        return b : CliM V Bool).on (h, db) = (.ok b, h, db) := by
    rw [on_bind_ok (on_get _), assertThat_pos hc]
    rfl
  obtain ⟨state, client, catchSigint, sigStop, manualStop⟩ := h
  cases manualStop
  · exact hassert hclient
  · exact hassert (h := ⟨state, client, catchSigint, sigStop, false⟩) hclient

/-- Of a stopped program, `run_command` gets to know where it is before it reads a command. -/
theorem catchUp_on (hs : Synced h db) (hst : DbControl.isStopped db.state = true) :
    ∃ client, (catchUp api).on (h, db) = (.ok h.hasStopped, { h with client, manualStop := false },
        db) ∧ SimpleCLIClient.Knows ⟨client, db⟩ := by
  unfold hasStopped catchUp
  rw [on_bind_ok (on_get _)]
  rcases hs with hrun | hk
  · have hcheck : (VMSide.impl api (.checkStopped h.client.udp)).on db = (.ok db.view, db) :=
      VMSide.checkStopped_stopped hst _
    have hasked : (onClient (DBClient.checkStopped (VMSide.impl api))).on (h, db) = (.ok (), {
        h with client := { h.client with state := .vmStopped, udp := db.view }.discardTmpCache },
        db) :=
      onClient_on (h := h) ((@DBClient.checkStopped_ok _ (VMSide.impl api) ⟨h.client, db⟩ _
        ()).mpr ⟨hrun, _, _, hcheck, rfl⟩)
    refine ⟨{ h.client with state := .vmStopped, udp := db.view }.discardTmpCache, ?_,
      ⟨rfl, hst, rfl⟩⟩
    dsimp only
    rw [if_pos hrun, on_bind_ok hasked]
    exact catchUp_end (h := { h with
      client := { h.client with state := .vmStopped, udp := db.view }.discardTmpCache })
      ⟨rfl, hst, rfl⟩ _
  · have : h.client.state ≠ .vmRunning := by
      rw [show h.client.state = .vmStopped from hk.client]
      simp
    refine ⟨h.client, ?_, hk⟩
    dsimp only
    rw [if_neg this]
    exact catchUp_end hk _

theorem checkStopped_quiet (hsig : h.sigStop = false) :
    (checkStopped api).on (h, db) = (.ok (), h, db) := by
  unfold checkStopped
  rw [on_bind_ok (on_get _), hsig]
  rfl

/-- While the program runs, a signal stops it. -/
theorem checkStopped_on (hs : Synced h db) (hn : db.state ≠ .notStarted)
    (hst : DbControl.isStopped db.state = false) (hsig : h.sigStop = true) :
    ∃ client, (checkStopped api).on (h, db) = (.ok (), { h with
        client, sigStop := false, manualStop := true }, { db with state := .stopped }) ∧
      SimpleCLIClient.Knows ⟨client, { db with state := .stopped }⟩ := by
  have hclient : h.client.state = .vmRunning := hs.resolve_right fun hk =>
    Bool.false_ne_true (hst.symm.trans hk.stopped)
  have hstop : (VMSide.impl api .stop).on db = (.ok (), { db with state := .stopped }) := by
    have hok : db.toDbControl.stop = .ok { db.toDbControl with state := .stopped } := by
      have hno := hst
      simp only [DbControl.isStopped, decide_eq_false_iff_not, not_or] at hno
      unfold DbControl.stop
      rw [assertThat_pos hn, ok_bind, if_neg (by simp [hno]), if_neg hno.1]
      rfl
    show (Debugger.onControl DbControl.stop).on db = _
    rw [Debugger.onControl_on, hok]
  have hcheck : (VMSide.impl api (.checkStopped h.client.udp)).on { db with state := .stopped } =
      (.ok { db with state := .stopped }.view, { db with state := .stopped }) :=
    VMSide.checkStopped_stopped rfl _
  have hdone := onClient_on (h := h) ((@DBClient.stop_ok _ (VMSide.impl api) ⟨h.client, db⟩ _
    ()).mpr ⟨hclient, _, _, _, hstop, hcheck, rfl, rfl⟩)
  refine ⟨{ h.client with state := .vmStopped, udp := { db with state := .stopped }.view },
    ?_, ⟨rfl, rfl, rfl⟩⟩
  unfold checkStopped
  rw [on_bind_ok (on_get _), hsig]
  exact on_bind_ok hdone _

/-- The command `state` leaves everything as it is. -/
theorem exec_state_known {text : Bytes} (hk : SimpleCLIClient.Knows ⟨h.client, db⟩)
    (hrun : (SimpleCLIClient.exec F (VMSide.impl api) (lit "state")).on ⟨h.client, db⟩ =
      (.ok text, w)) : SimpleCLIClient.Knows w := by
  refine ((hk.exec hrun).resolve_right fun hr => ?_).1
  rw [(SimpleCLIClient.exec_sameView SimpleCLIClient.state_asks hrun).1, hk.client] at hr
  cases hr.1

/-- A `run_command()` of a stopped program ends with a client that resumed it, or knows where it
is. -/
theorem runCommand_synced (hs : Synced h db) (hst : DbControl.isStopped db.state = true)
    {stdin : Option Bytes} {out : Bytes}
    (hrun : (runCommand api F isTty stdin).on (h, db) = (.ok out, h', db')) : Synced h' db' := by
  obtain ⟨stopped, h₁, text, h₂, db₂, hcatch, -, hreport, hread⟩ := runCommand_ok hrun
  obtain ⟨client, hon, hk⟩ := @catchUp_on _ api h db hs hst
  obtain ⟨-, hp⟩ := Prod.mk.inj (hcatch.symm.trans hon)
  obtain ⟨rfl, -⟩ := Prod.mk.inj hp
  have hk₂ : SimpleCLIClient.Knows ⟨h₂.client, db₂⟩ := by
    unfold report at hreport
    split at hreport
    · obtain ⟨w, hexec, hp⟩ := onClient_ok.mp hreport
      obtain ⟨rfl, rfl⟩ := Prod.mk.inj hp
      exact exec_state_known hk hexec
    · obtain ⟨-, hp⟩ := Prod.mk.inj hreport
      obtain ⟨rfl, rfl⟩ := Prod.mk.inj hp
      exact hk
  rcases (readCommand_cases hread).2 with ⟨rfl, rfl⟩ | ⟨rfl, rfl⟩ | ⟨cmd, text', w, hexec, rfl, rfl⟩
  · exact .inr hk₂
  · exact .inr hk₂
  · rcases hk₂.exec hexec with ⟨hk', -⟩ | ⟨hr, -⟩
    · exact .inr hk'
    · exact .inl hr

/-! ## The handler of a server -/

/-- The handler as it is constructed. -/
structure Built (h : CLIClientHandler) : Prop where
  state : h.state = .notConnected
  client : ∃ udp, h.client = .new udp
  catchSigint : h.catchSigint = false
  sigStop : h.sigStop = false
  manualStop : h.manualStop = false

section Server

variable {D : Type} {dh : ClientHandler api D} {conf : ServerConfig} {h₀ : CLIClientHandler}
  {d₀ : D} {h₀' : CLIClientHandler} {s₀ s s' : ServerApp V (CLIClientHandler ⊕ D)}

variable (F sighandler isTty dh conf h₀ d₀) in
/-- The server with this handler, and any other. -/
abbrev server : Machine (ServerApp V (CLIClientHandler ⊕ D)) :=
  ServerApp.machine ((cliClient api F sighandler isTty).sum dh) conf (.inl h₀) (.inr d₀)

/-- A handler that waits has not connected its client. -/
theorem reachable_waiting (hb : Built h₀)
    (hr : (server F sighandler isTty dh conf h₀ d₀).Reachable s)
    {m : MultiClientHandler (CLIClientHandler ⊕ D)} (hm : s.client = some m)
    (hh : .inl h ∈ m.wait) : h.client.state = .notConnected := by
  have hcli : Sum.elim (fun h => h.client.state = .notConnected) (fun _ => True)
      (Sum.inl h₀ : CLIClientHandler ⊕ D) := by
    obtain ⟨udp, hudp⟩ := hb.client
    show h₀.client.state = _
    rw [hudp]
    rfl
  have hdata : Sum.elim (fun h : CLIClientHandler => h.client.state = .notConnected)
      (fun _ => True) (Sum.inr d₀ : CLIClientHandler ⊕ D) := trivial
  refine ServerApp.reachable_wait
    (P := Sum.elim (fun h => h.client.state = .notConnected) fun _ => True)
    (fun h db h' _ hset hno => ?_) (fun h h' hP hmean => ?_) hcli hdata hr m hm _ hh
  · cases hset with
    | inr => trivial
    | inl hset => exact absurd (setupConnection_state hset) hno
  · cases hmean with
    | inr => trivial
    | inl hmean =>
      rw [hmean.2]
      exact hP

theorem reachable_started (hr : (server F sighandler isTty dh conf h₀ d₀).Reachable s)
    (hdb : s.db = some db) : db.state ≠ .notStarted := by
  obtain ⟨m, hready⟩ := (ServerApp.reachable_inv hr).of_db hdb
  exact hready.started

/-- What a connected client knows is so. -/
theorem reachable_synced (hb : Built h₀)
    (hr : (server F sighandler isTty dh conf h₀ d₀).Reachable s)
    (hs : ServerApp.Serves s db (.inl h)) : Synced h db := by
  induction hr generalizing h db with
  | init hinit =>
    obtain rfl : _ = _ := hinit
    cases hs.1
  | @step s s' hr hst ih =>
    have hi := ServerApp.reachable_inv hr
    rcases ServerApp.Step.serves hst hi hs with ⟨db₁, g, hs₁, hstep⟩ | ⟨-, m, g, db₁, hm, hmem, hdb,
      hset, -, hstop⟩
    · cases hstep with
      | stays => exact ih hs₁
      | meanwhile hmean =>
        cases hmean with
        | inl hmean =>
          have hknown := ih hs₁
          rw [hmean.2]
          exact hknown
      | update hup =>
        refine .inl ((ih hs₁).resolve_right fun hk => ?_)
        exact Bool.false_ne_true (hup.not_stopped.symm.trans hk.stopped)
      | check _ hrun hcall =>
        cases hcall with
        | @inl h₁ _ hcall =>
          cases hsig : h₁.sigStop with
          | false =>
            obtain ⟨-, hp⟩ := Prod.mk.inj (hcall.symm.trans (checkStopped_quiet hsig))
            obtain ⟨rfl, rfl⟩ := Prod.mk.inj hp
            exact ih hs₁
          | true =>
            obtain ⟨client, hon, hk⟩ := @checkStopped_on _ api h₁ db₁ (ih hs₁)
              (reachable_started hr hs₁.1) hrun hsig
            obtain ⟨-, hp⟩ := Prod.mk.inj (hcall.symm.trans hon)
            obtain ⟨rfl, rfl⟩ := Prod.mk.inj hp
            exact .inr hk
      | command _ _ _ hstopped hcall =>
        cases hcall with
        | inl hcall =>
          obtain ⟨stdin, out, hrun⟩ := hcall
          exact runCommand_synced (ih hs₁) hstopped hrun
    · cases hset with
      | @inl h₁ _ hset =>
        obtain ⟨client, hon, hclient⟩ := @setupConnection_on _ api sighandler h₁ db₁
          (reachable_started hr hdb) (reachable_waiting hb hr hm hmem)
        obtain ⟨-, hp⟩ := Prod.mk.inj (hset.symm.trans hon)
        obtain ⟨rfl, -⟩ := Prod.mk.inj hp
        rcases hclient with hrun | hk
        · exact .inl hrun
        · obtain ⟨-, rfl⟩ := Prod.mk.inj (hstop.symm.trans (ServerApp.stopDb_noop hk.stopped))
          exact .inr hk

/-- `state` can be executed: there is a call stack, and the VM can be asked for the symbols where
the current subroutine begins. -/
def CanTell (api : VMApi V) (db : Debugger V) : Prop :=
  ∃ ci, db.callStack.getLast? = some ci ∧ Debugger.WindowFits api ci.callerStartAddr 1 db

theorem report_iff (hsized : Debugger.SymsSized db.cachePart)
    (hk : SimpleCLIClient.Knows ⟨h.client, db⟩) (stopped : Bool) :
    (∃ text p, (report api F stopped).on (h, db) = (.ok text, p)) ↔
      (stopped = true → CanTell api db) := by
  have hstack : h.client.udp.stack = db.callStack := congrArg DBClientUpdate.stack hk.udp
  cases stopped with
  | false => exact iff_of_true ⟨[], _, rfl⟩ (by simp)
  | true =>
    have hstate := @SimpleCLIClient.exec_state_iff F _ (VMSide.impl api) ⟨h.client, db⟩ hk.client
    rw [hstack] at hstate
    unfold CanTell
    simp only [forall_const, ← Debugger.getSymbolsByAddr_safe_iff hsized]
    refine Iff.trans ⟨?_, ?_⟩ hstate
    · rintro ⟨text, p, hrun⟩
      obtain ⟨w, hexec, -⟩ := onClient_ok.mp hrun
      exact ⟨text, w, hexec⟩
    · rintro ⟨text, w, hexec⟩
      exact ⟨text, _, onClient_on hexec⟩

/-- The client connects, a signal stops the program, and `run_command` gets to know where it is: no
assertion of the handler or of its client fails. It gets to its prompt if and only if `state` can be
executed, or needs not. -/
theorem never_fails (hb : Built h₀) (hr : (server F sighandler isTty dh conf h₀ d₀).Reachable s)
    (hdb : s.db = some db) :
    (∀ m h, s.client = some m → .inl h ∈ m.wait →
      ∃ h', (setupConnection api sighandler).on (h, db) = (.ok (), h', db) ∧
        h'.state = .connected) ∧
    ∀ h, ServerApp.Serves s db (.inl h) →
      (DbControl.isStopped db.state = false →
        ∃ h' db', (checkStopped api).on (h, db) = (.ok (), h', db') ∧
          (h.sigStop = false → h' = h ∧ db' = db) ∧
          (h.sigStop = true → db' = { db with state := .stopped } ∧
            SimpleCLIClient.Knows ⟨h'.client, db'⟩)) ∧
      (DbControl.isStopped db.state = true →
        ∃ h', (catchUp api).on (h, db) = (.ok h.hasStopped, h', db) ∧
          SimpleCLIClient.Knows ⟨h'.client, db⟩ ∧
          ((∃ text p, (report api F h.hasStopped).on (h', db) = (.ok text, p)) ↔
            (h.hasStopped = true → CanTell api db))) := by
  have hn := reachable_started hr hdb
  refine ⟨fun m h hm hmem => ?_, fun h hs => ⟨fun hst => ?_, fun hst => ?_⟩⟩
  · obtain ⟨client, hon, -⟩ := @setupConnection_on _ api sighandler h db hn
      (reachable_waiting hb hr hm hmem)
    exact ⟨_, hon, rfl⟩
  · cases hsig : h.sigStop with
    | false => exact ⟨h, db, checkStopped_quiet hsig, fun _ => ⟨rfl, rfl⟩, by simp⟩
    | true =>
      obtain ⟨client, hon, hk⟩ :=
        @checkStopped_on _ api h db (reachable_synced hb hr hs) hn hst hsig
      exact ⟨_, _, hon, by simp, fun _ => ⟨rfl, hk⟩⟩
  · obtain ⟨client, hon, hk⟩ := @catchUp_on _ api h db (reachable_synced hb hr hs) hst
    obtain ⟨db₀, es, hstarted, hrun⟩ := ServerApp.reachable_run hr hdb
    exact ⟨_, hon, hk, report_iff (hrun.symsSized hstarted) hk _⟩

/-! ## The report of a stop -/

/-- The text begins with the report of `state`, or with the message of the VM that refuses its
symbols. -/
def Reports (api : VMApi V) (db : Debugger V) (out : Bytes) : Prop :=
  ∃ text, (SimpleCLIClient.Tells db.view text ∨ ∃ addr msg db',
    (VMSide.impl api (.getSymbolsByAddr addr 1)).on db = (.error (.vmError msg), db') ∧
      text = lit "Error: " ++ msg) ∧ text <+: out

/-- A `run_command()` that finds that the program has stopped reports it first. -/
theorem runCommand_reports (hs : Synced h db) (hst : DbControl.isStopped db.state = true)
    {stdin : Option Bytes} {out : Bytes}
    (hrun : (runCommand api F isTty stdin).on (h, db) = (.ok out, h', db'))
    (hstopped : h.hasStopped = true) : Reports api db out := by
  obtain ⟨stopped, h₁, text, h₂, db₂, hcatch, -, hreport, hread⟩ := runCommand_ok hrun
  obtain ⟨client, hon, hk⟩ := @catchUp_on _ api h db hs hst
  obtain ⟨hasked, hp⟩ := Prod.mk.inj (hcatch.symm.trans hon)
  obtain rfl : stopped = true := (Except.ok.inj hasked).trans hstopped
  obtain ⟨rfl, -⟩ := Prod.mk.inj hp
  obtain ⟨w, hexec, -⟩ := onClient_ok.mp hreport
  refine ⟨text, ?_, (readCommand_cases hread).1⟩
  rcases SimpleCLIClient.exec_state hk.client hexec with htells | ⟨addr, msg, db', hsyms, htext⟩
  · have hudp : client.udp = db.view := hk.udp
    exact .inl (hudp ▸ htells)
  · exact .inr ⟨addr, msg, db', hsyms, htext⟩

variable (F sighandler isTty dh conf h₀ d₀) in
/-- A step of the server that is no `run_command()`. -/
def Meanwhile (s s' : ServerApp V (CLIClientHandler ⊕ D)) : Prop :=
  (server F sighandler isTty dh conf h₀ d₀).Step s s' ∧ (s.pc = .command → s'.pc = .command)

/-- A client that will not ask has missed nothing. -/
theorem Meanwhile.sameView (hb : Built h₀)
    (hr : (server F sighandler isTty dh conf h₀ d₀).Reachable s₀) {db₀ : Debugger V}
    (hs₀ : ServerApp.Serves s₀ db₀ (.inl h₀'))
    (hm : Relation.ReflTransGen (Meanwhile F sighandler isTty dh conf h₀ d₀) s₀ s) :
    (server F sighandler isTty dh conf h₀ d₀).Reachable s ∧
      (∃ m, s.client = some m ∧ m.state ≠ .notConnected) ∧
      ∀ db h, ServerApp.Serves s db (.inl h) → h.hasStopped = false →
        Debugger.SameView db₀ db := by
  induction hm with
  | refl =>
    obtain ⟨m, hm, hn, -⟩ := hs₀.2
    refine ⟨hr, ⟨m, hm, by simp [hn]⟩, fun db h hs _ => ?_⟩
    obtain ⟨rfl, -⟩ := hs₀.eq hs
    exact .refl _
  | @tail s₁ s₂ _ hst ih =>
    obtain ⟨hr₁, ⟨m, hm, hn⟩, hview⟩ := ih
    have hi := ServerApp.reachable_inv hr₁
    refine ⟨hr₁.step hst.1, ServerApp.Step.connected hst.1 hi hm hn, fun db' h' hs' hno => ?_⟩
    rcases ServerApp.Step.serves hst.1 hi hs' with ⟨db, g, hs, hstep⟩ | hconn
    swap
    · exact absurd (hconn.waiting m hm) hn
    cases hstep with
    | stays => exact hview _ _ hs hno
    | meanwhile hmean =>
      cases hmean with
      | @inl h _ hmean =>
        obtain ⟨-, rfl⟩ := hmean
        exact hview _ _ hs hno
    | update hup =>
      have hknown := reachable_synced hb hr₁ hs
      unfold hasStopped at hno
      have hk := hknown.resolve_left (by grind)
      exact absurd (hup.not_stopped.symm.trans hk.stopped) Bool.false_ne_true
    | check _ hrun hcall =>
      cases hcall with
      | @inl h _ hcall =>
        cases hsig : h.sigStop with
        | false =>
          obtain ⟨-, hp⟩ := Prod.mk.inj (hcall.symm.trans (checkStopped_quiet hsig))
          obtain ⟨rfl, rfl⟩ := Prod.mk.inj hp
          exact hview _ _ hs hno
        | true =>
          obtain ⟨client, hon, -⟩ := @checkStopped_on _ api h db (reachable_synced hb hr₁ hs)
            (reachable_started hr₁ hs.1) hrun hsig
          obtain ⟨-, hp⟩ := Prod.mk.inj (hcall.symm.trans hon)
          obtain ⟨rfl, -⟩ := Prod.mk.inj hp
          simp [hasStopped] at hno
    | command hpc hpc' =>
      have := hst.2 hpc
      rw [hpc'] at this
      cases this

/-- Where the program stopped is reported before the next command, unless it is where it was after
the last one. -/
theorem reports (hb : Built h₀) (hr : (server F sighandler isTty dh conf h₀ d₀).Reachable s₀)
    {db₀ : Debugger V} (hs₀ : ServerApp.Serves s₀ db₀ (.inl h₀'))
    (hm : Relation.ReflTransGen (Meanwhile F sighandler isTty dh conf h₀ d₀) s₀ s)
    (hs : ServerApp.Serves s db (.inl h)) (hpc : s.pc = .command) {stdin : Option Bytes}
    {out : Bytes} (hrun : (runCommand api F isTty stdin).on (h, db) = (.ok out, h', db')) :
    Debugger.SameView db₀ db ∨ Reports api db out := by
  obtain ⟨hr', -, hview⟩ := Meanwhile.sameView hb hr hs₀ hm
  obtain ⟨m, hready⟩ := (ServerApp.reachable_inv hr').of_db hs.1
  cases hask : h.hasStopped with
  | false => exact .inl (hview db h hs hask)
  | true => exact .inr (runCommand_reports (reachable_synced hb hr' hs) (hready.at hpc).1 hrun hask)

end Server

/-! ## A session with the scripted VM -/

section Scripted

open SimpleCLIClient (integral)

/-- The scripted VM, with no symbols. -/
def noSyms : VMApi UpdateInfos :=
  { Debugger.scripted with getSymbols := fun _ _ vm => (.ok [], vm) }

def startedDb : Debugger UpdateInfos := ((Debugger.onInit noSyms).on (.new ⟨.ok, 4⟩ 0)).2

def stoppedDb : Debugger UpdateInfos := (ServerApp.stopDb.on startedDb).2

/-- The handler before its client connects, and after. -/
def built : CLIClientHandler := ⟨.notConnected, .new Serial.blank, false, false, false⟩

def connected : CLIClientHandler := ((setupConnection noSyms true).on (built, startedDb)).2.1

/-- The user asks for one instruction, -/
def stepping : CLIClientHandler × Debugger UpdateInfos :=
  ((runCommand noSyms integral false (some (lit "s"))).on (connected, stoppedDb)).2

/-- and the VM executes it. -/
def steppedDb : Debugger UpdateInfos :=
  ((Debugger.onUpdate noSyms).on { stepping.2 with vm := ⟨.ok, 7⟩ }).2

theorem built_built : Built built := ⟨rfl, ⟨_, rfl⟩, rfl, rfl, rfl⟩

/-- The handlers of a server with this one. -/
abbrev handlers : ClientHandler noSyms (CLIClientHandler ⊕ ClientState) :=
  (cliClient noSyms integral true false).sum (ServerApp.anyClient noSyms)

/-- The server of the scripted VM, with its client at the terminal. -/
abbrev cliServer : Machine (ServerApp UpdateInfos (CLIClientHandler ⊕ ClientState)) :=
  server integral true false (ServerApp.anyClient noSyms) ⟨true, false, true, false⟩ built
    .notConnected

/-- At `pc`, with the connected handler `h`. -/
def serving (pc : Pc) (h : CLIClientHandler) (db : Debugger UpdateInfos) :
    ServerApp UpdateInfos (CLIClientHandler ⊕ ClientState) :=
  ⟨true, some db, some ⟨.connected, [], some (.inl h)⟩, pc, false⟩

theorem serves_serving (pc : Pc) (h : CLIClientHandler) (db : Debugger UpdateInfos) :
    ServerApp.Serves (serving pc h db) db (.inl h) := ⟨rfl, _, rfl, rfl, rfl⟩

/-- A step that is no `run_command()`. -/
abbrev cliMeanwhile := Meanwhile integral true false (ServerApp.anyClient noSyms)
  ⟨true, false, true, false⟩ built .notConnected

theorem meanwhile_steps {s s' : ServerApp UpdateInfos (CLIClientHandler ⊕ ClientState)}
    (h : Relation.ReflTransGen cliMeanwhile s s') : cliServer.Steps s s' :=
  Relation.ReflTransGen.mono (fun _ _ hst => hst.1) _ _ h

/-- Of a stopped program the loop executes a command. -/
theorem serving_command {h : CLIClientHandler} {db : Debugger UpdateInfos}
    (hst : DbControl.isStopped db.state = true) :
    Relation.ReflTransGen cliMeanwhile (serving .head h db) (serving .command h db) := by
  have hskip : cliServer.Step (serving .head h db) (serving .checked h db) :=
    .loop (.checkSkip rfl rfl rfl (by simp) (by simp [hst]))
  have hchecked : cliServer.Step (serving .checked h db)
      (serving (if DbControl.isStopped db.state then .connect else .leave) h db) :=
    .loop (.checked rfl rfl)
  rw [if_pos hst] at hchecked
  have hconnect : cliServer.Step (serving .connect h db) _ := .loop (.connect rfl rfl)
  exact .tail (.tail (.single ⟨hskip, by simp [serving]⟩) ⟨hchecked, by simp [serving]⟩)
    ⟨hconnect, fun _ => rfl⟩

theorem serving_run {h h' : CLIClientHandler} {db db' : Debugger UpdateInfos}
    (hconn : h'.state = .connected)
    (hcall : handlers.runCommand (.inl h) db (.inl h') db') :
    cliServer.Step (serving .command h db) (serving .head h' db') := by
  have hstep : cliServer.Step (serving .command h db) _ :=
    .loop (.command rfl rfl rfl rfl (.returns rfl hcall))
  have hstate : handlers.state (.inl h') = .connected := hconn
  simpa [ServerApp.afterClient, hstate, serving] using hstep

theorem serving_check {h h' : CLIClientHandler} {db db' : Debugger UpdateInfos}
    (hrun : DbControl.isStopped db.state = false) (hconn : h'.state = .connected)
    (hcall : handlers.checkStopped (.inl h) db (.inl h') db') :
    cliServer.Step (serving .head h db) (serving .checked h' db') := by
  have hstep : cliServer.Step (serving .head h db) _ :=
    .loop (.check rfl rfl rfl hrun rfl (.returns rfl hcall))
  have hstate : handlers.state (.inl h') = .connected := hconn
  simpa [ServerApp.afterClient, hstate, serving] using hstep

theorem connected_reachable : cliServer.Reachable (serving .command connected stoppedDb) := by
  have start : cliServer.Reachable ⟨true, none, none, .vm, false⟩ := .init rfl
  have started : cliServer.Reachable
      ⟨true, some startedDb, some ⟨.notConnected, [.inl built], none⟩, .poll, false⟩ :=
    start.step (.loop (.init rfl rfl rfl ⟨⟨.ok, 4⟩, 0, rfl⟩))
  have hset : handlers.setupConnection (.inl built) startedDb (.inl connected) := .inl rfl
  have hpoll : cliServer.Step
      ⟨true, some startedDb, some ⟨.notConnected, [.inl built], none⟩, .poll, false⟩ _ :=
    .loop (.poll rfl rfl rfl rfl (@MultiClientHandler.SetupConnection.connects _ _ _ _ _ _ [] [] []
      _ _ rfl rfl .nil hset rfl))
  exact (started.step hpoll).steps (meanwhile_steps (serving_command rfl))

theorem stepping_step : cliServer.Step (serving .command connected stoppedDb)
    (serving .head stepping.1 stepping.2) := by
  have hcall : handlers.runCommand (.inl connected) stoppedDb (.inl stepping.1) stepping.2 :=
    .inl ⟨some (lit "s"), _, rfl⟩
  exact serving_run rfl hcall

theorem stepped_steps : Relation.ReflTransGen cliMeanwhile
    (serving .head stepping.1 stepping.2) (serving .command stepping.1 steppedDb) := by
  have hquiet : handlers.checkStopped (.inl stepping.1) stepping.2 (.inl stepping.1) stepping.2 :=
    .inl rfl
  have hcheck := serving_check rfl rfl hquiet
  have hchecked : cliServer.Step (serving .checked stepping.1 stepping.2) _ :=
    .loop (.checked rfl rfl)
  have hleave : cliServer.Step (serving .leave stepping.1 stepping.2) _ :=
    .loop (.leave rfl rfl rfl)
  have hcall : cliServer.Step (serving .vm stepping.1 stepping.2)
      (serving .update stepping.1 stepping.2) := .loop (.call rfl rfl rfl rfl)
  have hupdate : cliServer.Step (serving .update stepping.1 stepping.2)
      (serving .poll stepping.1 steppedDb) :=
    .loop (@ServerApp.LoopStep.update _ _ _ _ _ _ _ _ _ _ ⟨.ok, 7⟩ rfl rfl (.update rfl rfl))
  have hpoll : cliServer.Step (serving .poll stepping.1 steppedDb)
      (serving .head stepping.1 steppedDb) := .loop (.pollSkip rfl rfl (by simp))
  have hpc {pc pc' : Pc} {db db' : Debugger UpdateInfos} (hpc : pc ≠ .command)
      (h : cliServer.Step (serving pc stepping.1 db) (serving pc' stepping.1 db')) :
      cliMeanwhile (serving pc stepping.1 db) (serving pc' stepping.1 db') :=
    ⟨h, fun hpc' => absurd hpc' hpc⟩
  have hrun : Relation.ReflTransGen cliMeanwhile (serving .head stepping.1 stepping.2)
      (serving .vm stepping.1 stepping.2) :=
    .tail (.tail (.single (hpc (by decide) hcheck)) (hpc (by decide) hchecked))
      (hpc (by decide) hleave)
  have hnext : Relation.ReflTransGen cliMeanwhile (serving .vm stepping.1 stepping.2)
      (serving .head stepping.1 steppedDb) :=
    .tail (.tail (.single (hpc (by decide) hcall)) (hpc (by decide) hupdate))
      (hpc (by decide) hpoll)
  exact (hrun.trans hnext).trans (serving_command rfl)

theorem stepping_reachable : cliServer.Reachable (serving .head stepping.1 stepping.2) :=
  connected_reachable.step stepping_step

/-- A signal while the program executes its instruction: it stops, and the prompt comes next. -/
theorem never_fails_sigint :
    ∃ h' db', (checkStopped noSyms).on ({ stepping.1 with sigStop := true }, stepping.2) =
      (.ok (), h', db') ∧ db'.state = .stopped ∧
      ∃ h'', (catchUp noSyms).on (h', db') = (.ok true, h'', db') ∧
        ∃ text p, (report noSyms integral true).on (h'', db') = (.ok text, p) := by
  have hsignal : cliServer.Step (serving .head stepping.1 stepping.2)
      (serving .head { stepping.1 with sigStop := true } stepping.2) :=
    .meanwhile rfl (.main rfl (.inl ⟨rfl, rfl⟩))
  have hr := stepping_reachable.step hsignal
  obtain ⟨h', db', hrun, -, hstop⟩ := ((never_fails built_built hr rfl).2 _
    (serves_serving _ _ _)).1 rfl
  obtain ⟨rfl, hk⟩ := hstop rfl
  have hcall : handlers.checkStopped (.inl { stepping.1 with sigStop := true }) stepping.2 (.inl h')
      { stepping.2 with state := .stopped } := .inl hrun
  have hcheck := serving_check rfl (checkStopped_ok hrun).1 hcall
  obtain ⟨h'', hcatch, -, hreport⟩ := ((never_fails built_built (hr.step hcheck) rfl).2 _
    (serves_serving _ _ _)).2 rfl
  have hasked : h'.hasStopped = true := by
    obtain ⟨-, hp⟩ := Prod.mk.inj hrun
    obtain ⟨rfl, -⟩ := Prod.mk.inj hp
    rfl
  rw [hasked] at hcatch hreport
  exact ⟨h', _, hrun, rfl, h'', hcatch, hreport.mpr fun _ => ⟨_, rfl, by decide, .inl (by decide)⟩⟩

/-- The step that the command asked for is reported before the next one. -/
theorem reports_step : Reports noSyms steppedDb (lit "program stopped at 0x7\n") := by
  have hs : ServerApp.Serves (serving .head stepping.1 stepping.2) stepping.2
      (.inl stepping.1) := serves_serving _ _ _
  have hrun : (runCommand noSyms integral false (some [])).on (stepping.1, steppedDb) =
      (.ok (lit "program stopped at 0x7\n"), _) := rfl
  refine (reports built_built stepping_reachable hs stepped_steps (serves_serving _ _ _) rfl
    hrun).resolve_left fun hview => ?_
  cases hview.insAddr

end Scripted

end CLIClientHandler

end Odb
