import Odb.Client.Session

/-!
# The client and the server agree

The server loop with a client that talks through the `DataClientHandler`, in every order of the
steps of the VM, of the loop, of the runner thread and of the client.

* `Call.exchange`: a call of the handler answers one request, or none.
* `Talks.reaches`, `Talks.steps`: what goes on while a client is connected is a dialogue.
* `agreement`: a client that takes the program for stopped takes it to be where it is, and there the
  program stays until this client resumes it.
* `late_stop`: a `STOP` that comes after the program stopped by itself changes nothing.
-/

namespace Odb

open Prog
open DataClientServerRunner (Threads MainPc RunnerPc Kind MainStep RunnerStep)

namespace DataClientHandler

variable {V : Type} {api : VMApi V} {t t' : Threads} {db db' : Debugger V}

/-- No request was answered yet, or one. -/
def Exchanging (api : VMApi V) (kind : Kind) (db₀ : Debugger V) (exs : List Exchange) (t : Threads)
    (db : Debugger V) : Prop :=
  (db = db₀ ∧ t.answered = exs ∧ (Before kind t.main ∨ t.main = .idle)) ∨
    ((∃ req res, serveRequest api kind db₀ req db res ∧ t.answered = exs ++ [(req, res)]) ∧
      After t.main) ∨ t.main = .failed

theorem Exchanging.step {kind : Kind} {db₀ : Debugger V} {exs : List Exchange}
    (he : Exchanging api kind db₀ exs t db) (hbusy : t.main ≠ .idle)
    (h : MainStep (serveRequest api) t db t' db') : Exchanging api kind db₀ exs t' db' := by
  unfold Exchanging at *
  cases h with
  | execute hpc hserve =>
    rcases he with ⟨rfl, hexs, hm⟩ | ⟨-, hm⟩ | hm
    · rw [hpc] at hm
      obtain rfl : _ = kind := hm.resolve_right (by simp)
      exact .inr (.inl ⟨⟨_, _, hserve, by rw [hexs]⟩, trivial⟩)
    all_goals
      rw [hpc] at hm
      cases hm
  | _ => grind [Before, After]

/-- A call answers one request, or none. -/
theorem Call.exchange {kind : Kind} {entry : MainPc} (hentry : Before kind entry)
    (h : Call api entry t db t' db') :
    (db' = db ∧ t'.answered = t.answered) ∨
      ∃ req res, serveRequest api kind db req db' res ∧
        t'.answered = t.answered ++ [(req, res)] := by
  have := h.induction (P := Exchanging api kind db t.answered) (.inl ⟨rfl, rfl, .inl hentry⟩)
    (fun t t' db he hr => by
      obtain ⟨-, hm⟩ := hr.client
      unfold Exchanging at *
      rwa [hr.answered, hm]) fun _ _ _ _ => Exchanging.step
  rcases this with ⟨hdb, hexs, -⟩ | ⟨hex, -⟩ | hm
  · exact .inl ⟨hdb, hexs⟩
  · exact .inr hex
  · rw [h.2] at hm
    cases hm

/-- Where `setup_connection` is. -/
def InSetup : MainPc → Prop
  | .setup | .startStop | .startState | .startThread | .testConnecting | .testError | .idle => True
  | _ => False

/-- `setup_connection` answers nothing. -/
theorem setup_answered {db : Debugger V} (h : (dataClient api).setupConnection t db t') :
    t'.answered = t.answered := by
  have := h.induction (P := fun t' _ => t'.answered = t.answered ∧ InSetup t'.main)
    ⟨rfl, trivial⟩ (fun t₁ t₂ _ hp hr => by rw [hr.answered, hr.client.2]; exact hp)
    fun t₁ _ t₂ _ hp hbusy hm => by cases hm <;> grind [InSetup]
  exact this.1

end DataClientHandler

namespace ServerApp

open DataClientHandler (dataClient serveRequest)
open Dialogue (Turn)

variable {V C : Type} {api : VMApi V} {cli : ClientHandler api C} {conf : ServerConfig} {c₀ : C}
  {t₀ : Threads} {s s' : ServerApp V (C ⊕ Threads)}

/-! ## What goes on while a client is connected -/

/-- A client is connected through the handler `t`. -/
def Talks (s : ServerApp V (C ⊕ Threads)) (db : Debugger V) (t : Threads) : Prop :=
  s.db = some db ∧ ∃ m, s.client = some m ∧ m.state = .connected ∧ m.main = some (.inr t)

theorem callMain_main {H : Type} {ch : ClientHandler api H}
    {call : H → Debugger V → H → Debugger V → Prop} {m : MultiClientHandler H} {db : Debugger V}
    {p : MultiClientHandler H × Debugger V} (h : m.CallMain ch call db (some p)) :
    ∃ h h', m.main = some h ∧ p.1.main = some h' ∧ call h db h' p.2 := by
  cases h with
  | returns hmain hcall => exact ⟨_, _, hmain, rfl, hcall⟩

/-- A data handler that waits for a client has answered nothing. -/
theorem wait_fresh (hb : DataClientServerRunner.Built t₀)
    (h : (server cli conf c₀ t₀).Reachable s) {m : MultiClientHandler (C ⊕ Threads)} {t : Threads}
    (hm : s.client = some m) (ht : Sum.inr t ∈ m.wait) : t.answered = [] := by
  have hcli : Sum.elim (fun _ => True) (fun t => t.answered = []) (Sum.inl c₀ : C ⊕ Threads) :=
    trivial
  have hdata : Sum.elim (fun _ => True) (fun t => t.answered = []) (Sum.inr t₀ : C ⊕ Threads) :=
    hb.answered
  refine reachable_wait (P := Sum.elim (fun _ => True) fun t => t.answered = [])
    (fun h db h' hP hset _ => ?_) (fun h h' hP hmean => ?_) hcli hdata h m hm _ ht
  · cases hset with
    | inl => trivial
    | inr hset => exact (DataClientHandler.setup_answered hset).trans hP
  · cases hmean with
    | inl => trivial
    | inr hmean => exact (RunnerStep.answered hmean).trans hP

/-- A call of the handler is a turn of the dialogue, or none. -/
theorem call_talks {kind : Kind} {entry : MainPc} (hentry : DataClientHandler.Before kind entry)
    {db db' : Debugger V} {t t' : Threads} (h : DataClientHandler.Call api entry t db t' db')
    (hturn : ∀ req res, serveRequest api kind db req db' res →
      Turn api (db, t.answered) (db', t.answered ++ [(req, res)])) :
    (db', t'.answered) = (db, t.answered) ∨ Turn api (db, t.answered) (db', t'.answered) := by
  rcases h.exchange hentry with ⟨hdb, hexs⟩ | ⟨req, res, hserve, hexs⟩
  · exact .inl (Prod.ext hdb hexs)
  · rw [hexs]
    exact .inr (hturn req res hserve)

/-- A step after which a client is connected is a turn of its dialogue, or none, or the client has
just connected: to a stopped program. -/
theorem Step.talks (hb : DataClientServerRunner.Built t₀)
    (h : (server cli conf c₀ t₀).Reachable s) (hst : (server cli conf c₀ t₀).Step s s')
    {db' : Debugger V} {t' : Threads} (ht' : Talks s' db' t') :
    (∃ db t, Talks s db t ∧ ((db', t'.answered) = (db, t.answered) ∨
      Turn api (db, t.answered) (db', t'.answered))) ∨
    ((∀ m, s.client = some m → m.state = .notConnected) ∧
      DbControl.isStopped db'.state = true ∧ t'.answered = []) := by
  have hi := reachable_inv h
  rcases Step.serves hst hi ht' with ⟨db, h₁, hs, hstep⟩ |
    ⟨hwait, m, h₁, db, hm, hmem, -, hset, -, hstop⟩
  · cases hstep with
    | stays => exact .inl ⟨db', t', hs, .inl rfl⟩
    | meanwhile hmean =>
      cases hmean with
      | inr hmean => exact .inl ⟨db', _, hs, .inl (by rw [RunnerStep.answered hmean])⟩
    | update hup => exact .inl ⟨db, t', hs, .inr (.instr hup)⟩
    | check _ hrun hcall =>
      cases hcall with
      | inr hcall =>
        have hbefore : DataClientHandler.Before .checkStopped .pollReq := rfl
        exact .inl ⟨db, _, hs, call_talks hbefore hcall.2 fun _ _ => .checkStopped hrun⟩
    | command _ _ _ hstopped hcall =>
      cases hcall with
      | inr hcall =>
        have hbefore : DataClientHandler.Before .runCommand .waitReq := rfl
        exact .inl ⟨db, _, hs, call_talks hbefore hcall.2 fun _ _ => .runCommand hstopped⟩
  · refine .inr ⟨hwait, stopDb_stopped hstop, ?_⟩
    cases hset with
    | inr hset =>
      rw [DataClientHandler.setup_answered hset]
      exact wait_fresh hb h hm hmem

/-- What there is to tell can be sent. -/
def FitsIn (s : ServerApp V (C ⊕ Threads)) : Prop := ∀ db, s.db = some db → db.Fits

/-- The server, as long as it can. -/
abbrev fitting (cli : ClientHandler api C) (conf : ServerConfig) (c₀ : C) (t₀ : Threads) :
    Machine (ServerApp V (C ⊕ Threads)) := (server cli conf c₀ t₀).within FitsIn

namespace Talks

variable {db db' : Debugger V} {t t' : Threads}

/-- What the client and the debugger did so far is a dialogue. -/
theorem reaches (hb : DataClientServerRunner.Built t₀)
    (h : (fitting cli conf c₀ t₀).Reachable s) (ht : Talks s db t) :
    (Dialogue.machine api).Reachable (db, t.answered) := by
  induction h generalizing db t with
  | init hs =>
    obtain rfl : _ = _ := hs.1
    cases ht.1
  | step hr hst ih =>
    rcases Step.talks hb hr.of_within.1 hst.1 ht with ⟨db₁, t₁, hts, heq | hturn⟩ | ⟨-, hs, hexs⟩
    · rw [heq]
      exact ih hts
    · exact (ih hts).step ⟨hturn, hst.2 _ ht.1⟩
    · exact .init ⟨hs, hexs, hst.2 _ ht.1⟩

theorem eq (ht : Talks s db t) (ht' : Talks s db' t') : db' = db ∧ t' = t :=
  (Serves.eq ht ht').imp_right Sum.inr.inj

/-- Once connected, the server does not wait for a client any more. -/
theorem connected (h : (fitting cli conf c₀ t₀).Reachable s) (ht : Talks s db t)
    (hs : (fitting cli conf c₀ t₀).Steps s s') :
    ∃ m, s'.client = some m ∧ m.state ≠ .notConnected := by
  induction hs with
  | refl =>
    obtain ⟨-, m, hm, hn, -⟩ := ht
    exact ⟨m, hm, by simp [hn]⟩
  | tail hs hst ih =>
    obtain ⟨m, hm, hn⟩ := ih
    exact Step.connected hst.1 (reachable_inv (h.steps hs).of_within.1) hm hn

/-- A client that is connected was connected a step before. -/
theorem before (hb : DataClientServerRunner.Built t₀)
    (h : (fitting cli conf c₀ t₀).Reachable s) (hst : (fitting cli conf c₀ t₀).Step s s')
    {m : MultiClientHandler (C ⊕ Threads)} (hm : s.client = some m) (hn : m.state ≠ .notConnected)
    (ht' : Talks s' db' t') :
    ∃ db t, Talks s db t ∧ ((db', t'.answered) = (db, t.answered) ∨
      Turn api (db, t.answered) (db', t'.answered)) :=
  (Step.talks hb h.of_within.1 hst.1 ht').resolve_right fun hnot => hn (hnot.1 m hm)

/-- What they do from then on is its continuation. -/
theorem steps (hb : DataClientServerRunner.Built t₀)
    (h : (fitting cli conf c₀ t₀).Reachable s) (ht : Talks s db t)
    (hs : (fitting cli conf c₀ t₀).Steps s s') (ht' : Talks s' db' t') :
    (Dialogue.machine api).Steps (db, t.answered) (db', t'.answered) := by
  induction hs generalizing db' t' with
  | refl =>
    obtain ⟨rfl, rfl⟩ := ht.eq ht'
    exact .refl
  | tail hs hst ih =>
    obtain ⟨m, hm, hn⟩ := ht.connected h hs
    obtain ⟨db₁, t₁, hts, heq | hturn⟩ := before hb (h.steps hs) hst hm hn ht'
    · rw [heq]
      exact ih hts
    · exact (ih hts).tail ⟨hturn, hst.2 _ ht'.1⟩

/-- The runner and the main thread keep their order. -/
theorem inv (hb : DataClientServerRunner.Built t₀) (h : (server cli conf c₀ t₀).Reachable s)
    (ht : Talks s db t) : DataClientServerRunner.Inv t := by
  have hkeeps : (cli.sum (dataClient api)).Keeps
      (Sum.elim (fun _ => True) DataClientHandler.Between) :=
    ClientHandler.Keeps.sum ⟨fun _ _ _ _ _ => trivial, fun _ _ _ _ _ _ => trivial,
      fun _ _ _ _ _ _ => trivial, fun _ _ _ _ => trivial⟩ DataClientHandler.dataClient_keeps
  have hcli : Sum.elim (fun _ => True) DataClientHandler.Between (Sum.inl c₀ : C ⊕ Threads) :=
    trivial
  have hdata : Sum.elim (fun _ => True) DataClientHandler.Between (Sum.inr t₀ : C ⊕ Threads) :=
    ⟨hb.inv, hb.main⟩
  obtain ⟨-, m, hm, -, hmain⟩ := ht
  have hbet : DataClientHandler.Between t :=
    (reachable_all hkeeps hcli hdata h m hm).2 (.inr t) hmain
  exact hbet.1

end Talks

/-! ## A client of the scripted VM -/

section Scripted

open DBClient (Makes Talked)

/-- The debugger of the scripted VM before the first instruction. -/
abbrev stoppedDb : Debugger UpdateInfos := (stopDb.on Debugger.scriptedDb).2

theorem stoppedDb_fits : stoppedDb.Fits :=
  ⟨⟨Nat.zero_le _, Remote.fits_nil, Remote.fits_nil, Remote.fits_nil, Remote.fits_nil,
    Remote.fits_nil⟩, by decide, fun _ _ => trivial⟩

/-- The debugger of the scripted VM after `resume`, and after the instruction that it asks for. -/
abbrev resumedDb : Debugger UpdateInfos := ((Debugger.resume .step).on stoppedDb).2

abbrev steppedDb : Debugger UpdateInfos :=
  ((Debugger.onUpdate Debugger.scripted).on { resumedDb with vm := ⟨.ok, 5⟩ }).2

theorem resumedDb_fits : resumedDb.Fits := ⟨stoppedDb_fits.infos, by decide, fun _ _ => trivial⟩

theorem steppedDb_fits : steppedDb.Fits := ⟨stoppedDb_fits.infos, by decide, fun _ _ => trivial⟩

variable {other : ClientHandler Debugger.scripted ClientState} {W : Exchange → Prop}
  {I : ServerApp UpdateInfos (ClientState ⊕ Threads) →
    ServerApp UpdateInfos (ClientState ⊕ Threads) → Prop}

/-- The server of the scripted VM, which waits for a TCP client before the first instruction. -/
abbrev scriptedServer (other : ClientHandler Debugger.scripted ClientState) (W : Exchange → Prop)
    (I : ServerApp UpdateInfos (ClientState ⊕ Threads) →
      ServerApp UpdateInfos (ClientState ⊕ Threads) → Prop) :
    Machine (ServerApp UpdateInfos (ClientState ⊕ Threads)) :=
  observed other ⟨true, true, false, true⟩ .notConnected built Debugger.Fits W I

theorem scripted_fitting {s s' : ServerApp UpdateInfos (ClientState ⊕ Threads)}
    (hst : (scriptedServer other W I).Step s s') :
    (fitting other ⟨true, true, false, true⟩ .notConnected built).Step s s' :=
  ⟨hst.1, hst.2.1.db⟩

/-- What is reached while the server is watched. -/
theorem scripted_reachable {s : ServerApp UpdateInfos (ClientState ⊕ Threads)}
    (h : (scriptedServer other W I).Reachable s) :
    (fitting other ⟨true, true, false, true⟩ .notConnected built).Reachable s := by
  refine h.mono ?_ fun _ _ => scripted_fitting
  intro s hs
  obtain rfl : s = _ := hs
  exact ⟨rfl, fun db hdb => by cases hdb⟩

theorem waiting_step {s : ServerApp UpdateInfos (ClientState ⊕ Threads)} {pc : Pc} {t : Threads}
    (hst : (server other ⟨true, true, false, true⟩ .notConnected built).Step s (waiting pc t))
    (hpc : s.pc ≠ .update) : (scriptedServer other W I).Step s (waiting pc t) := by
  refine ⟨hst, ⟨fun db h => ?_, fun m t' hm ht => ?_⟩, fun h => absurd h hpc⟩
  · obtain rfl := Option.some.inj h
    exact stoppedDb_fits
  · obtain rfl := Option.some.inj hm
    cases ht

/-- The handler that waits for its client. -/
def connecting : Threads := ⟨.connect, .idle, .connecting, false, [], [], .notConnected, [], [], []⟩

/-- A client connects before the first instruction. -/
theorem ready_reachable :
    (scriptedServer other W I).Reachable (serving .command stoppedDb (readyAfter [] [] [])) := by
  have start : (scriptedServer other W I).Reachable ⟨true, none, none, .vm, false⟩ := .init rfl
  have stopped : (scriptedServer other W I).Reachable (waiting .poll built) :=
    start.step (waiting_step (.loop (.init rfl rfl rfl Debugger.scriptedDb_started)) (by simp))
  have hpoll : (server other ⟨true, true, false, true⟩ .notConnected built).Step
      (waiting .poll built) _ := .loop (.poll rfl rfl rfl rfl
    (.waits rfl (.cons ⟨.inr (setup_built _ stoppedDb), fun h => by cases h⟩ .nil)))
  have polled : (scriptedServer other W I).Reachable (waiting .head connecting) :=
    stopped.step (waiting_step hpoll (by simp [waiting]))
  have checked : (scriptedServer other W I).Reachable (waiting .checked connecting) :=
    polled.step (waiting_step (.loop (.checkSkip rfl rfl rfl (by simp) (by decide)))
      (by simp [waiting]))
  have hchecked : (server other ⟨true, true, false, true⟩ .notConnected built).Step
      (waiting .checked connecting) _ :=
    .loop (.checked rfl rfl)
  have connect : (scriptedServer other W I).Reachable (waiting .connect connecting) :=
    checked.step (waiting_step hchecked (by simp [waiting]))
  have hconnect : (server other ⟨true, true, false, true⟩ .notConnected built).Step
      (waiting .connect connecting) _ :=
    .loop (.connect rfl rfl)
  have wait : (scriptedServer other W I).Reachable (waiting .wait connecting) :=
    connect.step (waiting_step hconnect (by simp [waiting]))
  have meanwhile {t t' : Threads} (h : (scriptedServer other W I).Reachable (waiting .wait t))
      (hst : RunnerStep t t') : (scriptedServer other W I).Reachable (waiting .wait t') :=
    h.step (waiting_step (.meanwhile rfl
      (@MultiClientHandler.Meanwhile.waiting _ _ _ _ _ [] [] _ _ rfl (.inr hst)))
      (by simp [waiting]))
  have connected := meanwhile (meanwhile wait (.connect rfl)) (.connected rfl)
  have step {a b : Threads} (hbusy : a.main ≠ .idle)
      (h : MainStep (serveRequest Debugger.scripted) a stoppedDb b stoppedDb) :
      DataClientHandler.InCall Debugger.scripted (a, stoppedDb) (b, stoppedDb) := ⟨hbusy, .inr h⟩
  have hset : (dataClient Debugger.scripted).setupConnection
      ⟨.loop, .idle, .noReq, false, [], [], .notConnected, [], [], []⟩ stoppedDb
      (readyAfter [] [] []) :=
    ⟨.tail (.tail (.single (step (by simp) (.setup rfl))) (step (by simp) (.testConnecting rfl)))
      (step (by simp) (.testError rfl)), rfl⟩
  have hwait : (server other ⟨true, true, false, true⟩ .notConnected built).Step
      (waiting .wait ⟨.loop, .idle, .noReq, false, [], [], .notConnected, [], [], []⟩) _ :=
    .loop (.wait rfl rfl rfl (@MultiClientHandler.SetupConnection.connects _ _ _ _ _ _ [] [] [] _ _
      rfl rfl .nil (.inr hset) rfl))
  exact connected.step ⟨hwait, held_serving stoppedDb_fits (by simp [readyAfter]),
    fun h => by cases h⟩

/-- The client of the scripted VM, once it is connected. -/
def connectedClient : DBClient :=
  { DBClient.new Serial.blank with
    vmInfos := stoppedDb.infos
    udp := stoppedDb.view
    state := .vmStopped }

theorem connect_served :
    ∃ res, serveRequest Debugger.scripted .runCommand stoppedDb [ReqType.connect.toByte] stoppedDb
        res ∧
      Makes .connect (.new Serial.blank) [([ReqType.connect.toByte], res)] (.ok ())
        connectedClient := by
  obtain ⟨res, hrun, hres⟩ := @DataClientHandler.runCommand_connect _ Debugger.scripted stoppedDb
    Serial.blank rfl stoppedDb_fits
  exact ⟨res, ⟨_, [], [], hrun []⟩, DBClient.makes_connect rfl hres⟩

/-- The client that has asked for one instruction. -/
def runningClient : DBClient := { connectedClient with state := .vmRunning }

theorem resume_served :
    serveRequest Debugger.scripted .runCommand stoppedDb [ReqType.resume.toByte, 2] resumedDb
        [ReqType.resume.toByte] ∧
      Makes (.resume .step) connectedClient
        [([ReqType.resume.toByte, 2], [ReqType.resume.toByte])] (.ok ()) runningClient :=
  ⟨⟨Serial.blank, [], [], rfl⟩, DBClient.makes_resume rfl rfl rfl⟩

theorem talks_serving {pc : Pc} {db : Debugger UpdateInfos} {t : Threads} :
    Talks (serving (C := ClientState) pc db t) db t := ⟨rfl, _, rfl, rfl, rfl⟩

/-- A request to this server is received, executed and answered. -/
theorem scripted_exchange {exs : List Exchange} {inBuff outBuff req res : Bytes}
    {db db' : Debugger UpdateInfos} (hserve : serveRequest Debugger.scripted .runCommand db req db' res)
    (hdb : db.Fits) (hdb' : db'.Fits) :
    (fitting (anyClient Debugger.scripted) ⟨true, true, false, true⟩ .notConnected built).Steps
      (serving .command db (readyAfter exs inBuff outBuff))
      (serving .head db' (readyAfter (exs ++ [(req, res)]) req res)) :=
  Machine.Steps.mono (fun _ _ => scripted_fitting)
    (@exchange_steps _ _ _ (anyClient _) _ _ _ Debugger.Fits (fun _ => True) db db' (fun _ _ => True)
      exs inBuff outBuff req res hserve hdb hdb' fun _ _ => trivial)

theorem scripted_again {exs : List Exchange} {inBuff outBuff : Bytes} {db : Debugger UpdateInfos}
    (hst : DbControl.isStopped db.state = true) (hdb : db.Fits) :
    (fitting (anyClient Debugger.scripted) ⟨true, true, false, true⟩ .notConnected built).Steps
      (serving .head db (readyAfter exs inBuff outBuff))
      (serving .command db (readyAfter exs inBuff outBuff)) :=
  Machine.Steps.mono (fun _ _ => scripted_fitting)
    (@again_steps _ _ _ (anyClient _) _ _ _ Debugger.Fits (fun _ => True) db (fun _ _ => True)
      exs inBuff outBuff hst hdb fun _ _ => trivial)

/-- A request that leaves the debugger alone. -/
theorem idle_exchange {exs : List Exchange} {inBuff outBuff req res : Bytes}
    (hserve : serveRequest Debugger.scripted .runCommand stoppedDb req stoppedDb res) :
    (fitting (anyClient Debugger.scripted) ⟨true, true, false, true⟩ .notConnected built).Steps
      (serving .command stoppedDb (readyAfter exs inBuff outBuff))
      (serving .command stoppedDb (readyAfter (exs ++ [(req, res)]) req res)) :=
  (scripted_exchange hserve stoppedDb_fits stoppedDb_fits).trans (scripted_again rfl stoppedDb_fits)

theorem idle_reachable :
    (fitting (anyClient Debugger.scripted) ⟨true, true, false, true⟩ .notConnected built).Reachable
      (serving .command stoppedDb (readyAfter [] [] [])) :=
  scripted_reachable (@ready_reachable _ (fun _ => True) fun _ _ => True)

/-- The exchanges of a client that connects and asks for one instruction. -/
def connectResume (res : Bytes) : List Exchange :=
  [([ReqType.connect.toByte], res), ([ReqType.resume.toByte, 2], [ReqType.resume.toByte])]

/-- Its handler, after the program has stopped by itself behind this instruction. -/
def steppedAfter (res : Bytes) : ServerApp UpdateInfos (ClientState ⊕ Threads) :=
  serving .command steppedDb
    (readyAfter (connectResume res) [ReqType.resume.toByte, 2] [ReqType.resume.toByte])

/-- The program executes the instruction that it was resumed for. -/
theorem stepped_steps {res : Bytes} (hW : ∀ x ∈ connectResume res, W x)
    (hI : ∀ t, I (serving .update resumedDb t) (serving .poll steppedDb t)) :
    (scriptedServer other W I).Steps
      (serving .head resumedDb
        (readyAfter (connectResume res) [ReqType.resume.toByte, 2] [ReqType.resume.toByte]))
      (steppedAfter res) := by
  have hup : Debugger.Step Debugger.scripted resumedDb (.update ⟨.ok, 5⟩) steppedDb :=
    .update rfl rfl
  exact (update_steps rfl hup rfl resumedDb_fits steppedDb_fits hW (hI _)).trans
    (again_steps rfl steppedDb_fits hW)

theorem stepped_reachable {res : Bytes} (hconnect : serveRequest Debugger.scripted .runCommand
      stoppedDb [ReqType.connect.toByte] stoppedDb res) (hW : ∀ x ∈ connectResume res, W x)
    (hI : ∀ t, I (serving .update resumedDb t) (serving .poll steppedDb t)) :
    (scriptedServer other W I).Reachable (steppedAfter res) := by
  have hW₁ : ∀ x ∈ [([ReqType.connect.toByte], res)], W x := fun x hx => hW x (by
    rw [List.mem_singleton.mp hx]
    exact List.mem_cons_self)
  have connected := (@ready_reachable other W I).steps
    (exchange_steps hconnect stoppedDb_fits stoppedDb_fits hW₁)
  have again := connected.steps (again_steps rfl stoppedDb_fits hW₁)
  have resumed := again.steps (exchange_steps resume_served.1 stoppedDb_fits resumedDb_fits hW)
  exact resumed.steps (stepped_steps hW hI)

theorem scripted_built : DataClientServerRunner.Built built := ⟨rfl, rfl, rfl, rfl, rfl, rfl⟩

end Scripted

/-! ## The client and the debugger -/

section Agreement

open DBClient (Makes Talked)

variable {db db' db'' : Debugger V} {t t' t'' : Threads} {c c' : DBClient} {exs : List Exchange}

/-- Exchanges whose requests were made, and some of whose responses were got. -/
theorem exists_rest {xs ys : List Exchange} {qs : List Bytes}
    (hreq : ys.map Prod.fst <+: xs.map Prod.fst ++ qs) (hres : xs.map Prod.snd <+: ys.map Prod.snd) :
    ∃ rest, ys = xs ++ rest ∧ rest.map Prod.fst <+: qs := by
  induction xs generalizing ys with
  | nil => exact ⟨ys, rfl, hreq⟩
  | cons x xs ih =>
    cases ys with
    | nil => simp at hres
    | cons y ys =>
      simp only [List.map_cons, List.cons_append, List.cons_prefix_cons] at hreq hres
      obtain ⟨rest, rfl, hrest⟩ := ih hreq.2 hres.2
      exact ⟨rest, by rw [Prod.ext hreq.1.symm hres.1, List.cons_append], hrest⟩

/-- With no message on its way, the exchanges of the client are those of the server. -/
theorem answered_eq (hi : DataClientServerRunner.Inv t) (hreq : t.received = exs.map Prod.fst)
    (hres : t.sent = exs.map Prod.snd) : t.answered = exs := by
  obtain ⟨h1, h2, -⟩ := hi.counts
  rw [hreq, ← List.append_nil (exs.map Prod.fst)] at h1
  obtain ⟨rest, hans, hrest⟩ := exists_rest h1 (hres ▸ h2)
  rw [hans, List.map_eq_nil_iff.mp (List.prefix_nil.mp hrest), List.append_nil]

/-- With no message on its way, every `CHECK_STOPPED` got its answer. -/
theorem checked_exs (hb : DataClientServerRunner.Built t₀)
    (h : (fitting cli conf c₀ t₀).Reachable s) (ht : Talks s db t)
    (hreq : t.received = exs.map Prod.fst) (hres : t.sent = exs.map Prod.snd) :
    DBClient.Checked exs := by
  have htold := Dialogue.told (ht.reaches hb h)
  rw [answered_eq (ht.inv hb h.of_within.1) hreq hres] at htold
  exact htold.checked

/-- The first answer tells that the program is stopped. -/
theorem first_stopped (hb : DataClientServerRunner.Built t₀)
    (h : (fitting cli conf c₀ t₀).Reachable s) (ht : Talks s db t) {x : Exchange}
    (hx : t.answered = [x]) {udp : DBClientUpdate} (htold : told x = some udp) :
    udp.stopped = true := by
  obtain ⟨⟨db₀, exs₀⟩, ⟨hst, rfl, hfits⟩, hsteps⟩ := (ht.reaches hb h).from_init
  obtain ⟨db₁, udp', os, is', hrun⟩ := Dialogue.stopped_answer hst hsteps hx
  rcases DataClientHandler.runCommand_told hst hfits hrun with hview | ⟨hnone, -⟩
  · obtain rfl := Option.some.inj (htold.symm.trans hview)
    rfl
  · cases htold.symm.trans hnone

/-- With no message on its way, what the client knows from its exchanges is so, and stays so until
one of them resumes the program. -/
theorem known_view (hb : DataClientServerRunner.Built t₀)
    (h : (fitting cli conf c₀ t₀).Reachable s) (ht : Talks s db t)
    (hreq : t.received = exs.map Prod.fst) (hres : t.sent = exs.map Prod.snd)
    {udp : DBClientUpdate} (hknown : known exs = some udp) :
    (DbControl.isStopped db.state = true ∧ udp = db.view) ∧
    ∀ s' db' t', (fitting cli conf c₀ t₀).Steps s s' → Talks s' db' t' →
      ∃ more, t'.answered = exs ++ more ∧ ((∀ x ∈ more, ¬ Resumes x) →
        DbControl.isStopped db'.state = true ∧ udp = db'.view) := by
  have hexs := answered_eq (ht.inv hb h.of_within.1) hreq hres
  have htold := Dialogue.told (ht.reaches hb h)
  rw [hexs] at htold
  obtain ⟨hst, hudp⟩ := htold.known _ hknown
  refine ⟨⟨hst, hudp⟩, fun s' db' t' hs ht' => ?_⟩
  have hsteps := ht.steps hb h hs ht'
  rw [hexs] at hsteps
  obtain ⟨more, hmore, hsame⟩ := Dialogue.stays hst hsteps
  refine ⟨more, hmore, fun hno => ?_⟩
  have hv := hsame hno
  exact ⟨hv.state ▸ hst, by rw [hudp, hv.view_eq]⟩

/-- With no message on its way, a client that takes the program for stopped is right, and knows
where it is; and there it stays until an exchange resumes it, which only a `resume` that returns does. -/
theorem agreement (hb : DataClientServerRunner.Built t₀)
    (h : (fitting cli conf c₀ t₀).Reachable s) (ht : Talks s db t) (hc : Talked c exs)
    (hreq : t.received = exs.map Prod.fst) (hres : t.sent = exs.map Prod.snd)
    (hstate : c.state = .vmStopped) :
    (DbControl.isStopped db.state = true ∧ c.udp = db.view) ∧
    (∀ s' db' t', (fitting cli conf c₀ t₀).Steps s s' → Talks s' db' t' →
      ∃ more, t'.answered = exs ++ more ∧ ((∀ x ∈ more, ¬ Resumes x) →
        DbControl.isStopped db'.state = true ∧ c.udp = db'.view)) ∧
    ∀ (α : Type) (k : DBClient.ApiCall α) more r c', Makes k c more r c' →
      ∀ x ∈ more, Resumes x → k.IsResume ∧ ∃ a, r = .ok a := by
  have hchecked := checked_exs hb h ht hreq hres
  obtain ⟨hnow, hlater⟩ := known_view hb h ht hreq hres (hc.known hchecked hstate)
  exact ⟨hnow, hlater, fun _ k more r c' hk x hx => hk.resumes hx⟩

/-- A client that connects before the first instruction. -/
theorem agreement_connected :
    ∃ (res : Bytes) (c : DBClient), Talked c [([ReqType.connect.toByte], res)] ∧
      Talks (serving (C := ClientState) .command stoppedDb
          (readyAfter [([ReqType.connect.toByte], res)] [ReqType.connect.toByte] res)) stoppedDb
        (readyAfter [([ReqType.connect.toByte], res)] [ReqType.connect.toByte] res) ∧
      DbControl.isStopped stoppedDb.state = true ∧ c.udp = stoppedDb.view := by
  obtain ⟨res, hserve, hconnect⟩ := connect_served
  have htalked := Talked.call .connect (.start Serial.blank) hconnect
  exact ⟨res, _, htalked, talks_serving, (agreement scripted_built
    (idle_reachable.steps (idle_exchange hserve)) talks_serving htalked rfl rfl rfl).1⟩

/-- The error of a `STOP` that finds the program stopped. -/
def stoppedMsg : Bytes := lit "Cannot stop already stopped program\n"

/-- A `STOP` is refused while the program is stopped. -/
theorem stop_answer {d d' : Dialogue V} (hst : DbControl.isStopped d.1.state = true)
    (h : (Dialogue.machine api).Steps d d') {res : Bytes} {more : List Exchange}
    (hx : d'.2 = d.2 ++ ([ReqType.stop.toByte], res) :: more) :
    res = errResponse (what stoppedMsg) := by
  obtain ⟨db, udp, os, is', hrun⟩ := Dialogue.stopped_answer hst h hx
  have hans : (DataClientHandler.runCommand api udp).on ⟨d.1, [ReqType.stop.toByte], os⟩ =
      (.ok (), ⟨d.1, [], errResponse (what stoppedMsg)⟩) := answer_error rfl
  exact congrArg DataClientHandler.Session.os (Prod.mk.inj (hrun.symm.trans hans)).2

/-- A `CHECK_STOPPED` tells where it is. -/
theorem checkStopped_answer {d d' : Dialogue V} (hst : DbControl.isStopped d.1.state = true)
    (hfits : d.1.Fits) (h : (Dialogue.machine api).Steps d d') {res : Bytes} {more : List Exchange}
    (hx : d'.2 = d.2 ++ ([ReqType.checkStopped.toByte], res) :: more) :
    told ([ReqType.checkStopped.toByte], res) = some d.1.view := by
  obtain ⟨db, udp, os, is', hrun⟩ := Dialogue.stopped_answer hst h hx
  exact (DataClientHandler.runCommand_told hst hfits hrun).resolve_right fun hne => hne.2 rfl

/-- After one such exchange it is where it was. -/
theorem still_stopped {d d' : Dialogue V} (hst : DbControl.isStopped d.1.state = true)
    (h : (Dialogue.machine api).Steps d d') {ty : ReqType} (hty : ty ≠ .resume) {res : Bytes}
    (hx : d'.2 = d.2 ++ [([ty.toByte], res)]) : Debugger.SameView d.1 d'.1 := by
  obtain ⟨more, hmore, hsame⟩ := Dialogue.stays hst h
  obtain rfl := List.append_cancel_left (hx.symm.trans hmore)
  exact hsame fun y hy => by
    rw [List.mem_singleton.mp hy]
    exact DBClient.not_resumes hty _

/-- A `STOP` that the server answers after the program stopped by itself leaves the program and the
client as they were, and the next `check_stopped` tells the client where the program is. -/
theorem late_stop (hb : DataClientServerRunner.Built t₀)
    (h : (fitting cli conf c₀ t₀).Reachable s) (ht : Talks s db t)
    (hst : DbControl.isStopped db.state = true)
    (hs : (fitting cli conf c₀ t₀).Steps s s') (ht' : Talks s' db' t') {x : Exchange}
    (hx : t'.answered = t.answered ++ [x]) {r : Except Fault Unit}
    (hstop : Makes .stop c [x] r c') :
    r = .error (.vmError stoppedMsg) ∧ c' = c ∧ Debugger.SameView db db' ∧
    ∀ s'' db'' t'' y r' c'', (fitting cli conf c₀ t₀).Steps s' s'' → Talks s'' db'' t'' →
      t''.answered = t'.answered ++ [y] → Makes .checkStopped c' [y] r' c'' →
      r' = .ok () ∧ c''.state = .vmStopped ∧ c''.udp = db''.view ∧ Debugger.SameView db' db'' := by
  obtain ⟨-, res, ⟨hreq, rfl, hr⟩ | ⟨res', -, htwo, -⟩⟩ := hstop.stop
  swap
  · simp at htwo
  obtain rfl : x = ([ReqType.stop.toByte], res) := List.head_eq_of_cons_eq hreq
  have hsteps := ht.steps hb h hs ht'
  have hsame : Debugger.SameView db db' := still_stopped hst hsteps (by decide) hx
  obtain rfl := stop_answer hst hsteps hx
  refine ⟨?_, rfl, hsame, fun s'' db'' t'' y r' c'' hs' ht'' hy hcheck => ?_⟩
  · rw [hr, response_err _ (by decide)]
    rfl
  have hst' : DbControl.isStopped db'.state = true := hsame.state ▸ hst
  have hfits : db'.Fits := (h.steps hs).of_within.2 _ ht'.1
  obtain ⟨-, res', hreq', hcase⟩ := hcheck.checkStopped
  obtain rfl : y = ([ReqType.checkStopped.toByte], res') := List.head_eq_of_cons_eq hreq'
  have hsteps' := ht'.steps hb (h.steps hs) hs' ht''
  have htold := checkStopped_answer hst' hfits hsteps' hy
  have hsame' : Debugger.SameView db' db'' := still_stopped hst' hsteps' (by decide) hy
  rcases hcase with ⟨hnone, -⟩ | ⟨hok, u, hu, rfl⟩
  · rw [htold] at hnone
    cases hnone
  · obtain rfl := Option.some.inj (htold.symm.trans hu)
    exact ⟨hok, rfl, hsame'.view_eq.symm, hsame'⟩

/-- A client connects, resumes for one instruction, and then stops the program, which has stopped
meanwhile: the `stop` throws, and `check_stopped` tells where the program is. -/
theorem late_stop_session :
    ∃ res₀ c res res' c', (fitting (anyClient Debugger.scripted) ⟨true, true, false, true⟩
        .notConnected built).Reachable (steppedAfter res₀) ∧
      DbControl.isStopped steppedDb.state = true ∧ Talked c (connectResume res₀) ∧
      c.state = .vmRunning ∧
      Makes .stop c [([ReqType.stop.toByte], res)] (.error (.vmError stoppedMsg)) c ∧
      Makes .checkStopped c [([ReqType.checkStopped.toByte], res')] (.ok ()) c' ∧
      c'.state = .vmStopped ∧ c'.udp = steppedDb.view := by
  obtain ⟨res, hserve, hconnect⟩ := connect_served
  have htalked := (Talked.call .connect (.start Serial.blank) hconnect).call _ resume_served.2
  have hreach := @stepped_reachable (anyClient _) (fun _ => True) (fun _ _ => True) res hserve
    (fun _ _ => trivial) fun _ => trivial
  -- the `stop`
  have hserve' : serveRequest Debugger.scripted .runCommand steppedDb [ReqType.stop.toByte] steppedDb
      (errResponse (what stoppedMsg)) := ⟨Serial.blank, [], [], answer_error rfl⟩
  have hlen : (what stoppedMsg).length ≤ maxBytes := by decide
  have hstop := @DBClient.makes_stop runningClient _ _ rfl (@response_err .stop ⟨⟩ _ hlen)
  have hstopped := @scripted_exchange (connectResume res) [ReqType.resume.toByte, 2]
    [ReqType.resume.toByte] _ _ _ _ hserve' steppedDb_fits steppedDb_fits
  obtain ⟨-, -, -, hnext⟩ := late_stop scripted_built (scripted_reachable hreach) talks_serving rfl
    hstopped talks_serving rfl hstop
  -- the `check_stopped`
  obtain ⟨res', hrun, hres⟩ := @DataClientHandler.runCommand_checkStopped _ Debugger.scripted
    steppedDb Serial.blank rfl steppedDb_fits
  have hcheck := @DBClient.makes_checkStopped runningClient _ _ rfl hres rfl
  obtain ⟨-, hstate, hudp, -⟩ := hnext _ _ _ _ _ _ ((scripted_again rfl steppedDb_fits).trans
    (scripted_exchange ⟨Serial.blank, [], [], hrun []⟩ steppedDb_fits steppedDb_fits)) talks_serving
    rfl hcheck
  exact ⟨res, _, _, _, _, scripted_reachable hreach, rfl, htalked, rfl, hstop, hcheck, hstate, hudp⟩

end Agreement

end ServerApp

end Odb
