import Odb.Client.Dialogue

/-!
# A client that asks, step by step

What the server does with a request, and what the client makes of the response. The steps are those of
a server that is watched: of the debugger, of what was answered, and of the instructions of the VM.

* `exchange_steps`: a request is received, executed and answered.
* `again_steps`: while the program is stopped, the loop comes back for the next request.
* `update_steps`: while it runs, the loop lets the VM execute an instruction.
* `DBClient.makes_connect`, `makes_resume`, `makes_stop`: the calls that get such responses.
-/

namespace Odb

open Prog
open DataClientServerRunner (Threads MainStep RunnerStep)

namespace ServerApp

open DataClientHandler (dataClient serveRequest)

section Session

variable {V C : Type} {api : VMApi V}

/-- At `pc`, with a client on the handler `t`. -/
def serving (pc : Pc) (db : Debugger V) (t : Threads) : ServerApp V (C ⊕ Threads) :=
  ⟨true, some db, some ⟨.connected, [], some (.inr t)⟩, pc, false⟩

/-- The debugger is in `Q`, and what the main handler has answered is in `W`. -/
structure Held (Q : Debugger V → Prop) (W : Exchange → Prop) (s : ServerApp V (C ⊕ Threads)) :
    Prop where
  db : ∀ db, s.db = some db → Q db
  answered : ∀ m t, s.client = some m → m.main = some (.inr t) → ∀ x ∈ t.answered, W x

/-- The server, as long as the debugger is in `Q`, what it has answered in `W`, and every instruction in
`I`. -/
abbrev observed (cli : ClientHandler api C) (conf : ServerConfig) (c₀ : C) (t₀ : Threads)
    (Q : Debugger V → Prop) (W : Exchange → Prop)
    (I : ServerApp V (C ⊕ Threads) → ServerApp V (C ⊕ Threads) → Prop) :
    Machine (ServerApp V (C ⊕ Threads)) :=
  (server cli conf c₀ t₀).along fun s s' => Held Q W s' ∧ (s.pc = .update → I s s')

/-- The handler between two exchanges. -/
def readyAfter (exs : List Exchange) (inBuff outBuff : Bytes) : Threads :=
  ⟨.loop, .idle, .noReq, false, inBuff, outBuff, .connected, exs.map Prod.fst, exs,
    exs.map Prod.snd⟩

/-- The handler that has received a request. -/
def asked (exs : List Exchange) (req outBuff : Bytes) : Threads :=
  ⟨.waitStop, .idle, .hasReq, false, req, outBuff, .connected, exs.map Prod.fst ++ [req], exs,
    exs.map Prod.snd⟩

/-- The handler whose main thread has answered it. -/
def replied (exs : List Exchange) (req res : Bytes) : Threads :=
  ⟨.waitStop, .idle, .sendingRes, false, req, res, .connected, exs.map Prod.fst ++ [req],
    exs ++ [(req, res)], exs.map Prod.snd⟩

variable {cli : ClientHandler api C} {conf : ServerConfig} {c₀ : C} {t₀ t t' : Threads}
  {Q : Debugger V → Prop} {W : Exchange → Prop} {db db' : Debugger V} {pc pc' : Pc}
  {I : ServerApp V (C ⊕ Threads) → ServerApp V (C ⊕ Threads) → Prop} {exs : List Exchange}
  {inBuff outBuff req res : Bytes}

theorem held_serving (hdb : Q db) (hexs : ∀ x ∈ t.answered, W x) : Held Q W (serving (C := C) pc db t) where
  db db₁ h := by
    obtain rfl := Option.some.inj h
    exact hdb
  answered m t₁ hm ht := by
    obtain rfl := Option.some.inj hm
    obtain rfl := Sum.inr.inj (Option.some.inj ht)
    exact hexs

theorem serving_step
    (hst : (server cli conf c₀ t₀).Step (serving pc db t) (serving pc' db' t')) (hpc : pc ≠ .update)
    (hdb : Q db') (hexs : ∀ x ∈ t'.answered, W x) :
    (observed cli conf c₀ t₀ Q W I).Step (serving pc db t) (serving pc' db' t') :=
  ⟨hst, held_serving hdb hexs, fun h => absurd h hpc⟩

theorem serving_loop {s : ServerApp V (C ⊕ Threads)}
    (hst : LoopStep (cli.sum (dataClient api)) conf (.inl c₀) (.inr t₀) (serving pc db t) s)
    (hs : s = serving pc' db' t') (hpc : pc ≠ .update) (hdb : Q db')
    (hexs : ∀ x ∈ t'.answered, W x) :
    (observed cli conf c₀ t₀ Q W I).Step (serving pc db t) (serving pc' db' t') :=
  serving_step (.loop (hs ▸ hst)) hpc hdb hexs

theorem serving_meanwhile (hst : RunnerStep t t') (hpc : pc ≠ .update) (hdb : Q db)
    (hexs : ∀ x ∈ t'.answered, W x) :
    (observed cli conf c₀ t₀ Q W I).Step (serving pc db t) (serving pc db t') :=
  serving_step (.meanwhile rfl (.main rfl (.inr hst))) hpc hdb hexs

/-- A request is received, executed and answered. -/
theorem exchange_steps (hserve : serveRequest api .runCommand db req db' res) (hdb : Q db)
    (hdb' : Q db') (hexs : ∀ x ∈ exs ++ [(req, res)], W x) :
    (observed cli conf c₀ t₀ Q W I).Steps
      (serving .command db (readyAfter exs inBuff outBuff))
      (serving .head db' (readyAfter (exs ++ [(req, res)]) req res)) := by
  have hold : ∀ x ∈ exs, W x := fun x hx => hexs x (List.mem_append_left _ hx)
  have hnext : readyAfter (exs ++ [(req, res)]) req res = ⟨.loop, .idle, .noReq, false, req, res,
      .connected, exs.map Prod.fst ++ [req], exs ++ [(req, res)], exs.map Prod.snd ++ [res]⟩ := by
    unfold readyAfter
    rw [List.map_append, List.map_append]
    rfl
  have step {a b : Threads} {d d' : Debugger V} (hbusy : a.main ≠ .idle)
      (h : MainStep (serveRequest api) a d b d') : DataClientHandler.InCall api (a, d) (b, d') :=
    ⟨hbusy, .inr h⟩
  have hcall : (dataClient api).runCommand (asked exs req outBuff) db (replied exs req res) db' :=
    ⟨by simp [asked], .tail (.tail (.tail (.tail (.tail (.tail (.tail (.single
      (step (by simp) (.waitReq rfl))) (step (by simp [asked]) (.ifError rfl)))
      (step (by simp [asked]) (.getReq rfl))) (step (by simp [asked]) (.getRes rfl)))
      (step (by simp [asked]) (.reset rfl))) (step (by simp) (.execute rfl hserve)))
      (step (by simp) (.signal rfl))) (step (by simp [asked]) (.signalState rfl)), rfl⟩
  have before {a b : Threads} (hst : RunnerStep a b) (hb : b.answered = exs) :
      (observed cli conf c₀ t₀ Q W I).Step (serving .command db a)
        (serving .command db b) := serving_meanwhile hst (by simp) hdb (hb ▸ hold)
  have after {a b : Threads} (hst : RunnerStep a b) (hb : b.answered = exs ++ [(req, res)]) :
      (observed cli conf c₀ t₀ Q W I).Step (serving .head db' a)
        (serving .head db' b) := serving_meanwhile hst (by simp) hdb' (hb ▸ hexs)
  have received : (observed cli conf c₀ t₀ Q W I).Steps
      (serving .command db (readyAfter exs inBuff outBuff)) (serving .command db (asked exs req outBuff)) :=
    .tail (.tail (.single (before (.loop rfl) rfl)) (before (.recv req rfl) rfl))
      (before (.received rfl) rfl)
  have executed : (observed cli conf c₀ t₀ Q W I).Steps
      (serving .command db (readyAfter exs inBuff outBuff)) (serving .head db' (replied exs req res)) :=
    received.tail (serving_loop (.command rfl rfl rfl rfl (.returns rfl (Sum.LiftRel.inr hcall))) rfl
      (by simp) hdb' hexs)
  rw [hnext]
  exact .tail (.tail (.tail (.tail (.tail (.tail executed (after (.waitStop rfl) rfl))
    (after (.waitState rfl) rfl)) (after (.waited rfl) rfl)) (after (.check rfl) rfl))
    (after (.send rfl) rfl)) (after (.sent rfl) rfl)

/-- Where the loop goes, stopped or not. -/
theorem checked_step (hdb : Q db) (hexs : ∀ x ∈ t.answered, W x) :
    (observed cli conf c₀ t₀ Q W I).Step (serving .checked db t)
      (serving (if DbControl.isStopped db.state then .connect else .leave) db t) :=
  serving_loop (.checked rfl rfl) rfl (by simp) hdb hexs

/-- The loop of a stopped program comes back for the next request. -/
theorem again_steps (hst : DbControl.isStopped db.state = true) (hdb : Q db) (hexs : ∀ x ∈ exs, W x) :
    (observed cli conf c₀ t₀ Q W I).Steps (serving .head db (readyAfter exs inBuff outBuff))
      (serving .command db (readyAfter exs inBuff outBuff)) := by
  have skip : (observed cli conf c₀ t₀ Q W I).Step
      (serving .head db (readyAfter exs inBuff outBuff))
      (serving .checked db (readyAfter exs inBuff outBuff)) :=
    serving_loop (.checkSkip rfl rfl rfl (by simp) fun h => by simp [hst] at h) rfl (by simp) hdb hexs
  have checked : (observed cli conf c₀ t₀ Q W I).Step
      (serving .checked db (readyAfter exs inBuff outBuff))
      (serving .connect db (readyAfter exs inBuff outBuff)) := by
    have h := @checked_step _ _ _ cli conf c₀ t₀ (readyAfter exs inBuff outBuff) Q W db I hdb hexs
    rwa [if_pos hst] at h
  exact .tail (.tail (.single skip) checked)
    (serving_loop (.connect rfl rfl) rfl (by simp) hdb hexs)

/-- The loop of a running program that is asked for nothing lets the VM execute an instruction. -/
theorem update_steps {udp : UpdateInfos} (hst : DbControl.isStopped db.state = false)
    (hup : Debugger.Step api db (.update udp) db') (hgo : udp.state = .ok) (hdb : Q db) (hdb' : Q db')
    (hexs : ∀ x ∈ exs, W x) (hI : I (serving .update db (readyAfter exs inBuff outBuff))
      (serving .poll db' (readyAfter exs inBuff outBuff))) :
    (observed cli conf c₀ t₀ Q W I).Steps (serving .head db (readyAfter exs inBuff outBuff))
      (serving .head db' (readyAfter exs inBuff outBuff)) := by
  have hpoll : DataClientHandler.InCall api
      ({ readyAfter exs inBuff outBuff with main := .pollReq }, db)
      (readyAfter exs inBuff outBuff, db) := ⟨by simp, .inr (.pollReq rfl)⟩
  have hcall : (dataClient api).checkStopped (readyAfter exs inBuff outBuff) db
      (readyAfter exs inBuff outBuff) db := ⟨by simp [readyAfter], .single hpoll, rfl⟩
  have check : (observed cli conf c₀ t₀ Q W I).Step
      (serving .head db (readyAfter exs inBuff outBuff))
      (serving .checked db (readyAfter exs inBuff outBuff)) :=
    serving_loop (.check rfl rfl rfl hst rfl (.returns rfl (Sum.LiftRel.inr hcall))) rfl (by simp) hdb
      hexs
  have checked : (observed cli conf c₀ t₀ Q W I).Step
      (serving .checked db (readyAfter exs inBuff outBuff))
      (serving .leave db (readyAfter exs inBuff outBuff)) := by
    have h := @checked_step _ _ _ cli conf c₀ t₀ (readyAfter exs inBuff outBuff) Q W db I hdb hexs
    rwa [if_neg (by simp [hst])] at h
  have left : (observed cli conf c₀ t₀ Q W I).Step
      (serving .leave db (readyAfter exs inBuff outBuff))
      (serving .vm db (readyAfter exs inBuff outBuff)) :=
    serving_loop (.leave rfl rfl rfl) rfl (by simp) hdb hexs
  have called : (observed cli conf c₀ t₀ Q W I).Step
      (serving .vm db (readyAfter exs inBuff outBuff))
      (serving .update db (readyAfter exs inBuff outBuff)) :=
    serving_loop (.call rfl rfl rfl rfl) rfl (by simp) hdb hexs
  have updated : (observed cli conf c₀ t₀ Q W I).Step
      (serving .update db (readyAfter exs inBuff outBuff))
      (serving .poll db' (readyAfter exs inBuff outBuff)) := by
    have h : LoopStep (cli.sum (dataClient api)) conf (.inl c₀) (.inr t₀)
        (serving .update db (readyAfter exs inBuff outBuff)) _ := .update rfl rfl hup
    rw [hgo] at h
    exact ⟨.loop h, held_serving hdb' hexs, fun _ => hI⟩
  have polled : (observed cli conf c₀ t₀ Q W I).Step
      (serving .poll db' (readyAfter exs inBuff outBuff))
      (serving .head db' (readyAfter exs inBuff outBuff)) :=
    serving_loop (.pollSkip rfl rfl (by simp)) rfl (by simp) hdb' hexs
  exact .tail (.tail (.tail (.tail (.tail (.single check) checked) left) called) updated) polled

end Session

end ServerApp

/-! ## The calls of the client -/

namespace DataClient

/-- The request goes out, and the response comes in. -/
theorem sendReq_on {ty : ReqType} {r : Req ty} {req res : Bytes} (hreq : request r = .ok req) :
    (sendReq replay r).on [(req, res)] = (response r res, []) := by
  unfold sendReq
  rw [hreq, lift_ok, pure_bind]
  exact on_bind_ok (show (replay req).on [(req, res)] = (.ok res, []) from if_pos rfl) _

end DataClient

namespace DBClient

open DataClient (request response)

variable {c : DBClient} {req res : Bytes} {view : DBClientUpdate}

theorem assertState_replay {α : Type} {state : DBClientState} {exs : List Exchange}
    (h : c.state = state) (f : Unit → ClientM (List Exchange) α) :
    (assertState state >>= f).on ⟨c, exs⟩ = (f ()).on ⟨c, exs⟩ :=
  on_bind_ok (assertState_ok.mpr ⟨h, rfl⟩) f

/-- A client that connects gets the infos and the update of the response. -/
theorem makes_connect {infos : VMInfos} (hstate : c.state = .notConnected)
    (hres : @response .connect ⟨Serial.blank, Serial.blank⟩ res = .ok ⟨infos, view⟩) :
    Makes .connect c [([ReqType.connect.toByte], res)] (.ok ())
      { c with
        vmInfos := infos
        udp := view
        state := if view.stopped then .vmStopped else .vmRunning } := by
  refine ⟨?_, fun e he => by cases he⟩
  have hcall : (DataClient.impl DataClient.replay (.connect c.udp)).on
      [([ReqType.connect.toByte], res)] = (.ok (infos, view), []) := by
    show (DataClient.connect DataClient.replay).on _ = _
    unfold DataClient.connect
    rw [on_bind_pure, DataClient.sendReq_on rfl, hres]
    rfl
  show (assertState .notConnected >>= _).on _ = _
  rw [assertState_replay hstate, on_bind_ok (on_get _), call_returns hcall]
  rfl

/-- After a `resume` that is accepted the client takes the program for running. -/
theorem makes_resume {type : ResumeType} {r : Req .resume} (hstate : c.state = .vmStopped)
    (hreq : @request .resume ⟨type⟩ = .ok req) (hres : @response .resume ⟨type⟩ res = .ok r) :
    Makes (.resume type) c [(req, res)] (.ok ()) { c with state := .vmRunning } := by
  refine ⟨?_, fun e he => by cases he⟩
  have hcall : (DataClient.impl DataClient.replay (.resume type)).on [(req, res)] = (.ok (), []) := by
    show (DataClient.resume DataClient.replay type).on _ = _
    unfold DataClient.resume
    rw [on_bind_pure, DataClient.sendReq_on hreq, hres]
    rfl
  show (assertState .vmStopped >>= _).on _ = _
  rw [assertState_replay hstate, call_returns hcall]
  rfl

/-- A `stop` that is refused leaves the client as it was. -/
theorem makes_stop {msg : Bytes} (hstate : c.state = .vmRunning)
    (hres : @response .stop ⟨⟩ res = .error (.vmError msg)) :
    Makes .stop c [([ReqType.stop.toByte], res)] (.error (.vmError msg)) c := by
  refine ⟨?_, fun e he => by cases he; trivial⟩
  have hcall : (DataClient.impl DataClient.replay .stop).on [([ReqType.stop.toByte], res)] =
      (.error (.vmError msg), []) := by
    show (DataClient.stop DataClient.replay).on _ = _
    unfold DataClient.stop
    rw [on_bind_pure, DataClient.sendReq_on rfl, hres]
    rfl
  show (assertState .vmRunning >>= _).on _ = _
  rw [assertState_replay hstate]
  exact call_error hcall

/-- A `check_stopped` that finds the program stopped gets the update of the response. -/
theorem makes_checkStopped (hstate : c.state = .vmRunning)
    (hres : @response .checkStopped ⟨Serial.blank⟩ res = .ok ⟨view⟩) (hview : view.stopped = true) :
    Makes .checkStopped c [([ReqType.checkStopped.toByte], res)] (.ok ())
      { c with udp := view, state := .vmStopped }.discardTmpCache := by
  refine ⟨?_, fun e he => by cases he⟩
  have hcall : (DataClient.impl DataClient.replay (.checkStopped c.udp)).on
      [([ReqType.checkStopped.toByte], res)] = (.ok view, []) := by
    show (DataClient.checkStopped DataClient.replay).on _ = _
    unfold DataClient.checkStopped
    rw [on_bind_pure, DataClient.sendReq_on rfl, hres]
    rfl
  show (assertState .vmRunning >>= _).on _ = _
  rw [assertState_replay hstate, on_bind_ok (on_get _), call_returns hcall,
    on_bind_ok ((modifyClient_ok (u := ())).mpr rfl)]
  rw [if_pos hview]
  rfl

end DBClient

end Odb
