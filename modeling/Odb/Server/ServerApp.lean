import Odb.Lib.Machine
import Odb.Server.CallStack
import Odb.Server.ClientHandler

/-!
# The server loop (`server/server-app.cc`)

The VM calls `loop()` before every instruction. The call follows the update of the VM, and does not
return while the program is stopped and there is a client: it executes the commands of the client.

* `Step`: `loop()`, in steps between which it is in the places `Pc`; between them the threads of the
  handlers go on.
* `Inv`: what holds at each place.
* `reachable_run`: what the server does to the debugger is a run of the debugger.
* `Step.serves`: what a step does to a connected handler.
* `loop_safe`: the VM executes no instruction while the debugger is stopped, no assertion fails, and
  nothing waits for a client that is gone.
-/

namespace Odb

/-- Where the thread of the VM is. -/
inductive Pc where
  /-- Outside of `loop()`. -/
  | vm
  /-- At `_db->on_update()`. -/
  | update
  /-- At the test of `NOT_CONNECTED`. -/
  | poll
  /-- At the beginning of the body of `for (;;)`. -/
  | head
  /-- At the second test of `_db_is_stopped()` in it. -/
  | checked
  /-- At the assertion of `_connect()`. -/
  | connect
  /-- In the `for (;;)` of `_connect()`. -/
  | wait
  /-- At the assertion after `_connect()`. -/
  | command
  /-- After the `for (;;)`. -/
  | leave
  /-- An assertion failed, or an exception left `loop()`. -/
  | failed
deriving DecidableEq, Repr

structure ServerApp (V H : Type) where
  /-- `_conf.enabled`. -/
  enabled : Bool
  db : Option (Debugger V)
  client : Option (MultiClientHandler H)
  pc : Pc
  /-- The last update of the VM was `ERROR` or `EXIT`. -/
  ended : Bool

namespace ServerApp

variable {V H : Type} {api : VMApi V} (ch : ClientHandler api H) (conf : ServerConfig)
  (cli data : H)

/-- `_stop_db()`. -/
def stopDb : DbM V Unit := do
  if DbControl.isStopped (← get).state then return
  Debugger.stop

/-- What `loop()` does after the `for (;;)`. -/
def release (client : ClientState) : DbM V Unit := do
  if client = .disconnected ∧ (← get).state = .stopped then Debugger.resume .toFinish

/-- Goes on at `pc` after a call of the debugger. -/
def afterDb (s : ServerApp V H) (pc : Pc) : Except Fault Unit × Debugger V → ServerApp V H
  | (.ok _, db) => { s with db := some db, pc }
  | (.error _, db) => { s with db := some db, pc := .failed }

/-- Goes on at `pc` after a call of the client. -/
def afterClient (s : ServerApp V H) (pc : MultiClientHandler H → Pc) :
    Option (MultiClientHandler H × Debugger V) → ServerApp V H
  | some (m, db) => { s with client := some m, db := some db, pc := pc m }
  | none => { s with pc := .failed }

/-- Goes on after the first call of `setup_connection()`: switching from disconnected to connected
stops the program. -/
def afterPoll (s : ServerApp V H) (db : Debugger V) : Option (MultiClientHandler H) → ServerApp V H
  | some m =>
    let s := { s with client := some m }
    s.afterDb .head ((if m.state = ClientState.connected then stopDb else pure ()).on db)
  | none => { s with pc := .failed }

/-- `_init()`, `db` being the debugger after `on_init`. -/
def init (s : ServerApp V H) (db : Debugger V) : ServerApp V H :=
  let s := s.afterDb .poll ((if conf.nostart then stopDb else pure ()).on db)
  let multiCli := MultiClientHandler.new conf cli data
  if multiCli.empty then -- `_shutdown()`
    { s with enabled := false, db := none, client := none, pc := .vm }
  else { s with client := some multiCli }

/-- A step of `loop()`. The VM calls it until a call with the update `ERROR` or `EXIT` has
returned. -/
inductive LoopStep : ServerApp V H → ServerApp V H → Prop where
  | disabled {s : ServerApp V H} : s.pc = .vm → s.enabled = false → LoopStep s s
  | init {s : ServerApp V H} {db : Debugger V} : s.pc = .vm → s.enabled = true → s.db = none →
      Debugger.Started api db → LoopStep s (s.init conf cli data db)
  | call {s : ServerApp V H} {db : Debugger V} : s.pc = .vm → s.enabled = true → s.db = some db →
      s.ended = false → LoopStep s { s with pc := .update }
  | update {s : ServerApp V H} {db db' : Debugger V} {udp : UpdateInfos} : s.pc = .update →
      s.db = some db → Debugger.Step api db (.update udp) db' →
      LoopStep s { s with
        db := some db', pc := .poll, ended := udp.state = .error ∨ udp.state = .exit }
  | updateAsserts {s : ServerApp V H} {db : Debugger V} : s.pc = .update → s.db = some db →
      DbControl.isRunning db.state = false → LoopStep s { s with pc := .failed }
  | poll {s : ServerApp V H} {db : Debugger V} {m : MultiClientHandler H}
      {r : Option (MultiClientHandler H)} : s.pc = .poll → s.db = some db → s.client = some m →
      m.state = .notConnected → m.SetupConnection ch db r →
      LoopStep s (s.afterPoll db r)
  | pollSkip {s : ServerApp V H} {m : MultiClientHandler H} : s.pc = .poll → s.client = some m →
      m.state ≠ .notConnected → LoopStep s { s with pc := .head }
  | gone {s : ServerApp V H} {m : MultiClientHandler H} : s.pc = .head → s.client = some m →
      m.state = .disconnected → LoopStep s { s with pc := .leave }
  | check {s : ServerApp V H} {db : Debugger V} {m : MultiClientHandler H}
      {r : Option (MultiClientHandler H × Debugger V)} : s.pc = .head → s.db = some db →
      s.client = some m → DbControl.isStopped db.state = false → m.state = .connected →
      m.CheckStopped ch db r → LoopStep s (s.afterClient (fun _ => .checked) r)
  | checkSkip {s : ServerApp V H} {db : Debugger V} {m : MultiClientHandler H} : s.pc = .head →
      s.db = some db → s.client = some m → m.state ≠ .disconnected →
      ¬ (DbControl.isStopped db.state = false ∧ m.state = .connected) →
      LoopStep s { s with pc := .checked }
  | checked {s : ServerApp V H} {db : Debugger V} : s.pc = .checked → s.db = some db →
      LoopStep s { s with pc := if DbControl.isStopped db.state then .connect else .leave }
  | connect {s : ServerApp V H} {m : MultiClientHandler H} : s.pc = .connect →
      s.client = some m →
      LoopStep s { s with pc := match m.state with
        | .disconnected => .failed
        | .connected => .command
        | .notConnected => .wait }
  | wait {s : ServerApp V H} {db : Debugger V} {m : MultiClientHandler H}
      {r : Option (MultiClientHandler H)} : s.pc = .wait → s.db = some db → s.client = some m →
      m.SetupConnection ch db r →
      LoopStep s (s.afterClient (fun m' => if m'.state = .connected then .command else .wait)
        (r.map (·, db)))
  | commandAsserts {s : ServerApp V H} {m : MultiClientHandler H} : s.pc = .command →
      s.client = some m → m.state ≠ .connected → LoopStep s { s with pc := .failed }
  | command {s : ServerApp V H} {db : Debugger V} {m : MultiClientHandler H}
      {r : Option (MultiClientHandler H × Debugger V)} : s.pc = .command → s.db = some db →
      s.client = some m → m.state = .connected → m.RunCommand ch db r →
      LoopStep s (s.afterClient (fun _ => .head) r)
  | leave {s : ServerApp V H} {db : Debugger V} {m : MultiClientHandler H} : s.pc = .leave →
      s.db = some db → s.client = some m → LoopStep s (s.afterDb .vm ((release m.state).on db))

/-- A step of the server: of `loop()`, or of a handler meanwhile. -/
inductive Step : ServerApp V H → ServerApp V H → Prop where
  | loop {s s' : ServerApp V H} : LoopStep ch conf cli data s s' → Step s s'
  | meanwhile {s : ServerApp V H} {m m' : MultiClientHandler H} : s.client = some m →
      MultiClientHandler.Meanwhile ch m m' → Step s { s with client := some m' }

/-- The server with the configuration `conf`, whose handlers begin as `cli` and `data`. -/
def machine : Machine (ServerApp V H) where
  Init s := s = ⟨conf.enabled, none, none, .vm, false⟩
  Step := Step ch conf cli data

/-! ## The debugger -/

/-- The program is at its end. -/
def Finished (s : DbState) : Prop := s = .error ∨ s = .exit

/-- `c'` is started if `c` is, and at its end if and only if `c` is. -/
def SameEnd (c c' : DbControl) : Prop :=
  (c.state ≠ .notStarted → c'.state ≠ .notStarted) ∧ (Finished c'.state ↔ Finished c.state)

theorem SameEnd.refl (c : DbControl) : SameEnd c c := ⟨id, Iff.rfl⟩

theorem sameEnd_resume {c c' : DbControl} {t : ResumeType} (h : c.resume t = .ok c') :
    SameEnd c c' := by
  obtain ⟨h1, h2, rfl⟩ := DbControl.resume_ok h
  cases t <;> simp [SameEnd, Finished, DbControl.runState, h1, h2]

theorem sameEnd_stop {c c' : DbControl} (h : c.stop = .ok c') : SameEnd c c' := by
  obtain ⟨hr, rfl⟩ := DbControl.stop_ok h
  simp only [DbControl.isRunning, decide_eq_true_eq] at hr
  simp [SameEnd, Finished, hr]

theorem sameEnd_stopped {db db' : Debugger V} (h : Debugger.stop.on db = (.ok (), db')) :
    SameEnd db.toDbControl db'.toDbControl := by
  unfold Debugger.stop at h
  rw [Debugger.onControl_on] at h
  split at h
  · next c hc =>
    cases h
    exact sameEnd_stop hc
  · cases h

/-- No call of the API starts or finishes the program. -/
theorem sameEnd_control (k : Debugger.Call) (c : DbControl) : SameEnd c (k.control c) := by
  cases k with
  | addBreakpoint addr =>
    refine DbControl.getD_toOption (.refl c) fun c' h => ?_
    obtain ⟨-, -, rfl⟩ := DbControl.addBreakpoint_ok h
    exact .refl c
  | delBreakpoint addr =>
    refine DbControl.getD_toOption (.refl c) fun c' h => ?_
    obtain ⟨-, -, rfl⟩ := DbControl.delBreakpoint_ok h
    exact .refl c
  | resume type => exact DbControl.getD_toOption (.refl c) fun c' => sameEnd_resume
  | stop => exact DbControl.getD_toOption (.refl c) fun c' => sameEnd_stop
  | _ => exact .refl c

theorem sameEnd_commands {db db' : Debugger V} (h : Commands api db db') :
    SameEnd db.toDbControl db'.toDbControl := by
  induction h with
  | refl => exact .refl _
  | @tail db₁ db₂ _ hst ih =>
    obtain ⟨k, hk⟩ := hst
    have h2 := sameEnd_control k db₁.toDbControl
    rw [← hk.control] at h2
    exact ⟨h2.1 ∘ ih.1, h2.2.trans ih.2⟩

/-- An update brings a running program to its end if and only if it says so. -/
theorem update_finished {c c' : DbControl} {udp : UpdateInfos} (h : c.update udp = .ok c') :
    c'.state ≠ .notStarted ∧ (Finished c'.state → udp.state = .error ∨ udp.state = .exit) := by
  unfold DbControl.update at h
  by_cases hr : DbControl.isRunning c.state = true
  · rw [assertThat_pos hr, ok_bind] at h
    simp only [DbControl.isRunning, decide_eq_true_eq] at hr
    unfold DbControl.applyUpdate at h
    split at h
    · cases h
      exact ⟨by simp, fun _ => .inl ‹_›⟩
    · cases h
      exact ⟨by simp, fun _ => .inr ‹_›⟩
    · cases hs : DbControl.updateStack c.callStack c.insAddr c.uninit udp with
      | error =>
        rw [hs, error_bind] at h
        cases h
      | ok stack =>
        rw [hs, ok_bind] at h
        cases h
        unfold DbControl.nextState
        grind [Finished]
  · simp [assertThat, hr] at h

/-! ## The invariant -/

/-- What holds at the place `pc`, with the debugger in the state `d` and the client in the state
`c`. -/
def At : Pc → DbState → ClientState → Prop
  | .vm, d, c => DbControl.isRunning d = true ∨ Finished d ∧ c = .disconnected
  | .update, d, _ => DbControl.isRunning d = true
  | .poll, _, _ | .head, _, _ => True
  | .checked, d, c => c = .disconnected → DbControl.isStopped d = false
  | .connect, d, c => DbControl.isStopped d = true ∧ c ≠ .disconnected
  | .wait, d, c => DbControl.isStopped d = true ∧ c = .notConnected
  | .command, d, c => DbControl.isStopped d = true ∧ c = .connected
  | .leave, d, c => c = .disconnected ∨ DbControl.isStopped d = false
  | .failed, _, _ => False

/-- What holds in every state once there is a debugger. -/
structure Ready (s : ServerApp V H) (db : Debugger V) (m : MultiClientHandler H) : Prop where
  hasDb : s.db = some db
  hasClient : s.client = some m
  ok : m.Ok ch
  started : db.state ≠ .notStarted
  ended : Finished db.state → s.ended = true
  place : At s.pc db.state m.state

/-- What always holds. -/
def Inv (s : ServerApp V H) : Prop :=
  (s.db = none ∧ s.client = none ∧ s.pc = .vm ∧ s.ended = false) ∨ ∃ db m, s.Ready ch db m

/-- `_stop_db()` of a started debugger returns, and the program is stopped or at its end. -/
theorem stopDb_on {db : Debugger V} (h : db.state ≠ .notStarted) :
    ∃ db', stopDb.on db = (.ok (), db') ∧ SameEnd db.toDbControl db'.toDbControl := by
  unfold stopDb
  rw [Prog.on_bind_ok (Prog.on_get db)]
  by_cases hst : DbControl.isStopped db.state = true
  · rw [if_pos hst]
    exact ⟨db, rfl, .refl _⟩
  · rw [if_neg hst]
    have hstop : db.toDbControl.stop = .ok { db.toDbControl with state := .stopped } := by
      simp only [DbControl.isStopped, decide_eq_true_eq, not_or] at hst
      unfold DbControl.stop
      rw [assertThat_pos h, ok_bind, if_neg (by simp [hst]), if_neg hst.1]
      rfl
    refine ⟨{ db with toDbControl := { db.toDbControl with state := .stopped } }, ?_,
      sameEnd_stop hstop⟩
    show (Debugger.onControl DbControl.stop).on db = _
    rw [Debugger.onControl_on, hstop]

/-- `_stop_db()` that returns leaves a stopped program. -/
theorem stopDb_stopped {db db' : Debugger V} (h : stopDb.on db = (.ok (), db')) :
    DbControl.isStopped db'.state = true := by
  unfold stopDb at h
  rw [Prog.on_bind_ok (Prog.on_get db)] at h
  split at h
  · next hst =>
    obtain ⟨-, rfl⟩ := Prod.mk.inj h
    exact hst
  · unfold Debugger.stop at h
    rw [Debugger.onControl_on] at h
    split at h
    · next c hc =>
      obtain ⟨-, rfl⟩ := Prod.mk.inj h
      obtain ⟨-, rfl⟩ := DbControl.stop_ok hc
      rfl
    · cases h

/-- Where `loop()` leaves the program: it runs, or it is at its end and nobody waits for it. -/
theorem release_on {db : Debugger V} {c : ClientState} (hn : db.state ≠ .notStarted)
    (h : c = .disconnected ∨ DbControl.isStopped db.state = false) :
    ∃ db', (release c).on db = (.ok (), db') ∧ SameEnd db.toDbControl db'.toDbControl ∧
      At .vm db'.state c := by
  unfold release
  rw [Prog.on_bind_ok (Prog.on_get db)]
  by_cases hst : c = .disconnected ∧ db.state = .stopped
  · have hres : db.toDbControl.resume .toFinish =
        .ok { db.toDbControl with state := .runningToFinish } := by
      unfold DbControl.resume
      rw [if_neg (by simp [hst.2])]
    rw [if_pos hst]
    refine ⟨{ db with toDbControl := { db.toDbControl with state := .runningToFinish } }, ?_,
      sameEnd_resume hres, .inl rfl⟩
    show (Debugger.onControl (·.resume .toFinish)).on db = _
    rw [Debugger.onControl_on, hres]
  · rw [if_neg hst]
    refine ⟨db, rfl, .refl _, ?_⟩
    unfold At
    cases hs : db.state <;> simp_all [DbControl.isRunning, DbControl.isStopped, Finished]

section Step

variable {ch conf cli data} {s s' : ServerApp V H} {db : Debugger V} {m : MultiClientHandler H}

theorem Inv.of_db (hi : Inv ch s) (h : s.db = some db) : ∃ m, s.Ready ch db m := by
  rcases hi with ⟨hnone, -⟩ | ⟨db', m, hr⟩
  · rw [hnone] at h
    cases h
  · obtain rfl := Option.some.inj (hr.hasDb.symm.trans h)
    exact ⟨m, hr⟩

theorem Inv.of_client (hi : Inv ch s) (h : s.client = some m) : ∃ db, s.Ready ch db m := by
  rcases hi with ⟨-, hnone, -⟩ | ⟨db, m', hr⟩
  · rw [hnone] at h
    cases h
  · obtain rfl := Option.some.inj (hr.hasClient.symm.trans h)
    exact ⟨db, hr⟩

theorem Inv.ready (hi : Inv ch s) (hdb : s.db = some db) (hm : s.client = some m) :
    s.Ready ch db m := by
  obtain ⟨m', hr⟩ := hi.of_db hdb
  obtain rfl := Option.some.inj (hr.hasClient.symm.trans hm)
  exact hr

theorem Ready.at (h : s.Ready ch db m) {pc : Pc} (hpc : s.pc = pc) : At pc db.state m.state :=
  hpc ▸ h.place

/-- A step to another place. -/
theorem Ready.goto (h : s.Ready ch db m) {pc : Pc} (hpc : At pc db.state m.state) :
    Inv ch { s with pc } := .inr ⟨db, m, h.hasDb, h.hasClient, h.ok, h.started, h.ended, hpc⟩

/-- A step that does commands to the debugger, or none. -/
theorem Ready.move (h : s.Ready ch db m) {db' : Debugger V} {m' : MultiClientHandler H} {pc : Pc}
    (hm : m'.Ok ch) (hsame : SameEnd db.toDbControl db'.toDbControl)
    (hpc : At pc db'.state m'.state) :
    Inv ch { s with db := some db', client := some m', pc } :=
  .inr ⟨db', m', rfl, rfl, hm, hsame.1 h.started, fun hf => h.ended (hsame.2.mp hf), hpc⟩

/-- Every step of `loop()` keeps the invariant. -/
theorem LoopStep.inv (h : LoopStep ch conf cli data s s') (hi : Inv ch s) : Inv ch s' := by
  cases h with
  | disabled => exact hi
  | @init db hpc hen hnone hstart =>
    obtain ⟨hst, -⟩ := hstart.members
    have hn : db.state ≠ .notStarted := by simp [hst]
    have hover : s.ended = false := by
      rcases hi with ⟨-, -, -, h⟩ | ⟨db', m, hr⟩
      · exact h
      · rw [hr.hasDb] at hnone
        cases hnone
    obtain ⟨db', hdb, hsame⟩ : ∃ db', (if conf.nostart then stopDb else pure ()).on db =
        (.ok (), db') ∧ SameEnd db.toDbControl db'.toDbControl := by
      split
      · exact stopDb_on hn
      · exact ⟨db, rfl, .refl _⟩
    unfold ServerApp.init afterDb
    rw [hdb]
    simp only
    split
    · exact .inl ⟨rfl, rfl, rfl, hover⟩
    · refine .inr ⟨db', _, rfl, rfl, MultiClientHandler.ok_new conf cli data, hsame.1 hn, ?_, trivial⟩
      rw [hsame.2, hst]
      simp [Finished]
  | call hpc hen hdb hover =>
    obtain ⟨m, hr⟩ := hi.of_db hdb
    refine hr.goto ((hr.at hpc).resolve_right fun hf => ?_)
    rw [hr.ended hf.1] at hover
    cases hover
  | @update db db' udp hpc hdb hst =>
    obtain ⟨m, hr⟩ := hi.of_db hdb
    obtain ⟨hn, hf⟩ := update_finished hst.control
    exact .inr ⟨db', m, rfl, hr.hasClient, hr.ok, hn, fun h => decide_eq_true (hf h), trivial⟩
  | updateAsserts hpc hdb hrun =>
    obtain ⟨m, hr⟩ := hi.of_db hdb
    rw [hr.at hpc] at hrun
    cases hrun
  | @poll db m r hpc hdb hm hst hset =>
    have hr := hi.ready hdb hm
    obtain ⟨m', rfl, hok, -⟩ := hset.ok hr.ok hst
    obtain ⟨db', hrun, hsame⟩ : ∃ db', (if m'.state = ClientState.connected then stopDb
        else pure ()).on db = (.ok (), db') ∧ SameEnd db.toDbControl db'.toDbControl := by
      split
      · exact stopDb_on hr.started
      · exact ⟨db, rfl, .refl _⟩
    simp only [afterPoll, afterDb, hrun]
    exact hr.move hok hsame trivial
  | pollSkip hpc hm =>
    obtain ⟨db, hr⟩ := hi.of_client hm
    exact hr.goto trivial
  | gone hpc hm hst =>
    obtain ⟨db, hr⟩ := hi.of_client hm
    exact hr.goto (.inl hst)
  | @check db m r hpc hdb hm hrun hst hcall =>
    have hr := hi.ready hdb hm
    obtain ⟨m', db', rfl, hok, hres⟩ := hcall.ok hr.ok hst
    refine hr.move hok ?_ ?_
    · rcases hres with ⟨-, rfl | hstop⟩ | ⟨-, rfl⟩
      · exact .refl _
      · exact sameEnd_stopped hstop
      · exact .refl _
    · intro hgone
      rcases hres with ⟨hc, -⟩ | ⟨-, rfl⟩
      · rw [hc] at hgone
        cases hgone
      · exact hrun
  | @checkSkip db m hpc hdb hm hst hno =>
    have hr := hi.ready hdb hm
    exact hr.goto fun hgone => absurd hgone hst
  | @checked db hpc hdb =>
    obtain ⟨m, hr⟩ := hi.of_db hdb
    refine hr.goto ?_
    split
    · next hst =>
      refine ⟨hst, fun hgone => ?_⟩
      rw [hr.at hpc hgone] at hst
      cases hst
    · next hst => exact .inr (Bool.not_eq_true _ ▸ hst)
  | @connect m hpc hm =>
    obtain ⟨db, hr⟩ := hi.of_client hm
    obtain ⟨hst, hgone⟩ := hr.at hpc
    refine hr.goto ?_
    split
    · next h => exact absurd h hgone
    · next h => exact ⟨hst, h⟩
    · next h => exact ⟨hst, h⟩
  | @wait db m r hpc hdb hm hset =>
    have hr := hi.ready hdb hm
    obtain ⟨hst, hc⟩ := hr.at hpc
    obtain ⟨m', rfl, hok, hgone⟩ := hset.ok hr.ok hc
    have hat : At (if m'.state = .connected then .command else .wait) db.state m'.state := by
      split
      · next h => exact ⟨hst, h⟩
      · next h =>
        refine ⟨hst, ?_⟩
        cases hs : m'.state <;> simp_all
    exact hr.move hok (.refl _) hat
  | @commandAsserts m hpc hm hc =>
    obtain ⟨db, hr⟩ := hi.of_client hm
    exact absurd (hr.at hpc).2 hc
  | @command db m r hpc hdb hm hst hcall =>
    have hr := hi.ready hdb hm
    obtain ⟨m', db', rfl, hok, hres⟩ := hcall.ok hr.ok hst
    exact hr.move hok (hres.elim (sameEnd_commands ·.2) (sameEnd_commands ·.2.1)) trivial
  | @leave db m hpc hdb hm =>
    have hr := hi.ready hdb hm
    obtain ⟨db', hrun, hsame, hat⟩ := release_on hr.started (hr.at hpc)
    rw [hrun]
    exact .inr ⟨db', m, rfl, hr.hasClient, hr.ok, hsame.1 hr.started,
      fun hf => hr.ended (hsame.2.mp hf), hat⟩

theorem Step.inv (h : Step ch conf cli data s s') (hi : Inv ch s) : Inv ch s' := by
  cases h with
  | loop h => exact h.inv hi
  | @meanwhile m m' hm hw =>
    obtain ⟨db, hr⟩ := hi.of_client hm
    obtain ⟨hok, hst⟩ := hw.ok hr.ok
    exact .inr ⟨db, m', hr.hasDb, rfl, hok, hr.started, hr.ended, hst ▸ hr.place⟩

end Step

/-! ## The calls of the client handler -/

inductive HandlerCall where
  | setupConnection
  | runCommand
  | checkStopped
deriving DecidableEq, Repr

/-- The call of the client handler that `loop()` is about to make. -/
def nextCall (s : ServerApp V H) : Option HandlerCall :=
  match s.pc, s.db, s.client with
  | .poll, some _, some m => if m.state = .notConnected then some .setupConnection else none
  | .wait, some _, some _ => some .setupConnection
  | .head, some db, some m =>
    if DbControl.isStopped db.state = false ∧ m.state = .connected then some .checkStopped else none
  | .command, some _, some m => if m.state = .connected then some .runCommand else none
  | _, _, _ => none

/-- The client handler sees that the client is gone. -/
def Gone (s : ServerApp V H) : Prop := ∃ m, s.client = some m ∧ m.state = .disconnected

/-! ## The loop -/

/-- `loop()` waits for a client or for a command. -/
def Waits (pc : Pc) : Prop := pc = .connect ∨ pc = .wait ∨ pc = .command

section Reachable

variable {ch conf cli data} {s s' : ServerApp V H}

theorem reachable_inv (h : (machine ch conf cli data).Reachable s) : Inv ch s := by
  refine h.invariant (fun s hs => ?_) fun s s' _ hi hst => ?_
  · obtain rfl : s = _ := hs
    exact .inl ⟨rfl, rfl, rfl, rfl⟩
  · exact Step.inv hst hi

@[simp] theorem afterDb_client (s : ServerApp V H) (pc : Pc) (r : Except Fault Unit × Debugger V) :
    (s.afterDb pc r).client = s.client := by
  rcases r with ⟨_ | _, db⟩ <;> rfl

/-- What the calls of the handlers keep holds of every handler. -/
theorem LoopStep.all {P : H → Prop} (hP : ch.Keeps P) (hcli : P cli) (hdata : P data)
    (h : LoopStep ch conf cli data s s') (hs : ∀ m, s.client = some m → m.All P) :
    ∀ m, s'.client = some m → m.All P := by
  cases h with
  | init =>
    intro m hm
    unfold ServerApp.init at hm
    simp only at hm
    split at hm
    · cases hm
    · cases hm
      exact MultiClientHandler.all_new hcli hdata
  | @poll db m r _ _ hm _ hset =>
    cases r with
    | none => exact hs
    | some m' =>
      intro m'' hm''
      simp only [afterPoll, afterDb_client] at hm''
      cases hm''
      exact hset.all hP (hs m hm) m' rfl
  | @check db m r _ _ hm _ _ hcall =>
    cases r with
    | none => exact hs
    | some p =>
      intro m' hm'
      cases hm'
      exact MultiClientHandler.CallMain.all hP.checkStopped (hs m hm) hcall p rfl
  | @wait db m r _ _ hm hset =>
    cases r with
    | none => exact hs
    | some m' =>
      intro m'' hm''
      cases hm''
      exact hset.all hP (hs m hm) m' rfl
  | @command db m r _ _ hm _ hcall =>
    cases r with
    | none => exact hs
    | some p =>
      intro m' hm'
      cases hm'
      exact MultiClientHandler.CallMain.all hP.runCommand (hs m hm) hcall p rfl
  | leave =>
    intro m hm
    rw [afterDb_client] at hm
    exact hs m hm
  | _ => exact hs

theorem reachable_all {P : H → Prop} (hP : ch.Keeps P) (hcli : P cli) (hdata : P data)
    (h : (machine ch conf cli data).Reachable s) : ∀ m, s.client = some m → m.All P := by
  induction h with
  | init hs =>
    obtain rfl : _ = _ := hs
    exact fun m hm => by cases hm
  | step _ hst ih =>
    cases hst with
    | loop hst => exact hst.all hP hcli hdata ih
    | meanwhile hm hw =>
      intro m hm'
      cases hm'
      exact hw.all hP (ih _ hm)

/-- Where it makes no call, `loop()` leaves the client handler alone. -/
theorem LoopStep.client_eq (h : LoopStep ch conf cli data s s') (hi : Inv ch s)
    {m : MultiClientHandler H} (hm : s.client = some m) (hno : nextCall s = none) :
    s'.client = some m := by
  obtain ⟨db, hr⟩ := hi.of_client hm
  cases h with
  | init _ _ hnone =>
    rw [hr.hasDb] at hnone
    cases hnone
  | poll hpc hdb hm' hn => simp [nextCall, hpc, hdb, hm', hn] at hno
  | check hpc hdb hm' hst hn => simp [nextCall, hpc, hdb, hm', hst, hn] at hno
  | wait hpc hdb hm' => simp [nextCall, hpc, hdb, hm'] at hno
  | command hpc hdb hm' hn => simp [nextCall, hpc, hdb, hm', hn] at hno
  | leave =>
    rw [afterDb_client]
    exact hm
  | _ => exact hm

/-- Where it makes a call, that is its step. -/
theorem LoopStep.of_call (h : LoopStep ch conf cli data s s') (hi : Inv ch s) {c : HandlerCall}
    (hc : nextCall s = some c) :
    ∃ db m, s.Ready ch db m ∧ match c with
      | .setupConnection => m.state = .notConnected ∧ ∃ r, m.SetupConnection ch db r ∧
          ((s.pc = .poll ∧ s' = s.afterPoll db r) ∨ (s.pc = .wait ∧ s' = s.afterClient
            (fun m' => if m'.state = .connected then .command else .wait) (r.map (·, db))))
      | .runCommand => m.state = .connected ∧ ∃ r, m.RunCommand ch db r ∧
          s' = s.afterClient (fun _ => .head) r
      | .checkStopped => m.state = .connected ∧ ∃ r, m.CheckStopped ch db r ∧
          s' = s.afterClient (fun _ => .checked) r := by
  cases h with
  | @poll db m r hpc hdb hm hn hset =>
    simp only [nextCall, hpc, hdb, hm, hn, if_true] at hc
    cases hc
    exact ⟨db, m, hi.ready hdb hm, hn, r, hset, .inl ⟨hpc, rfl⟩⟩
  | @check db m r hpc hdb hm hst hn hcall =>
    simp only [nextCall, hpc, hdb, hm, hst, hn, and_self, if_true] at hc
    cases hc
    exact ⟨db, m, hi.ready hdb hm, hn, r, hcall, rfl⟩
  | @wait db m r hpc hdb hm hset =>
    simp only [nextCall, hpc, hdb, hm] at hc
    cases hc
    have hr := hi.ready hdb hm
    exact ⟨db, m, hr, (hr.at hpc).2, r, hset, .inr ⟨hpc, rfl⟩⟩
  | @command db m r hpc hdb hm hn hcall =>
    simp only [nextCall, hpc, hdb, hm, hn, if_true] at hc
    cases hc
    exact ⟨db, m, hi.ready hdb hm, hn, r, hcall, rfl⟩
  | pollSkip hpc hm hn =>
    obtain ⟨db, hr⟩ := hi.of_client hm
    simp [nextCall, hpc, hr.hasDb, hm, hn] at hc
  | gone hpc hm hn =>
    obtain ⟨db, hr⟩ := hi.of_client hm
    simp [nextCall, hpc, hr.hasDb, hm, hn] at hc
  | checkSkip hpc hdb hm _ hno => simp [nextCall, hpc, hdb, hm, hno] at hc
  | commandAsserts hpc hm hn =>
    obtain ⟨db, hr⟩ := hi.of_client hm
    simp [nextCall, hpc, hr.hasDb, hm, hn] at hc
  | disabled hpc | init hpc | call hpc | update hpc | updateAsserts hpc | checked hpc
    | connect hpc | leave hpc => simp [nextCall, hpc] at hc

/-- A client that is gone stays gone. -/
theorem Step.disconnected (h : Step ch conf cli data s s') (hi : Inv ch s)
    (hc : ∃ m, s.client = some m ∧ m.state = .disconnected) :
    ∃ m, s'.client = some m ∧ m.state = .disconnected := by
  obtain ⟨m, hm, hst⟩ := hc
  obtain ⟨db, hr⟩ := hi.of_client hm
  cases h with
  | meanwhile hm' hw =>
    obtain rfl := Option.some.inj (hm.symm.trans hm')
    exact ⟨_, rfl, (hw.ok hr.ok).2.trans hst⟩
  | loop h =>
    cases h with
    | init _ _ hnone =>
      rw [hr.hasDb] at hnone
      cases hnone
    | poll _ _ hm' hn | check _ _ hm' _ hn | command _ _ hm' hn =>
      obtain rfl := Option.some.inj (hm.symm.trans hm')
      rw [hst] at hn
      cases hn
    | wait hpc _ _ =>
      have := (hr.at hpc).2
      rw [hst] at this
      cases this
    | @leave db' m' _ _ _ =>
      refine ⟨m, ?_, hst⟩
      rcases (release m'.state).on db' with ⟨_ | _, db''⟩ <;> exact hm
    | _ => exact ⟨m, hm, hst⟩

/-- A client that has connected does not wait for a connection again. -/
theorem Step.connected (h : Step ch conf cli data s s') (hi : Inv ch s) {m : MultiClientHandler H}
    (hm : s.client = some m) (hn : m.state ≠ .notConnected) :
    ∃ m', s'.client = some m' ∧ m'.state ≠ .notConnected := by
  obtain ⟨db, hr⟩ := hi.of_client hm
  cases h with
  | meanwhile hm' hw =>
    obtain rfl := Option.some.inj (hm.symm.trans hm')
    exact ⟨_, rfl, (hw.ok hr.ok).2 ▸ hn⟩
  | loop hst =>
    cases hst with
    | init _ _ hnone =>
      rw [hr.hasDb] at hnone
      cases hnone
    | poll _ _ hm' hnot =>
      obtain rfl := Option.some.inj (hm.symm.trans hm')
      exact absurd hnot hn
    | wait hpc _ hm' =>
      obtain rfl := Option.some.inj (hm.symm.trans hm')
      exact absurd (hr.at hpc).2 hn
    | check _ _ hm' _ hc hcall | command _ _ hm' hc hcall =>
      obtain rfl := Option.some.inj (hm.symm.trans hm')
      cases hcall with
      | asserts hnone => exact absurd hnone (hr.ok.main_ne_none hn)
      | returns =>
        refine ⟨_, rfl, ?_⟩
        simp only
        split
        · simp
        · exact hn
    | leave =>
      refine ⟨m, ?_, hn⟩
      rw [afterDb_client]
      exact hm
    | _ => exact ⟨m, hm, hn⟩

/-- For every configuration, VM, handler and order of steps: when `loop()` returns the program runs,
or it is at its end and the client is gone; `on_update` is entered only while the program runs; no
assertion fails; and once the client is gone nothing waits for it. -/
theorem loop_safe (h : (machine ch conf cli data).Reachable s) :
    (s.pc = .vm → s.enabled = true → ∀ db, s.db = some db →
      DbControl.isRunning db.state = true ∨
        Finished db.state ∧ ∃ m, s.client = some m ∧ m.state = .disconnected) ∧
    (s.pc = .update → ∃ db, s.db = some db ∧ DbControl.isRunning db.state = true) ∧
    s.pc ≠ .failed ∧
    ∀ m, s.client = some m → m.state = .disconnected →
      ∀ s', (machine ch conf cli data).Steps s s' → ¬ Waits s'.pc := by
  have hi := reachable_inv h
  refine ⟨fun hpc _ db hdb => ?_, fun hpc => ?_, fun hpc => ?_, fun m hm hst s' hs => ?_⟩
  · obtain ⟨m, hr⟩ := hi.of_db hdb
    exact (hr.at hpc).imp id fun ⟨hf, hc⟩ => ⟨hf, m, hr.hasClient, hc⟩
  · rcases hi with ⟨-, -, hvm, -⟩ | ⟨db, m, hr⟩
    · rw [hpc] at hvm
      cases hvm
    · exact ⟨db, hr.hasDb, hr.at hpc⟩
  · rcases hi with ⟨-, -, hvm, -⟩ | ⟨db, m, hr⟩
    · rw [hpc] at hvm
      cases hvm
    · exact hr.at hpc
  · have hkeeps : ∀ s s', (machine ch conf cli data).Reachable s →
        (∃ m, s.client = some m ∧ m.state = .disconnected) → Step ch conf cli data s s' →
        ∃ m, s'.client = some m ∧ m.state = .disconnected :=
      fun s s' hr hp hst => hst.disconnected (reachable_inv hr) hp
    obtain ⟨m', hm', hgone⟩ := h.keeps hkeeps ⟨m, hm, hst⟩ hs
    obtain ⟨db, hr⟩ := (reachable_inv (h.steps hs)).of_client hm'
    rintro (hpc | hpc | hpc)
    · exact (hr.at hpc).2 hgone
    · rw [(hr.at hpc).2] at hgone
      cases hgone
    · rw [(hr.at hpc).2] at hgone
      cases hgone

/-! ## The runs of the debugger -/

theorem run_stopDb {db₀ db db' : Debugger V} {es : List Debugger.Event}
    (h : Debugger.Run api db₀ es db) (hstop : stopDb.on db = (.ok (), db')) :
    ∃ es', Debugger.Run api db₀ es' db' := by
  unfold stopDb at hstop
  rw [Prog.on_bind_ok (Prog.on_get db)] at hstop
  split at hstop
  · obtain ⟨-, rfl⟩ := Prod.mk.inj hstop
    exact ⟨es, h⟩
  · exact ⟨_, h.step (.call (c := .stop) hstop trivial)⟩

theorem run_release {db₀ db db' : Debugger V} {es : List Debugger.Event} {client : ClientState}
    (h : Debugger.Run api db₀ es db) (hrel : (release client).on db = (.ok (), db')) :
    ∃ es', Debugger.Run api db₀ es' db' := by
  unfold release at hrel
  rw [Prog.on_bind_ok (Prog.on_get db)] at hrel
  split at hrel
  · exact ⟨_, h.step (.call (c := .resume .toFinish) hrel trivial)⟩
  · obtain ⟨-, rfl⟩ := Prod.mk.inj hrel
    exact ⟨es, h⟩

theorem run_commands {db₀ db db' : Debugger V} {es : List Debugger.Event}
    (h : Debugger.Run api db₀ es db) (hcmd : Commands api db db') :
    ∃ es', Debugger.Run api db₀ es' db' := by
  induction hcmd with
  | refl => exact ⟨es, h⟩
  | tail _ hst ih =>
    obtain ⟨es', hrun⟩ := ih
    obtain ⟨k, hk⟩ := hst
    exact ⟨_, hrun.step hk⟩

/-- What the server does to the debugger is a run of it. -/
theorem reachable_run (h : (machine ch conf cli data).Reachable s) {db : Debugger V}
    (hdb : s.db = some db) :
    ∃ db₀ es, Debugger.Started api db₀ ∧ Debugger.Run api db₀ es db := by
  induction h generalizing db with
  | init hs =>
    obtain rfl : _ = _ := hs
    cases hdb
  | @step s s' hr hst ih =>
    have hi := reachable_inv hr
    have hafter {db₁ db' : Debugger V} {pc : Pc} {s₁ : ServerApp V H} {c : DbM V Unit}
        (hon : c.on db₁ = (.ok (), db')) (hdb : (s₁.afterDb pc (c.on db₁)).db = some db) :
        db' = db := by
      rw [hon] at hdb
      exact Option.some.inj hdb
    cases hst with
    | meanwhile => exact ih hdb
    | loop hst =>
      cases hst with
      | @init db₁ _ _ _ hstart =>
        have hstarted : db₁.state ≠ .notStarted := by simp [hstart.members.1]
        obtain ⟨db', hon, es, hrun⟩ : ∃ db', (if conf.nostart then stopDb else pure ()).on db₁ =
            (.ok (), db') ∧ ∃ es, Debugger.Run api db₁ es db' := by
          split
          · obtain ⟨db', hstop, -⟩ := stopDb_on hstarted
            exact ⟨db', hstop, run_stopDb .start hstop⟩
          · exact ⟨db₁, rfl, [], .start⟩
        unfold ServerApp.init at hdb
        dsimp only at hdb
        split at hdb
        · cases hdb
        · obtain rfl := hafter hon hdb
          exact ⟨db₁, es, hstart, hrun⟩
      | @update db₁ db' udp _ hdb₁ hstep =>
        obtain rfl := Option.some.inj hdb
        obtain ⟨db₀, es, hs, hrun⟩ := ih hdb₁
        exact ⟨db₀, _, hs, hrun.step hstep⟩
      | @poll db₁ m r _ hdb₁ hm _ hset =>
        obtain ⟨db₀, es, hs, hrun⟩ := ih hdb₁
        cases r with
        | none => exact ih hdb
        | some m' =>
          obtain ⟨db', hon, es', hrun'⟩ : ∃ db', (if m'.state = ClientState.connected then stopDb
              else pure ()).on db₁ = (.ok (), db') ∧ ∃ es, Debugger.Run api db₀ es db' := by
            split
            · obtain ⟨db', hstop, -⟩ := stopDb_on (hi.ready hdb₁ hm).started
              exact ⟨db', hstop, run_stopDb hrun hstop⟩
            · exact ⟨db₁, rfl, es, hrun⟩
          obtain rfl := hafter hon hdb
          exact ⟨db₀, es', hs, hrun'⟩
      | @check db₁ m r _ hdb₁ hm _ hn hcall =>
        obtain ⟨db₀, es, hs, hrun⟩ := ih hdb₁
        obtain ⟨m', db', rfl, -, hres⟩ := hcall.ok (hi.ready hdb₁ hm).ok hn
        obtain rfl := Option.some.inj hdb
        rcases hres with ⟨-, rfl | hstop⟩ | ⟨-, rfl⟩
        · exact ⟨db₀, es, hs, hrun⟩
        · exact ⟨db₀, _, hs, hrun.step (.call (c := .stop) hstop trivial)⟩
        · exact ⟨db₀, es, hs, hrun⟩
      | @wait db₁ m r _ hdb₁ hm hset =>
        cases r with
        | none => exact ih hdb
        | some m' =>
          obtain rfl := Option.some.inj hdb
          exact ih hdb₁
      | @command db₁ m r _ hdb₁ hm hn hcall =>
        obtain ⟨db₀, es, hs, hrun⟩ := ih hdb₁
        obtain ⟨m', db', rfl, -, hres⟩ := hcall.ok (hi.ready hdb₁ hm).ok hn
        obtain rfl := Option.some.inj hdb
        obtain ⟨es', hrun'⟩ := run_commands hrun (hres.elim And.right fun h => h.2.1)
        exact ⟨db₀, es', hs, hrun'⟩
      | @leave db₁ m hpc hdb₁ hm =>
        obtain ⟨db₀, es, hs, hrun⟩ := ih hdb₁
        have hr := hi.ready hdb₁ hm
        obtain ⟨db', hrel, -⟩ := release_on hr.started (hr.at hpc)
        obtain rfl := hafter hrel hdb
        obtain ⟨es', hrun'⟩ := run_release hrun hrel
        exact ⟨db₀, es', hs, hrun'⟩
      | _ => exact ih hdb

/-! ## A connected handler -/

/-- A client is connected through the main handler `h`. -/
def Serves (s : ServerApp V H) (db : Debugger V) (h : H) : Prop :=
  s.db = some db ∧ ∃ m, s.client = some m ∧ m.state = .connected ∧ m.main = some h

theorem Serves.eq {db db' : Debugger V} {h h' : H} (hs : Serves s db h) (hs' : Serves s db' h') :
    db' = db ∧ h' = h := by
  obtain ⟨hdb, m, hm, -, hmain⟩ := hs
  obtain ⟨hdb', m', hm', -, hmain'⟩ := hs'
  obtain rfl := Option.some.inj (hm.symm.trans hm')
  exact ⟨Option.some.inj (hdb'.symm.trans hdb), Option.some.inj (hmain'.symm.trans hmain)⟩

/-- What a step of the server from `pc` to `pc'` does to a connected handler and the debugger. -/
inductive ServeStep (ch : ClientHandler api H) (pc pc' : Pc) :
    H → Debugger V → H → Debugger V → Prop where
  | stays {h : H} {db : Debugger V} : ServeStep ch pc pc' h db h db
  | meanwhile {h h' : H} {db : Debugger V} : ch.meanwhile h h' → ServeStep ch pc pc' h db h' db
  | update {h : H} {db db' : Debugger V} {udp : UpdateInfos} :
      Debugger.Step api db (.update udp) db' → ServeStep ch pc pc' h db h db'
  | check {h h' : H} {db db' : Debugger V} : ch.state h = .connected →
      DbControl.isStopped db.state = false → ch.checkStopped h db h' db' →
      ServeStep ch pc pc' h db h' db'
  | command {h h' : H} {db db' : Debugger V} : pc = .command → pc' = .head →
      ch.state h = .connected → DbControl.isStopped db.state = true → ch.runCommand h db h' db' →
      ServeStep ch pc pc' h db h' db'

/-- What the first step does after which the handler is connected: it was waiting, and the program
is stopped then. -/
structure Connects (ch : ClientHandler api H) (s : ServerApp V H) (h' : H) (db' : Debugger V) :
    Prop where
  waiting : ∀ m, s.client = some m → m.state = .notConnected
  setup : ∃ m h db, s.client = some m ∧ h ∈ m.wait ∧ s.db = some db ∧
    ch.setupConnection h db h' ∧ ch.state h' = .connected ∧ stopDb.on db = (.ok (), db')

/-- Of a stopped program, `_stop_db()` does nothing. -/
theorem stopDb_noop {db : Debugger V} (hst : DbControl.isStopped db.state = true) :
    stopDb.on db = (.ok (), db) := by
  unfold stopDb
  rw [Prog.on_bind_ok (Prog.on_get db), if_pos hst]
  rfl

/-- A step after which a handler is connected. -/
theorem Step.serves (hst : Step ch conf cli data s s') (hi : Inv ch s) {db' : Debugger V} {h' : H}
    (hs' : Serves s' db' h') :
    (∃ db h, Serves s db h ∧ ServeStep ch s.pc s'.pc h db h' db') ∨ Connects ch s h' db' := by
  obtain ⟨hdb', m', hm', hn', hmain'⟩ := hs'
  have hsetup {m : MultiClientHandler H} {db : Debugger V} (hdb : s.db = some db)
      (hm : s.client = some m) (hn : m.state = .notConnected)
      (hset : m.SetupConnection ch db (some m')) (hstop : stopDb.on db = (.ok (), db')) :
      Connects ch s h' db' := by
    refine ⟨fun m₁ hm₁ => ?_, ?_⟩
    · obtain rfl := Option.some.inj (hm.symm.trans hm₁)
      exact hn
    · cases hset with
      | @connects pre pre' post h h'' hmain hw _ hcall hstate =>
        obtain rfl := Option.some.inj hmain'
        exact ⟨m, h, db, hm, by simp [hw], hdb, hcall, hstate, hstop⟩
      | waits =>
        rw [hn] at hn'
        cases hn'
  cases hst with
  | @meanwhile m m₁ hm hw =>
    obtain rfl := Option.some.inj hm'
    obtain ⟨db, hr⟩ := hi.of_client hm
    have hstate := (hw.ok hr.ok).2
    cases hw with
    | waiting => exact .inl ⟨db', h', ⟨hdb', m, hm, hn', hmain'⟩, .stays⟩
    | main hmain hmean =>
      obtain rfl := Option.some.inj hmain'
      exact .inl ⟨db', _, ⟨hdb', m, hm, hn', hmain⟩, .meanwhile hmean⟩
  | loop hst =>
    cases hst with
    | init =>
      unfold ServerApp.init at hm'
      simp only at hm'
      split at hm'
      · cases hm'
      · cases hm'
        cases hmain'
    | update _ hdb hstep =>
      obtain rfl := Option.some.inj hdb'
      exact .inl ⟨_, h', ⟨hdb, m', hm', hn', hmain'⟩, .update hstep⟩
    | @poll db m r _ hdb hm hn hset =>
      cases r with
      | none => exact .inl ⟨db', h', ⟨hdb', m', hm', hn', hmain'⟩, .stays⟩
      | some m₁ =>
        simp only [afterPoll, afterDb_client] at hm'
        obtain rfl := Option.some.inj hm'
        obtain ⟨db₁, hstop, -⟩ := stopDb_on (hi.ready hdb hm).started
        simp only [afterPoll, hn', if_true, hstop, afterDb] at hdb'
        obtain rfl := Option.some.inj hdb'
        exact .inr (hsetup hdb hm hn hset hstop)
    | @wait db m r hpc hdb hm hset =>
      obtain ⟨hstopped, hn⟩ := (hi.ready hdb hm).at hpc
      cases r with
      | none => exact .inl ⟨db', h', ⟨hdb', m', hm', hn', hmain'⟩, .stays⟩
      | some m₁ =>
        obtain rfl := Option.some.inj hm'
        obtain rfl := Option.some.inj hdb'
        exact .inr (hsetup hdb hm hn hset (stopDb_noop hstopped))
    | @check db m r _ hdb hm hrun hn hcall =>
      have hok := (hi.ready hdb hm).ok
      cases hcall with
      | asserts hnone => exact absurd hnone (hok.main_ne_none (by simp [hn]))
      | returns hmain hcall =>
        obtain rfl := Option.some.inj hm'
        obtain rfl := Option.some.inj hdb'
        obtain rfl := Option.some.inj hmain'
        exact .inl ⟨db, _, ⟨hdb, m, hm, hn, hmain⟩,
          .check ((hok.main _ hmain).1.trans hn) hrun hcall⟩
    | @command db m r hpc hdb hm hn hcall =>
      have hr := hi.ready hdb hm
      cases hcall with
      | asserts hnone => exact absurd hnone (hr.ok.main_ne_none (by simp [hn]))
      | returns hmain hcall =>
        obtain rfl := Option.some.inj hm'
        obtain rfl := Option.some.inj hdb'
        obtain rfl := Option.some.inj hmain'
        exact .inl ⟨db, _, ⟨hdb, m, hm, hn, hmain⟩,
          .command hpc rfl ((hr.ok.main _ hmain).1.trans hn) (hr.at hpc).1 hcall⟩
    | @leave db m _ hdb hm =>
      rw [afterDb_client] at hm'
      obtain rfl := Option.some.inj (hm.symm.trans hm')
      have hrel : (release m.state).on db = (.ok (), db) := by
        unfold release
        rw [Prog.on_bind_ok (Prog.on_get db), if_neg (by simp [hn'])]
        rfl
      rw [hrel] at hdb'
      obtain rfl := Option.some.inj hdb'
      exact .inl ⟨_, h', ⟨hdb, m, hm, hn', hmain'⟩, .stays⟩
    | _ => exact .inl ⟨db', h', ⟨hdb', m', hm', hn', hmain'⟩, .stays⟩

/-- What holds of the handlers that wait. -/
theorem reachable_wait {P : H → Prop}
    (hsetup : ∀ h db h', P h → ch.setupConnection h db h' → ch.state h' ≠ .connected → P h')
    (hmean : ∀ h h', P h → ch.meanwhile h h' → P h') (hcli : P cli) (hdata : P data)
    (h : (machine ch conf cli data).Reachable s) :
    ∀ m, s.client = some m → ∀ h ∈ m.wait, P h := by
  have hset {m m' : MultiClientHandler H} {db : Debugger V}
      (hset : m.SetupConnection ch db (some m')) (hm : ∀ h ∈ m.wait, P h) : ∀ h ∈ m'.wait, P h := by
    cases hset with
    | connects => simp
    | waits _ hw =>
      intro h hh
      obtain ⟨i, hi, rfl⟩ := List.mem_iff_getElem.mp hh
      have hi' : i < m.wait.length := hw.length_eq ▸ hi
      have hwait := hw.get hi' hi
      exact hsetup _ _ _ (hm _ (List.getElem_mem hi')) hwait.1 hwait.2
  induction h with
  | init hs =>
    obtain rfl : _ = _ := hs
    exact fun m hm => by cases hm
  | @step s s' _ hst ih =>
    cases hst with
    | @meanwhile m m' hm hw =>
      intro m₁ hm₁
      obtain rfl := Option.some.inj hm₁
      cases hw with
      | main => exact ih m hm
      | @waiting pre post h h' hwait hmean' =>
        have hP := hmean _ _ (ih m hm h (by simp [hwait])) hmean'
        intro g hg
        rcases List.mem_append.mp hg with hg | hg
        · exact ih m hm g (by simp [hwait, hg])
        · rcases List.mem_cons.mp hg with rfl | hg
          · exact hP
          · exact ih m hm g (by simp [hwait, hg])
    | loop hst =>
      cases hst with
      | init =>
        intro m hm
        unfold ServerApp.init at hm
        simp only at hm
        split at hm
        · cases hm
        · cases hm
          exact (MultiClientHandler.all_new hcli hdata).1
      | @poll db m r _ _ hm _ hcall =>
        cases r with
        | none => exact ih
        | some m' =>
          intro m₁ hm₁
          simp only [afterPoll, afterDb_client] at hm₁
          obtain rfl := Option.some.inj hm₁
          exact hset hcall (ih m hm)
      | @wait db m r _ _ hm hcall =>
        cases r with
        | none => exact ih
        | some m' =>
          intro m₁ hm₁
          obtain rfl := Option.some.inj hm₁
          exact hset hcall (ih m hm)
      | @check db m r _ _ hm _ _ hcall | @command db m r _ _ hm _ hcall =>
        cases hcall with
        | asserts => exact ih
        | returns =>
          intro m₁ hm₁
          obtain rfl := Option.some.inj hm₁
          exact ih m hm
      | leave =>
        intro m hm
        rw [afterDb_client] at hm
        exact ih m hm
      | _ => exact ih

end Reachable

/-- A handler that may do all that the laws allow. -/
def anyClient (api : VMApi V) : ClientHandler api ClientState where
  state := id
  setupConnection _ _ h' := h' ≠ .disconnected
  runCommand _ db h' db' := (h' = .connected ∧ Commands api db db') ∨
    (h' = .disconnected ∧ Commands api db db' ∧ db'.toDbControl = db.toDbControl)
  checkStopped _ db h' db' :=
    (h' = .connected ∧ (db' = db ∨ Debugger.stop.on db = (.ok (), db'))) ∨
      (h' = .disconnected ∧ db' = db)
  meanwhile h h' := h' = h
  runCommand_spec _ h := h
  checkStopped_spec _ h := h
  meanwhile_spec h := h

/-- A client connects before the first instruction, and leaves: the program runs. -/
theorem loop_safe_left :
    ∃ s : ServerApp UpdateInfos ClientState, s.pc = .vm ∧ s.enabled = true ∧
      (∀ db, s.db = some db → DbControl.isRunning db.state = true ∨
        Finished db.state ∧ ∃ m, s.client = some m ∧ m.state = .disconnected) ∧
      ∃ db, s.db = some db ∧ db.state = .runningToFinish := by
  have start : (machine (anyClient Debugger.scripted) ⟨true, false, false, true⟩ .notConnected
    .notConnected).Reachable ⟨true, none, none, .vm, false⟩ := .init rfl
  have polled := start.step (.loop (.init rfl rfl rfl Debugger.scriptedDb_started))
  have connected := polled.step (.loop (.poll rfl rfl rfl rfl
    (@MultiClientHandler.SetupConnection.connects _ _ _ _ _ _ [] [] [] .notConnected .connected rfl
      rfl .nil (by simp [anyClient]) rfl)))
  have checked := connected.step (.loop (.checkSkip rfl rfl rfl (by simp) (by decide)))
  have command := (checked.step (.loop (.checked rfl rfl))).step (.loop (.connect rfl rfl))
  have left := command.step (.loop (.command rfl rfl rfl rfl
    (@MultiClientHandler.CallMain.returns _ _ _ _ _ _ _ .connected .disconnected _ rfl
      (.inr ⟨rfl, .refl, rfl⟩))))
  have returned := (left.step (.loop (.gone rfl rfl rfl))).step (.loop (.leave rfl rfl rfl))
  exact ⟨_, rfl, rfl, (loop_safe returned).1 rfl rfl, _, rfl, rfl⟩

end ServerApp

end Odb
