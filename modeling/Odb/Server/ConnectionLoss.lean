import Odb.Server.Runner
import Odb.Server.Serve
import Odb.Server.ServerApp

/-!
# A connection that is lost

The `DataClientHandler` behind the server loop, with its runner thread. A call of the handler is the
steps of the main thread from its entry to its return, with steps of the runner thread in between.

* `dataClient`: the handler obeys the laws of `ClientHandler`.
* `loss_noticed_iff`: once the transport failed, the next call of the handler ends the session if and
  only if it is a `run_command`.
* `connect_spins`: `_connect` waits for ever for a server that failed.
-/

namespace Odb

open DataClientServerRunner (Threads MainPc RunnerPc Kind MainStep RunnerStep)

namespace DataClientHandler

variable {V : Type} (api : VMApi V)

/-- What the two functions do between `get_req` and `signal_res`. -/
def serveRequest : Kind → Debugger V → Bytes → Debugger V → Bytes → Prop
  | .runCommand, db, req, db', res =>
    ∃ udp os is', (runCommand api udp).on ⟨db, req, os⟩ = (.ok (), ⟨db', is', res⟩)
  | .checkStopped, db, req, db', res =>
    ∃ udp os is', (checkStopped api udp).on ⟨db, req, os⟩ = (.ok (), ⟨db', is', res⟩)

/-- The two threads over the debugger. -/
abbrev threads : Machine (Threads × Debugger V) := DataClientServerRunner.machine (serveRequest api)

/-- A step during a call. -/
def InCall (a b : Threads × Debugger V) : Prop := a.1.main ≠ .idle ∧ (threads api).Step a b

/-- A call of the handler. -/
def Call (entry : MainPc) (t : Threads) (db : Debugger V) (t' : Threads) (db' : Debugger V) :
    Prop :=
  Relation.ReflTransGen (InCall api) ({ t with main := entry }, db) (t', db') ∧ t'.main = .idle

variable {api}

/-- What every step of a call keeps, the call keeps. -/
theorem Call.induction {P : Threads → Debugger V → Prop} {entry : MainPc} {t t' : Threads}
    {db db' : Debugger V} (h : Call api entry t db t' db')
    (hentry : P { t with main := entry } db)
    (hrunner : ∀ t t' db, P t db → RunnerStep t t' → P t' db)
    (hmain : ∀ t db t' db', P t db → t.main ≠ .idle →
      MainStep (serveRequest api) t db t' db' → P t' db') : P t' db' := by
  suffices ∀ p, Relation.ReflTransGen (InCall api) ({ t with main := entry }, db) p → P p.1 p.2 from
    this _ h.1
  intro p hp
  induction hp with
  | refl => exact hentry
  | tail _ hst ih =>
    obtain ⟨hbusy, ⟨hr, hdb⟩ | hm⟩ := hst
    · rw [hdb]
      exact hrunner _ _ _ ih hr
    · exact hmain _ _ _ _ ih hbusy hm

/-- Before the switch in the function `kind`. -/
def Before (kind : Kind) : MainPc → Prop
  | .waitReq | .waitError => kind = .runCommand
  | .pollReq => kind = .checkStopped
  | .ifError k | .getReq k | .getRes k | .reset k | .execute k => k = kind
  | _ => False

/-- After it. -/
def After : MainPc → Prop
  | .signal | .signalState | .idle => True
  | _ => False

/-- Where a call of a connected handler is: before the switch, after it, or the client is gone. -/
def During (kind : Kind) (R : Debugger V → Debugger V → Prop) (db : Debugger V) (t : Threads)
    (db' : Debugger V) : Prop :=
  (t.client = .connected ∧ db' = db ∧ Before kind t.main) ∨
    (t.client = .connected ∧ R db db' ∧ After t.main) ∨
    (t.client = .disconnected ∧ db' = db ∧ t.main = .idle) ∨ t.main = .failed

theorem During.step {kind : Kind} {R : Debugger V → Debugger V → Prop} (hrefl : ∀ db, R db db)
    (hR : ∀ db req db' res, serveRequest api kind db req db' res → R db db') {db₀ db db' : Debugger V}
    {t t' : Threads} (hd : During kind R db₀ t db) (hbusy : t.main ≠ .idle)
    (h : MainStep (serveRequest api) t db t' db') : During kind R db₀ t' db' := by
  unfold During at *
  cases h with
  | execute hpc hserve =>
    rcases hd with ⟨hc, rfl, hm⟩ | ⟨-, -, hm⟩ | ⟨-, -, hm⟩ | hm
    · rw [hpc] at hm
      obtain rfl : _ = kind := hm
      exact .inr (.inl ⟨hc, hR _ _ _ _ hserve, trivial⟩)
    all_goals
      rw [hpc] at hm
      cases hm
  | _ => grind [Before, After]

theorem During.runner {kind : Kind} {R : Debugger V → Debugger V → Prop} {db₀ db : Debugger V}
    {t t' : Threads} (hd : During kind R db₀ t db) (h : RunnerStep t t') : During kind R db₀ t' db := by
  obtain ⟨hc, hm⟩ := h.client
  unfold During at *
  rwa [hc, hm]

/-- A call of a connected handler that returns. -/
theorem Call.during {kind : Kind} {R : Debugger V → Debugger V → Prop} (hrefl : ∀ db, R db db)
    (hR : ∀ db req db' res, serveRequest api kind db req db' res → R db db') {entry : MainPc}
    (hentry : Before kind entry) {t t' : Threads} {db db' : Debugger V} (hc : t.client = .connected)
    (h : Call api entry t db t' db') :
    (t'.client = .connected ∧ R db db') ∨ (t'.client = .disconnected ∧ db' = db) := by
  have := h.induction (P := During kind R db) (.inl ⟨hc, rfl, hentry⟩) (fun _ _ _ => During.runner)
    fun _ _ _ _ => During.step hrefl hR
  unfold During at this
  rw [h.2] at this
  rcases this with ⟨-, -, hm⟩ | ⟨h1, h2, -⟩ | ⟨h1, h2, -⟩ | hm
  · cases hm
  · exact .inl ⟨h1, h2⟩
  · exact .inr ⟨h1, h2⟩
  · cases hm

/-- The `DataClientHandler`. Before `setup_connection` there is no runner to ask. -/
def dataClient (api : VMApi V) : ClientHandler api Threads where
  state := Threads.client
  setupConnection t db t' := Call api .setup t db t' db
  runCommand t db t' db' := t.runner ≠ .unborn ∧ Call api .waitReq t db t' db'
  checkStopped t db t' db' := t.runner ≠ .unborn ∧ Call api .pollReq t db t' db'
  meanwhile := RunnerStep
  runCommand_spec hst h := by
    have hcall := @Call.during _ api .runCommand (Commands api) (fun _ => .refl)
      (fun db req db' res ⟨udp, os, is', hrun⟩ => runCommand_commands hrun) .waitReq rfl _ _ _ _ hst
      h.2
    rcases hcall with hgo | ⟨hgone, rfl⟩
    · exact .inl hgo
    · exact .inr ⟨hgone, .refl, rfl⟩
  checkStopped_spec hst h := by
    refine @Call.during _ api .checkStopped (fun db db' => db' = db ∨ Stops db db')
      (fun _ => .inl rfl) (fun db req db' res hserve => ?_) .pollReq rfl _ _ _ _ hst h.2
    obtain ⟨udp, os, is', hrun⟩ := hserve
    exact checkStopped_stop hrun
  meanwhile_spec h := h.client.1

/-! ## Between the calls -/

/-- A handler between its calls. -/
def Between (t : Threads) : Prop := DataClientServerRunner.Inv t ∧ t.main = .idle

theorem Call.between {t t' : Threads} {db db' : Debugger V} {entry : MainPc} (hb : Between t)
    (hentry : MainStep (serveRequest api) t db { t with main := entry } db)
    (h : Call api entry t db t' db') : Between t' :=
  ⟨h.induction (P := fun t _ => DataClientServerRunner.Inv t) (hentry.inv hb.1)
    (fun _ _ _ hi hr => hr.inv hi) fun _ _ _ _ hi _ hm => hm.inv hi, h.2⟩

theorem between_setup {t t' : Threads} {db : Debugger V} (hb : Between t)
    (h : (dataClient api).setupConnection t db t') : Between t' :=
  h.between hb (.callSetup hb.2)

theorem between_runCommand {t t' : Threads} {db db' : Debugger V} (hb : Between t)
    (h : (dataClient api).runCommand t db t' db') : Between t' :=
  h.2.between hb (.callRunCommand hb.2 h.1)

theorem between_checkStopped {t t' : Threads} {db db' : Debugger V} (hb : Between t)
    (h : (dataClient api).checkStopped t db t' db') : Between t' :=
  h.2.between hb (.callCheckStopped hb.2 h.1)

theorem between_meanwhile {t t' : Threads} (hb : Between t)
    (h : (dataClient api).meanwhile t t') : Between t' :=
  ⟨RunnerStep.inv h hb.1, (RunnerStep.client h).2.trans hb.2⟩

/-! ## The calls after the transport failed -/

/-- The runner is in the state `ERROR`. -/
def Lost (t : Threads) : Prop := t.runner ≠ .unborn ∧ t.state = .error

theorem Lost.done {t : Threads} (hl : Lost t) (hi : DataClientServerRunner.Inv t) :
    t.runner = .done := by
  have hstate := hi.state
  rw [hl.2] at hstate
  have := hl.1
  cases hr : t.runner <;> rw [hr] at hstate <;> simp_all [DataClientServerRunner.StateAt]

/-- The runner is done and stays done. -/
structure Dead (t : Threads) : Prop where
  runner : t.runner = .done
  state : t.state = .error

theorem Dead.no_step {t t' : Threads} (h : Dead t) : ¬ RunnerStep t t' := by
  intro hst
  have := h.runner
  cases hst <;> simp_all

/-- A call that finds the runner dead does what its tests of `_state` say. -/
theorem Call.dead {t t' : Threads} {db db' : Debugger V} {entry : MainPc} {P : Threads → Prop}
    (hd : Dead t) (h : Call api entry t db t' db') (hentry : P { t with main := entry })
    (hstep : ∀ t db t' db', Dead t → P t → t.main ≠ .idle →
      MainStep (serveRequest api) t db t' db' → Dead t' ∧ P t' ∧ db' = db) :
    Dead t' ∧ P t' ∧ db' = db := by
  refine h.induction (P := fun t db' => Dead t ∧ P t ∧ db' = db) ⟨⟨hd.1, hd.2⟩, hentry, rfl⟩ ?_ ?_
  · exact fun _ _ _ hp hr => absurd hr hp.1.no_step
  · rintro t db₁ t' db₂ ⟨h1, h2, rfl⟩ hbusy hm
    exact hstep _ _ _ _ h1 h2 hbusy hm

theorem setup_dead {t t' : Threads} {db db' : Debugger V} (hd : Dead t)
    (h : Call api .setup t db t' db') : Dead t' ∧ t'.client = .disconnected := by
  obtain ⟨h1, h2, -⟩ := h.dead (P := fun t => t.main = .setup ∨ t.main = .testConnecting ∨
    t.main = .testError ∨ t.main = .idle ∧ t.client = .disconnected) hd (.inl rfl) (by
      rintro t db t' db' ⟨hr, hs⟩ hp hbusy hm
      cases hm <;> grind [Dead])
  exact ⟨h1, by simpa [h.2] using h2⟩

theorem checkStopped_dead {t t' : Threads} {db db' : Debugger V} (hd : Dead t)
    (h : Call api .pollReq t db t' db') : t'.client = t.client := by
  obtain ⟨-, h2, -⟩ := h.dead (P := fun t' => (t'.main = .pollReq ∨ t'.main = .idle) ∧
    t'.client = t.client) hd ⟨.inl rfl, rfl⟩ (by
      rintro t db t' db' ⟨hr, hs⟩ hp hbusy hm
      cases hm <;> grind [Dead])
  exact h2.2

theorem runCommand_dead {t t' : Threads} {db db' : Debugger V} (hd : Dead t)
    (h : Call api .waitReq t db t' db') : t'.client = .disconnected := by
  obtain ⟨-, h2, -⟩ := h.dead (P := fun t => t.main = .waitReq ∨ t.main = .waitError ∨
    t.main = .ifError .runCommand ∨ t.main = .idle ∧ t.client = .disconnected) hd (.inl rfl) (by
      rintro t db t' db' ⟨hr, hs⟩ hp hbusy hm
      cases hm <;> grind [Dead])
  simpa [h.2] using h2

/-- `run_command` returns at once. -/
theorem runCommand_dead_returns {t : Threads} (hd : Dead t) (db : Debugger V) :
    Call api .waitReq t db { t with client := .disconnected, main := .idle } db := by
  have step {a b : Threads} (hbusy : a.main ≠ .idle) (h : MainStep (serveRequest api) a db b db) :
      InCall api (a, db) (b, db) := ⟨hbusy, .inr h⟩
  have h1 : MainStep (serveRequest api) { t with main := .waitReq } db
      { t with main := .waitError } db := by
    have := @MainStep.waitReq _ (serveRequest api) { t with main := .waitReq } db rfl
    simpa [hd.state] using this
  have h2 : MainStep (serveRequest api) { t with main := .waitError } db
      { t with main := .ifError .runCommand } db := by
    have := @MainStep.waitError _ (serveRequest api) { t with main := .waitError } db rfl
    simpa [hd.state] using this
  have h3 : MainStep (serveRequest api) { t with main := .ifError .runCommand } db
      { t with client := .disconnected, main := .idle } db := by
    have := @MainStep.ifError _ (serveRequest api) { t with main := .ifError .runCommand } db _ rfl
    simpa [hd.state] using this
  exact ⟨.tail (.tail (.single (step (by simp) h1)) (step (by simp) h2)) (step (by simp) h3), rfl⟩

theorem dataClient_keeps : (dataClient api).Keeps Between where
  setupConnection _ _ _ := between_setup
  runCommand _ _ _ _ := between_runCommand
  checkStopped _ _ _ _ := between_checkStopped
  meanwhile _ _ := between_meanwhile

end DataClientHandler

namespace ServerApp

open DataClientHandler (dataClient Between Lost Dead)

variable {V C : Type} {api : VMApi V} (cli : ClientHandler api C) (conf : ServerConfig) (c₀ : C)
  (t₀ : Threads)

/-- The server, with a handler of another kind and a `DataClientHandler`. -/
abbrev server : Machine (ServerApp V (C ⊕ Threads)) :=
  machine (cli.sum (dataClient api)) conf (.inl c₀) (.inr t₀)

/-- The data handler is the only one that waits or the main one, and its runner is in the state
`ERROR`. -/
def LostIn (s : ServerApp V (C ⊕ Threads)) : Prop :=
  ∃ m t, s.client = some m ∧ Lost t ∧
    ((m.main = none ∧ m.wait = [.inr t]) ∨ m.main = some (.inr t))

/-- A step without a call of the client handler. -/
inductive QuietStep : ServerApp V (C ⊕ Threads) → ServerApp V (C ⊕ Threads) → Prop where
  | loop {s s' : ServerApp V (C ⊕ Threads)} : nextCall s = none →
      LoopStep (cli.sum (dataClient api)) conf (.inl c₀) (.inr t₀) s s' → QuietStep s s'
  | meanwhile {s : ServerApp V (C ⊕ Threads)} {m m' : MultiClientHandler (C ⊕ Threads)} :
      s.client = some m → MultiClientHandler.Meanwhile (cli.sum (dataClient api)) m m' →
      QuietStep s { s with client := some m' }

variable {cli conf c₀ t₀} {s s' : ServerApp V (C ⊕ Threads)}

/-- The data handler of a lost connection is dead. -/
theorem LostIn.dead (hb : DataClientServerRunner.Built t₀)
    (h : (server cli conf c₀ t₀).Reachable s) {m : MultiClientHandler (C ⊕ Threads)} {t : Threads}
    (hm : s.client = some m) (hl : Lost t)
    (ht : (m.main = none ∧ m.wait = [.inr t]) ∨ m.main = some (.inr t)) : Dead t := by
  have hkeeps : (cli.sum (dataClient api)).Keeps (Sum.elim (fun _ => True) Between) :=
    ClientHandler.Keeps.sum ⟨fun _ _ _ _ _ => trivial, fun _ _ _ _ _ _ => trivial,
      fun _ _ _ _ _ _ => trivial, fun _ _ _ _ => trivial⟩ DataClientHandler.dataClient_keeps
  have hcli : Sum.elim (fun _ => True) Between (Sum.inl c₀ : C ⊕ Threads) := trivial
  have hdata : Sum.elim (fun _ => True) Between (Sum.inr t₀ : C ⊕ Threads) := ⟨hb.inv, hb.main⟩
  have hall := reachable_all hkeeps hcli hdata h m hm
  have hbet : Between t := by
    rcases ht with ⟨-, hw⟩ | hmain
    · exact hall.1 (.inr t) (by simp [hw])
    · exact hall.2 (.inr t) hmain
  exact ⟨hl.done hbet.1, hl.2⟩

theorem QuietStep.step (h : QuietStep cli conf c₀ t₀ s s') :
    (server cli conf c₀ t₀).Step s s' := by
  cases h with
  | loop _ h => exact .loop h
  | meanwhile hm hw => exact .meanwhile hm hw

/-- A lost connection stays lost until the next call. -/
theorem QuietStep.lostIn (hb : DataClientServerRunner.Built t₀)
    (h : (server cli conf c₀ t₀).Reachable s) (hl : LostIn s)
    (hst : QuietStep cli conf c₀ t₀ s s') : LostIn s' := by
  obtain ⟨m, t, hm, hlost, ht⟩ := hl
  have hdead := LostIn.dead hb h hm hlost ht
  cases hst with
  | loop hno hst => exact ⟨m, t, hst.client_eq (reachable_inv h) hm hno, hlost, ht⟩
  | meanwhile hm' hw =>
    obtain rfl := Option.some.inj (hm.symm.trans hm')
    cases hw with
    | @waiting pre post hd hd' hwait hmean =>
      rcases ht with ⟨hnone, hw⟩ | hmain
      · -- the only handler that waits has no thread any more
        obtain ⟨rfl, rfl, rfl⟩ : pre = [] ∧ hd = .inr t ∧ post = [] := by
          rw [hw] at hwait
          rcases pre with _ | ⟨x, pre⟩ <;> simp_all
        cases hmean with
        | inr hmean => exact absurd hmean hdead.no_step
      · exact ⟨_, t, rfl, hlost, .inr hmain⟩
    | main hmain hmean =>
      rcases ht with ⟨hnone, -⟩ | hmain'
      · rw [hnone] at hmain
        cases hmain
      · obtain rfl := Option.some.inj (hmain'.symm.trans hmain)
        cases hmean with
        | inr hmean => exact absurd hmean hdead.no_step

/-- `setup_connection` does not tell the server loop that a handler gave up. -/
theorem setup_not_gone (hi : Inv (cli.sum (dataClient api)) s)
    (hst : LoopStep (cli.sum (dataClient api)) conf (.inl c₀) (.inr t₀) s s')
    (hc : nextCall s = some .setupConnection) : ¬ Gone s' := by
  obtain ⟨db, m, hr, hn, r, hset, hs'⟩ := hst.of_call hi hc
  obtain ⟨m', rfl, -, hgone⟩ := hset.ok hr.ok hn
  rintro ⟨m'', hm'', hst''⟩
  rcases hs' with ⟨-, rfl⟩ | ⟨-, rfl⟩
  · simp only [afterPoll, afterDb_client] at hm''
    cases hm''
    exact hgone hst''
  · cases hm''
    exact hgone hst''

/-- `check_stopped` does not see that the connection is lost. -/
theorem check_not_gone (hi : Inv (cli.sum (dataClient api)) s)
    {m : MultiClientHandler (C ⊕ Threads)} {t : Threads} (hm : s.client = some m) (hd : Dead t)
    (hmain : m.main = some (.inr t))
    (hst : LoopStep (cli.sum (dataClient api)) conf (.inl c₀) (.inr t₀) s s')
    (hc : nextCall s = some .checkStopped) : ¬ Gone s' := by
  obtain ⟨db, m₁, hr, hn, r, hcall, rfl⟩ := hst.of_call hi hc
  obtain rfl := Option.some.inj (hm.symm.trans hr.hasClient)
  rintro ⟨m', hm', hgone⟩
  cases hcall with
  | asserts hnone =>
    rw [hmain] at hnone
    cases hnone
  | returns hmain' hcall =>
    obtain rfl := Option.some.inj (hmain.symm.trans hmain')
    cases hcall with
    | @inr _ t' hcall =>
      have hsame := DataClientHandler.checkStopped_dead hd hcall.2
      have hstate : t'.client = .connected := (hsame.trans (hr.ok.main _ hmain).1).trans hn
      cases hm'
      have : (cli.sum (dataClient api)).state (Sum.inr t') = .connected := hstate
      simp [this, hn] at hgone

/-- `run_command` sees it. -/
theorem run_gone (hi : Inv (cli.sum (dataClient api)) s)
    {m : MultiClientHandler (C ⊕ Threads)} {t : Threads} (hm : s.client = some m) (hd : Dead t)
    (hmain : m.main = some (.inr t))
    (hst : LoopStep (cli.sum (dataClient api)) conf (.inl c₀) (.inr t₀) s s')
    (hc : nextCall s = some .runCommand) : Gone s' := by
  obtain ⟨db, m₁, hr, hn, r, hcall, rfl⟩ := hst.of_call hi hc
  obtain rfl := Option.some.inj (hm.symm.trans hr.hasClient)
  cases hcall with
  | asserts hnone =>
    rw [hmain] at hnone
    cases hnone
  | returns hmain' hcall =>
    obtain rfl := Option.some.inj (hmain.symm.trans hmain')
    cases hcall with
    | @inr _ t' hcall =>
      have : (cli.sum (dataClient api)).state (Sum.inr t') = .disconnected :=
        DataClientHandler.runCommand_dead hd hcall.2
      exact ⟨_, rfl, by simp [this]⟩

/-- A connected client has the data handler as the main one. -/
theorem Ready.main_of_lost {ch : ClientHandler api (C ⊕ Threads)} {db : Debugger V}
    {m : MultiClientHandler (C ⊕ Threads)} (hr : s.Ready ch db m) {t : Threads}
    (hn : m.state = .connected) (ht : (m.main = none ∧ m.wait = [.inr t]) ∨ m.main = some (.inr t)) :
    m.main = some (.inr t) :=
  ht.resolve_left fun h => hr.ok.main_ne_none (by simp [hn]) h.1

/-- The next call of `loop()` after the connection is lost. -/
theorem lost_call (hb : DataClientServerRunner.Built t₀)
    (h : (server cli conf c₀ t₀).Reachable s) (hl : LostIn s) {c : HandlerCall}
    (hc : nextCall s = some c) :
    ((∃ s', LoopStep (cli.sum (dataClient api)) conf (.inl c₀) (.inr t₀) s s') ∧
      ∀ s', LoopStep (cli.sum (dataClient api)) conf (.inl c₀) (.inr t₀) s s' → Gone s') ↔
      c = .runCommand := by
  have hi := reachable_inv h
  obtain ⟨m, t, hm, hlost, ht⟩ := hl
  have hd := LostIn.dead hb h hm hlost ht
  cases c with
  | setupConnection =>
    refine ⟨fun ⟨⟨s', hst⟩, hall⟩ => ?_, fun h => by cases h⟩
    exact absurd (hall s' hst) (setup_not_gone hi hst hc)
  | checkStopped =>
    refine ⟨fun ⟨⟨s', hst⟩, hall⟩ => ?_, fun h => by cases h⟩
    obtain ⟨db, m₁, hr, hn, -⟩ := hst.of_call hi hc
    obtain rfl := Option.some.inj (hm.symm.trans hr.hasClient)
    exact absurd (hall s' hst) (check_not_gone hi hm hd (hr.main_of_lost hn ht) hst hc)
  | runCommand =>
    refine ⟨fun _ => rfl, fun _ => ?_⟩
    obtain ⟨db, hr⟩ := hi.of_client hm
    obtain ⟨hpc, hn⟩ : s.pc = .command ∧ m.state = .connected := by
      simp only [nextCall, hr.hasDb, hm] at hc
      split at hc <;> simp_all
    have hmain := hr.main_of_lost hn ht
    have hcall : (cli.sum (dataClient api)).runCommand (.inr t) db
        (.inr { t with client := .disconnected, main := .idle }) db :=
      .inr ⟨hlost.1, DataClientHandler.runCommand_dead_returns hd db⟩
    exact ⟨⟨_, .command hpc hr.hasDb hm hn (.returns hmain hcall)⟩, fun s' hst =>
      run_gone hi hm hd hmain hst hc⟩

/-- After the connection is lost, the next call of `loop()` returns and leaves the client handler in
the state `DISCONNECTED` if and only if it is `run_command`. -/
theorem loss_noticed_iff (hb : DataClientServerRunner.Built t₀)
    (h : (server cli conf c₀ t₀).Reachable s) (hl : LostIn s)
    (hq : Relation.ReflTransGen (QuietStep cli conf c₀ t₀) s s') {c : HandlerCall}
    (hc : nextCall s' = some c) :
    ((∃ s'', LoopStep (cli.sum (dataClient api)) conf (.inl c₀) (.inr t₀) s' s'') ∧
      ∀ s'', LoopStep (cli.sum (dataClient api)) conf (.inl c₀) (.inr t₀) s' s'' → Gone s'') ↔
      c = .runCommand := by
  suffices (server cli conf c₀ t₀).Reachable s' ∧ LostIn s' from lost_call hb this.1 this.2 hc
  clear hc
  induction hq with
  | refl => exact ⟨h, hl⟩
  | tail _ hst ih =>
    obtain ⟨hr, hl'⟩ := ih
    exact ⟨hr.step hst.step, hst.lostIn hb hr hl'⟩

/-- A step of `_connect()` that waits for a server that failed. -/
theorem wait_step (hb : DataClientServerRunner.Built t₀)
    (h : (server cli conf c₀ t₀).Reachable s) (hl : LostIn s) (hpc : s.pc = .wait)
    (hst : (server cli conf c₀ t₀).Step s s') : s'.pc = .wait ∧ LostIn s' := by
  have hi := reachable_inv h
  cases hst with
  | meanwhile hm hw => exact ⟨hpc, QuietStep.lostIn hb h hl (.meanwhile hm hw)⟩
  | loop hst =>
    obtain ⟨m, t, hm, hlost, ht⟩ := hl
    have hd := LostIn.dead hb h hm hlost ht
    obtain ⟨db, hr⟩ := hi.of_client hm
    have hc : nextCall s = some .setupConnection := by simp [nextCall, hpc, hr.hasDb, hm]
    obtain ⟨db₁, m₁, hr₁, hn, r, hset, hs'⟩ := hst.of_call hi hc
    obtain rfl := Option.some.inj (hm.symm.trans hr₁.hasClient)
    have hwait : m.wait = [.inr t] := by
      rcases ht with ⟨-, hw⟩ | hmain
      · exact hw
      · rw [hr.ok.main_eq_none hn] at hmain
        cases hmain
    -- the handler stays in the list, without a client
    obtain ⟨t', hset', rfl⟩ : ∃ t', (dataClient api).setupConnection t db₁ t' ∧
        r = some { m with wait := [.inr t'] } := by
      cases hset with
      | asserts hmain => exact absurd (hr.ok.main_eq_none hn) hmain
      | @connects pre pre' post hd hd' _ hw _ hcall hconn =>
        obtain ⟨rfl, rfl⟩ : pre = [] ∧ hd = .inr t := by
          rw [hwait] at hw
          rcases pre with _ | ⟨x, pre⟩ <;> simp_all
        cases hcall with
        | @inr _ t' hcall =>
          rw [show (cli.sum (dataClient api)).state (Sum.inr t') = .disconnected from
            (DataClientHandler.setup_dead hd hcall).2] at hconn
          cases hconn
      | @waits wait' _ hw =>
        rw [hwait] at hw
        cases hw with
        | cons hcall hnil =>
          cases hnil
          obtain ⟨hcall, -⟩ := hcall
          cases hcall with
          | inr hcall => exact ⟨_, hcall, rfl⟩
    rcases hs' with ⟨hpoll, -⟩ | ⟨-, rfl⟩
    · rw [hpc] at hpoll
      cases hpoll
    · obtain ⟨⟨hdone, hstate⟩, -⟩ := DataClientHandler.setup_dead hd hset'
      refine ⟨by simp [afterClient, hn], _, t', rfl, ⟨by simp [hdone], hstate⟩, .inl ⟨?_, rfl⟩⟩
      exact hr.ok.main_eq_none hn

/-- `_connect()` waits for ever for the client of a server that failed. -/
theorem connect_spins (hb : DataClientServerRunner.Built t₀)
    (h : (server cli conf c₀ t₀).Reachable s) (hl : LostIn s) (hpc : s.pc = .wait)
    (hs : (server cli conf c₀ t₀).Steps s s') : s'.pc = .wait :=
  (h.keeps (P := fun s => s.pc = .wait ∧ LostIn s)
    (fun _ _ hr hp hst => wait_step hb hr hp.2 hp.1 hst) ⟨hpc, hl⟩ hs).1

/-! ## A server that fails -/

/-- A handler with no runner yet. -/
def built : Threads := ⟨.unborn, .idle, .error, false, [], [], .notConnected, [], [], []⟩

/-- The first call of `setup_connection` starts the runner. -/
theorem setup_built (api : VMApi V) (db : Debugger V) :
    (dataClient api).setupConnection built db
      ⟨.connect, .idle, .connecting, false, [], [], .notConnected, [], [], []⟩ := by
  have step {a b : Threads} (hbusy : a.main ≠ .idle)
      (h : MainStep (DataClientHandler.serveRequest api) a db b db) :
      DataClientHandler.InCall api (a, db) (b, db) := ⟨hbusy, .inr h⟩
  have h1 := step (by simp) (.setup (t := { built with main := .setup }) rfl)
  have h2 := step (by simp) (.startStop (t := { built with main := .startStop }) rfl)
  have h3 := step (by simp) (.startState (t := { built with main := .startState }) rfl)
  have h4 := step (by simp) (.startThread
    (t := { built with main := .startThread, state := .connecting }) rfl)
  have h5 := step (by simp) (.testConnecting
    (t := { built with main := .testConnecting, state := .connecting, runner := .connect }) rfl)
  exact ⟨.tail (.tail (.tail (.tail (.single h1) h2) h3) h4) h5, rfl⟩

/-- The server of the scripted VM, which waits for a TCP client before the first instruction. -/
abbrev tcpServer : Machine (ServerApp UpdateInfos (ClientState ⊕ Threads)) :=
  server (anyClient Debugger.scripted) ⟨true, true, false, true⟩ .notConnected built

/-- At `pc`, with the handler `t` that has no client. -/
def waiting (pc : Pc) (t : Threads) : ServerApp UpdateInfos (ClientState ⊕ Threads) :=
  ⟨true, some (stopDb.on Debugger.scriptedDb).2, some ⟨.notConnected, [.inr t], none⟩, pc, false⟩

theorem waiting_reachable : tcpServer.Reachable
    (waiting .wait ⟨.connect, .idle, .connecting, false, [], [], .notConnected, [], [], []⟩) := by
  have start : tcpServer.Reachable ⟨true, none, none, .vm, false⟩ := .init rfl
  have stopped : tcpServer.Reachable (waiting .poll built) :=
    start.step (.loop (.init rfl rfl rfl Debugger.scriptedDb_started))
  have started := stopped.step (.loop (.poll rfl rfl rfl rfl
    (.waits rfl (.cons ⟨.inr (setup_built _ (stopDb.on Debugger.scriptedDb).2), by decide⟩ .nil))))
  have polled : tcpServer.Reachable (waiting .head
      ⟨.connect, .idle, .connecting, false, [], [], .notConnected, [], [], []⟩) := started
  have checked : tcpServer.Reachable (waiting .checked
      ⟨.connect, .idle, .connecting, false, [], [], .notConnected, [], [], []⟩) :=
    polled.step (.loop (.checkSkip rfl rfl rfl (by simp) (by decide)))
  have connect := checked.step (.loop (.checked rfl rfl))
  have wait := connect.step (.loop (.connect rfl rfl))
  exact wait

theorem waiting_meanwhile {t t' : Threads} (h : tcpServer.Reachable (waiting .wait t))
    (hst : RunnerStep t t') : tcpServer.Reachable (waiting .wait t') :=
  h.step (.meanwhile rfl (@MultiClientHandler.Meanwhile.waiting _ _ _ _ _ [] [] _ _ rfl (.inr hst)))

/-- At `pc`, with the main handler `t`. -/
def talking (pc : Pc) (t : Threads) : ServerApp UpdateInfos (ClientState ⊕ Threads) :=
  ⟨true, some (stopDb.on Debugger.scriptedDb).2, some ⟨.connected, [], some (.inr t)⟩, pc, false⟩

theorem talking_meanwhile {t t' : Threads} {pc : Pc} (h : tcpServer.Reachable (talking pc t))
    (hst : RunnerStep t t') : tcpServer.Reachable (talking pc t') :=
  h.step (.meanwhile rfl (.main rfl (.inr hst)))

/-- A client that connects and closes the connection before its first request. -/
theorem loss_noticed_iff_closed :
    ∃ s, LostIn s ∧ nextCall s = some .runCommand ∧
      (∃ s', LoopStep ((anyClient Debugger.scripted).sum (dataClient Debugger.scripted))
        ⟨true, true, false, true⟩ (.inl .notConnected) (.inr built) s s') ∧
      ∀ s', LoopStep ((anyClient Debugger.scripted).sum (dataClient Debugger.scripted))
        ⟨true, true, false, true⟩ (.inl .notConnected) (.inr built) s s' → Gone s' := by
  have connected : tcpServer.Reachable
      (waiting .wait ⟨.loop, .idle, .noReq, false, [], [], .notConnected, [], [], []⟩) :=
    waiting_meanwhile (waiting_meanwhile waiting_reachable (.connect rfl)) (.connected rfl)
  have step {a b : Threads} {db : Debugger UpdateInfos} (hbusy : a.main ≠ .idle)
      (h : MainStep (DataClientHandler.serveRequest Debugger.scripted) a db b db) :
      DataClientHandler.InCall Debugger.scripted (a, db) (b, db) := ⟨hbusy, .inr h⟩
  have hset : (dataClient Debugger.scripted).setupConnection
      ⟨.loop, .idle, .noReq, false, [], [], .notConnected, [], [], []⟩
      (stopDb.on Debugger.scriptedDb).2
      ⟨.loop, .idle, .noReq, false, [], [], .connected, [], [], []⟩ :=
    ⟨.tail (.tail (.single (step (by simp) (.setup rfl))) (step (by simp) (.testConnecting rfl)))
      (step (by simp) (.testError rfl)), rfl⟩
  have waited := connected.step (.loop (.wait rfl rfl rfl
    (@MultiClientHandler.SetupConnection.connects _ _ _ _ _ _ [] [] [] _ _ rfl rfl .nil (.inr hset)
      rfl)))
  have command : tcpServer.Reachable (talking .command
      ⟨.loop, .idle, .noReq, false, [], [], .connected, [], [], []⟩) := waited
  have closed : tcpServer.Reachable (talking .command
      ⟨.done, .idle, .error, true, [], [], .connected, [], [], []⟩) :=
    talking_meanwhile (talking_meanwhile (talking_meanwhile (talking_meanwhile command (.loop rfl))
      (.recvFails [] rfl)) (.stop rfl)) (.stopState rfl)
  have hbuilt : DataClientServerRunner.Built built := ⟨rfl, rfl, rfl, rfl, rfl, rfl⟩
  have hlost : LostIn (talking .command
      ⟨.done, .idle, .error, true, [], [], .connected, [], [], []⟩) :=
    ⟨_, _, rfl, ⟨by simp, rfl⟩, .inr rfl⟩
  exact ⟨_, hlost, rfl, (loss_noticed_iff hbuilt closed hlost .refl rfl).mpr rfl⟩

/-- The server could not bind its port: `_connect()` waits for ever, and no call ends it. -/
theorem loss_not_noticed :
    ∃ s, tcpServer.Reachable s ∧ LostIn s ∧ nextCall s = some .setupConnection ∧
      (∀ s', LoopStep ((anyClient Debugger.scripted).sum (dataClient Debugger.scripted))
        ⟨true, true, false, true⟩ (.inl .notConnected) (.inr built) s s' → ¬ Gone s') ∧
      ∀ s', tcpServer.Steps s s' → s'.pc = .wait := by
  have failed : tcpServer.Reachable
      (waiting .wait ⟨.done, .idle, .error, true, [], [], .notConnected, [], [], []⟩) :=
    waiting_meanwhile (waiting_meanwhile (waiting_meanwhile waiting_reachable (.connectFails rfl))
      (.stop rfl)) (.stopState rfl)
  have hbuilt : DataClientServerRunner.Built built := ⟨rfl, rfl, rfl, rfl, rfl, rfl⟩
  have hlost : LostIn (waiting .wait ⟨.done, .idle, .error, true, [], [], .notConnected, [], [], []⟩) :=
    ⟨_, _, rfl, ⟨by simp, rfl⟩, .inl ⟨rfl, rfl⟩⟩
  exact ⟨_, failed, hlost, rfl, fun s' hst => setup_not_gone (reachable_inv failed) hst rfl,
    fun s' => connect_spins hbuilt failed hlost rfl⟩

end ServerApp

end Odb
