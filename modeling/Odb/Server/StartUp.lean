import Odb.Server.ServerApp

/-!
# The server loop of a VM that fails (`server/server-app.cc`)

`loop()` calls `get_vm_infos` and `get_update_infos` of the VM, in `on_init` and in `on_update`. A
`VMApi::Error` of theirs leaves `loop()`, and the VM may call it again. `_init()` has set `_db` when
`on_init` is called, and sets `_client` after it.

* `Step`: `loop()` as in `ServerApp.Step`, and its exceptions.
* `usable_iff`: a run never gets to a debugger that is not initialised, or to a client handler that
  does not exist, if and only if no `on_init` threw.
-/

namespace Odb

/-- The callbacks of which call threw. -/
inductive Failure where
  /-- `get_vm_infos` or `get_update_infos`, in `on_init`. -/
  | init
  /-- `get_update_infos`, in `on_update`. -/
  | update
deriving DecidableEq, Repr

/-- The server, with what happened to it. -/
structure FailingApp (V H : Type) extends ServerApp V H where
  /-- `on_init` of the debugger there is has returned. -/
  inited : Bool
  /-- The failures so far. -/
  failures : List Failure

namespace FailingApp

variable {V H : Type} {api : VMApi V} (ch : ClientHandler api H) (conf : ServerConfig)
  (cli data : H)

inductive Step : FailingApp V H → FailingApp V H → Prop where
  /-- A step from where there is no debugger: `on_init` of the one it makes returns. -/
  | starts {a : FailingApp V H} {s : ServerApp V H} : a.db = none →
      ServerApp.Step ch conf cli data a.toServerApp s → Step a ⟨s, s.db.isSome, a.failures⟩
  | goes {a : FailingApp V H} {s : ServerApp V H} : a.db ≠ none →
      ServerApp.Step ch conf cli data a.toServerApp s → Step a { a with toServerApp := s }
  /-- `on_init` throws: `_db` is set, `_client` is not. -/
  | initThrows {a : FailingApp V H} {vm : V} {uninit : VmPtr} {msg : Bytes} {db : Debugger V} :
      a.pc = .vm → a.enabled = true → a.db = none →
      (Debugger.onInit api).on (Debugger.new vm uninit) = (.error (.vmError msg), db) →
      Step a { a with db := some db, inited := false, failures := a.failures ++ [.init] }
  | updateThrows {a : FailingApp V H} {db db' : Debugger V} {vm : V} {msg : Bytes} :
      a.pc = .update → a.db = some db →
      (Debugger.onUpdate api).on { db with vm := vm } = (.error (.vmError msg), db') →
      Step a { a with db := some db', pc := .vm, failures := a.failures ++ [.update] }
  /-- `on_update` of a debugger without a call stack ends in another way. -/
  | updateCrashes {a : FailingApp V H} {db db' : Debugger V} {vm : V} {e : Fault} :
      a.pc = .update → a.inited = false → a.db = some db →
      (Debugger.onUpdate api).on { db with vm := vm } = (.error e, db') →
      (∀ msg, e ≠ .vmError msg) → Step a { a with pc := .failed }
  /-- `_client->get_state()` of no client handler. -/
  | null {a : FailingApp V H} : a.pc = .poll → a.client = none → Step a { a with pc := .failed }

/-- The server with the configuration `conf`, whose handlers begin as `cli` and `data`. -/
def machine : Machine (FailingApp V H) where
  Init a := a = ⟨⟨conf.enabled, none, none, .vm, false⟩, false, []⟩
  Step := Step ch conf cli data

/-- There is no debugger, or it is initialised and there is a client handler. -/
def Usable (a : FailingApp V H) : Prop :=
  a.db = none ∨ a.inited = true ∧ a.client ≠ none

/-! ## What an exception leaves -/

/-- An `on_update` that throws leaves the control members alone, those of a running debugger. -/
theorem onUpdate_throws {db db' : Debugger V} {msg : Bytes}
    (h : (Debugger.onUpdate api).on db = (.error (.vmError msg), db')) :
    DbControl.isRunning db.state = true ∧ db'.toDbControl = db.toDbControl := by
  rcases hv : api.getUpdateInfos db.vm with ⟨msg' | udp, vm'⟩
  · unfold Debugger.onUpdate assertThat at h
    simp only [Prog.on_bind, Prog.on_get, Prog.on_lift] at h
    by_cases hr : DbControl.isRunning db.state = true
    · simp only [hr, if_true, Debugger.callVM, Prog.on_of, hv, Except.mapError] at h
      cases h
      exact ⟨hr, rfl⟩
    · simp only [hr, Bool.false_eq_true, if_false] at h
      cases h
  · have hon : (Debugger.onUpdate api).on db = _ := @Debugger.onUpdate_on V api db _ _ _ hv
    rw [h] at hon
    unfold DbControl.update assertThat at hon
    split at hon
    · cases hon
    · next e he =>
      obtain rfl := (Except.error.inj (Prod.mk.inj hon).1)
      split at he
      · rw [ok_bind] at he
        unfold DbControl.applyUpdate DbControl.updateStack assertThat at he
        grind [ok_bind, error_bind]
      · cases he

/-! ## The invariant -/

/-- What always holds: as long as no `on_init` threw, what holds of the server of a VM that does not
fail; from then on, there is a debugger that is not initialised, and no client handler. -/
def Inv (a : FailingApp V H) : Prop :=
  (.init ∉ a.failures ∧ a.toServerApp.Inv ch ∧ (a.db ≠ none → a.inited = true)) ∨
    (.init ∈ a.failures ∧ a.db ≠ none ∧ a.client = none ∧ a.inited = false)

section Step

variable {ch conf cli data} {a a' : FailingApp V H}

/-- Without a client handler, `loop()` does not get past `on_update`. -/
theorem half_step {s s' : ServerApp V H} (h : ServerApp.Step ch conf cli data s s')
    (hdb : s.db ≠ none) (hm : s.client = none) : s'.db ≠ none ∧ s'.client = none := by
  cases h with
  | meanwhile hm' => simp [hm] at hm'
  | loop h =>
    cases h with
    | init _ _ hnone => exact absurd hnone hdb
    | update => exact ⟨by simp, hm⟩
    | poll _ _ hm' | pollSkip _ hm' | gone _ hm' | check _ _ hm' | checkSkip _ _ hm' | connect _ hm'
      | wait _ _ hm' | commandAsserts _ hm' | command _ _ hm' | leave _ _ hm' => simp [hm] at hm'
    | _ => exact ⟨hdb, hm⟩

/-- Every step keeps the invariant. -/
theorem Step.inv (h : Step ch conf cli data a a') (hi : Inv ch a) : Inv ch a' := by
  cases h with
  | starts hnone hst =>
    rcases hi with ⟨hf, hs, -⟩ | ⟨-, hdb, -⟩
    · exact .inl ⟨hf, hst.inv hs, fun hdb => Option.isSome_iff_ne_none.mpr hdb⟩
    · exact absurd hnone hdb
  | goes hdb hst =>
    rcases hi with ⟨hf, hs, hin⟩ | ⟨hf, -, hm, hin⟩
    · exact .inl ⟨hf, hst.inv hs, fun _ => hin hdb⟩
    · exact .inr ⟨hf, (half_step hst hdb hm).1, (half_step hst hdb hm).2, hin⟩
  | @initThrows vm uninit msg db _ _ hnone _ =>
    have hm : a.client = none := by
      rcases hi with ⟨-, ⟨-, hm, -⟩ | ⟨db', m, hr⟩, -⟩ | ⟨-, -, hm, -⟩
      · exact hm
      · simp [hr.hasDb] at hnone
      · exact hm
    exact .inr ⟨by simp, by simp, hm, rfl⟩
  | @updateThrows db db' vm msg hpc hdb hcall =>
    obtain ⟨hrun, hctl⟩ := onUpdate_throws hcall
    rcases hi with ⟨hf, hs, hin⟩ | ⟨hf, -, hm, hin⟩
    · obtain ⟨m, hr⟩ := ServerApp.Inv.of_db hs hdb
      have hstate : db'.state = db.state := congrArg DbControl.state hctl
      refine .inl ⟨by simp [hf], .inr ⟨db', m, rfl, hr.hasClient, hr.ok, ?_, ?_, .inl ?_⟩,
        fun _ => hin (by simp [hdb])⟩
      · exact hstate ▸ hr.started
      · exact hstate ▸ hr.ended
      · exact hstate ▸ hrun
    · exact .inr ⟨by simp [hf], by simp, hm, hin⟩
  | updateCrashes hpc hin hdb _ _ =>
    rcases hi with ⟨-, -, h⟩ | hi
    · rw [h (by simp [hdb])] at hin
      cases hin
    · exact .inr hi
  | null hpc hm =>
    rcases hi with ⟨-, ⟨-, -, hvm, -⟩ | ⟨db, m, hr⟩, -⟩ | hi
    · rw [hpc] at hvm
      cases hvm
    · simp [hr.hasClient] at hm
    · exact .inr hi

theorem reachable_inv (h : (machine ch conf cli data).Reachable a) : Inv ch a := by
  refine h.invariant (fun a ha => ?_) fun a a' _ hi hst => ?_
  · obtain rfl : a = _ := ha
    exact .inl ⟨by simp, .inl ⟨rfl, rfl, rfl, rfl⟩, by simp⟩
  · exact Step.inv hst hi

/-- For every configuration, VM, handler, order of steps and failures of the callbacks: the server
is usable, calls `on_update` of initialised debuggers only and does not crash, if and only if no
`on_init` threw. -/
theorem usable_iff (h : (machine ch conf cli data).Reachable a) :
    (a.Usable ∧ (a.pc = .update → a.inited = true) ∧ a.pc ≠ .failed) ↔ .init ∉ a.failures := by
  rcases reachable_inv h with ⟨hf, hs, hin⟩ | ⟨hf, hdb, -, hin⟩
  · refine iff_of_true ?_ hf
    rcases hs with ⟨hnone, -, hvm, -⟩ | ⟨db, m, hr⟩
    · exact ⟨.inl hnone, by simp [hvm], by simp [hvm]⟩
    · have hinit : a.inited = true := hin (by simp [hr.hasDb])
      refine ⟨.inr ⟨hinit, by simp [hr.hasClient]⟩, fun _ => hinit, fun hpc => ?_⟩
      exact hr.at hpc
  · refine iff_of_false (fun hus => ?_) (not_not_intro hf)
    rcases hus.1 with hnone | ⟨hinit, -⟩
    · exact hdb hnone
    · simp [hin] at hinit

end Step

/-! ## A VM that is not ready -/

/-- The scripted VM, without an update as long as it is at address 0. -/
def unready : VMApi UpdateInfos :=
  { Debugger.scripted with
    getUpdateInfos := fun vm =>
      if vm.actAddr = 0 then (.error (lit "not ready"), vm) else (.ok vm, vm) }

/-- The debugger of `unready` after an `on_init` that returned, and after one that threw. -/
def readyDb : Debugger UpdateInfos := ((Debugger.onInit unready).on (Debugger.new ⟨.ok, 4⟩ 0)).2

def halfDb : Debugger UpdateInfos := ((Debugger.onInit unready).on (Debugger.new ⟨.ok, 0⟩ 0)).2

/-- `halfDb` after an `on_update`. -/
def updatedDb : Debugger UpdateInfos :=
  ((Debugger.onUpdate unready).on { halfDb with vm := ⟨.ok, 4⟩ }).2

/-- The server of `unready` that waits for a client. -/
abbrev unreadyMachine : Machine (FailingApp UpdateInfos ClientState) :=
  machine (ServerApp.anyClient unready) ⟨true, false, false, true⟩ .notConnected .notConnected

theorem unready_start : unreadyMachine.Reachable ⟨⟨true, none, none, .vm, false⟩, false, []⟩ :=
  .init rfl

/-- The server waits for a client, at `pc`, and the program runs. -/
def waiting (pc : Pc) : FailingApp UpdateInfos ClientState :=
  ⟨⟨true, some readyDb, some ⟨.notConnected, [.notConnected], none⟩, pc, false⟩, true, []⟩

theorem waiting_goes {pc pc' : Pc}
    (h : ServerApp.LoopStep (ServerApp.anyClient unready) ⟨true, false, false, true⟩ .notConnected
      .notConnected (waiting pc).toServerApp (waiting pc').toServerApp) :
    unreadyMachine.Step (waiting pc) (waiting pc') := .goes (by simp [waiting]) (.loop h)

/-- The callback throws while the program runs: the server stays usable. -/
theorem usable_iff_late : ∃ a : FailingApp UpdateInfos ClientState,
    (a.Usable ∧ (a.pc = .update → a.inited = true) ∧ a.pc ≠ .failed) ∧ a.failures = [.update] := by
  have polls : unreadyMachine.Reachable (waiting .poll) :=
    unready_start.step (.starts rfl (.loop (.init rfl rfl rfl ⟨⟨.ok, 4⟩, 0, rfl⟩)))
  have waits : unreadyMachine.Reachable (waiting .head) :=
    polls.step (waiting_goes (.poll rfl rfl rfl rfl
      (@MultiClientHandler.SetupConnection.waits _ ClientState _ _
        ⟨.notConnected, [.notConnected], none⟩ readyDb [.notConnected] rfl
        (.cons ⟨ClientState.noConfusion, ClientState.noConfusion⟩ .nil))))
  have checked : unreadyMachine.Reachable (waiting .checked) :=
    waits.step (waiting_goes (.checkSkip rfl rfl rfl (by simp) (by decide)))
  have leaves : unreadyMachine.Reachable (waiting .leave) :=
    checked.step (waiting_goes (@ServerApp.LoopStep.checked _ _ _ _ _ _ _ _ readyDb rfl rfl))
  have returned : unreadyMachine.Reachable (waiting .vm) :=
    leaves.step (waiting_goes (@ServerApp.LoopStep.leave _ _ _ _ _ _ _ _ readyDb
      ⟨.notConnected, [.notConnected], none⟩ rfl rfl rfl))
  have updates : unreadyMachine.Reachable (waiting .update) :=
    returned.step (waiting_goes (.call rfl rfl rfl rfl))
  have throws := updates.step (@Step.updateThrows _ _ _ _ _ _ _ _ readyDb _ ⟨.ok, 0⟩ _ rfl rfl rfl)
  exact ⟨_, (usable_iff throws).mpr (by decide), rfl⟩

/-- The callback throws in `on_init`. The next call of `loop()` gets to `on_update` of a debugger
that is not initialised, and then to a client handler that does not exist. -/
theorem unready_crashes : ∃ a b c : FailingApp UpdateInfos ClientState,
    unreadyMachine.Reachable a ∧ a.pc = .vm ∧ ¬ a.Usable ∧
      unreadyMachine.Steps a b ∧ b.pc = .update ∧ b.db = some halfDb ∧ b.inited = false ∧
      unreadyMachine.Steps b c ∧ c.pc = .failed := by
  have threw := unready_start.step (.initThrows rfl rfl rfl
    (show (Debugger.onInit unready).on (Debugger.new ⟨.ok, 0⟩ 0) = (_, halfDb) from rfl))
  have calls : unreadyMachine.Step ⟨⟨true, some halfDb, none, .vm, false⟩, false, [.init]⟩
      ⟨⟨true, some halfDb, none, .update, false⟩, false, [.init]⟩ :=
    .goes (by simp) (.loop (.call rfl rfl rfl rfl))
  have updates : unreadyMachine.Step ⟨⟨true, some halfDb, none, .update, false⟩, false, [.init]⟩
      ⟨⟨true, some updatedDb, none, .poll, false⟩, false, [.init]⟩ :=
    .goes (by simp) (.loop (.update rfl rfl
      (@Debugger.Step.update _ unready halfDb updatedDb ⟨.ok, 4⟩ _ ⟨.ok, 4⟩ rfl rfl)))
  exact ⟨_, _, _, threw, rfl, by simp [Usable], .single calls, rfl, rfl, rfl,
    .tail (.single updates) (.null rfl rfl), rfl⟩

end FailingApp

end Odb
