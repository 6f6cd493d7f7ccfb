import Odb.Client.Agreement

/-!
# Debugging does not disturb the program

The server over a VM that its queries do not change. As long as no client writes to the VM, what the
VM does is what it does on its own.

* `bare`: the VM on its own.
* `Step.bare`: a step of the server is an instruction of the VM, or nothing to it.
* `transparent`: the server refines the VM.
-/

namespace Odb

open Prog
open DataClientServerRunner (Threads)

namespace Debugger

variable {V : Type} {api : VMApi V}

theorem keepsVM_onInit (hp : api.Passive) : Keeps Debugger.vm (onInit api) :=
  .bind .get fun _ => .bind (.lift _) fun _ => .bind (.modify fun _ => rfl) fun _ =>
    .bind (keepsVM_call hp.getVmInfos) fun _ => .bind (.modify fun _ => rfl) fun _ =>
    .bind (keepsVM_call hp.getUpdateInfos) fun _ => .bind (.lift _) fun _ => .modify fun _ => rfl

/-- A debugger starts at the address that the VM tells. -/
theorem Started.insAddr (hp : api.Passive) {db : Debugger V} (h : Started api db) :
    ∃ udp, (api.getUpdateInfos db.vm).1 = .ok udp ∧ db.insAddr = udp.actAddr := by
  obtain ⟨vm, uninit, h⟩ := h
  have hvm := keepsVM_onInit hp (.new vm uninit)
  rw [h] at hvm
  unfold onInit at h
  simp only [Prog.bind_eq_ok, Prog.on_get, Prog.on_modify, Prog.lift_eq_ok, callVM_eq_ok] at h
  have hinfos := hp.getVmInfos
  grind [new]

/-- The VM after an update is the one that told it. -/
theorem Step.told (hp : api.Passive) {db db' : Debugger V} {udp : UpdateInfos}
    (h : Step api db (.update udp) db') : (api.getUpdateInfos db'.vm).1 = .ok udp := by
  cases h with
  | @update _ vm vm' _ hv hrun =>
    have hvm := hp.getUpdateInfos vm
    rw [hv] at hvm
    obtain rfl : vm' = vm := hvm
    rw [onUpdate_on api hv] at hrun
    split at hrun
    · obtain ⟨-, rfl⟩ := Prod.mk.inj hrun
      exact congrArg Prod.fst hv
    · cases hrun

/-- The VM and the place of the program are the same. -/
structure Still (db db' : Debugger V) : Prop extends
    SamePlace db.toDbControl db'.toDbControl where
  vm : db'.vm = db.vm

theorem Still.refl (db : Debugger V) : Still db db := ⟨⟨rfl, rfl, rfl, rfl⟩, rfl⟩

theorem still_control {f : DbControl → Except Fault DbControl}
    (hf : ∀ c c', f c = .ok c' → SamePlace c c') (db : Debugger V) :
    Still db ((onControl f).on db).2 := by
  refine ⟨?_, keepsVM_control f db⟩
  rw [onControl_on]
  cases h : f db.toDbControl with
  | error => exact ⟨rfl, rfl, rfl, rfl⟩
  | ok c => exact hf _ _ h

theorem still_stop (db : Debugger V) : Still db ((stop : DbM V Unit).on db).2 := by
  refine still_control (fun c c' h => ?_) db
  obtain ⟨-, rfl⟩ := DbControl.stop_ok h
  exact ⟨rfl, rfl, rfl, rfl⟩

theorem still_resume (type : ResumeType) (db : Debugger V) :
    Still db ((resume type : DbM V Unit).on db).2 := by
  refine still_control (fun c c' h => ?_) db
  obtain ⟨-, -, rfl⟩ := DbControl.resume_ok h
  exact ⟨rfl, rfl, rfl, rfl⟩

end Debugger

namespace ServerApp

open DataClientHandler (dataClient serveRequest)

variable {V C : Type} (api : VMApi V) (instr : V → V → Prop)

/-- A state of the VM in which a debugger can be created. -/
def Boots (vm : V) : Prop :=
  ∃ uninit db, (Debugger.onInit api).on (.new vm uninit) = (.ok (), db)

/-- A step of the VM, with no debugger yet or with one. -/
inductive BareStep : Option V → Option V → Prop where
  | boot {vm : V} : Boots api vm → BareStep none (some vm)
  | instr {vm vm' : V} : instr vm vm' → BareStep (some vm) (some vm')

/-- The VM on its own. -/
def bare : Machine (Option V) where
  Init vm := vm = none
  Step := BareStep api instr

/-- The state of the VM that is debugged. -/
def watched {H : Type} (s : ServerApp V H) : Option V := s.db.map Debugger.vm

/-- Before an update the VM executed an instruction. -/
def Executes {H : Type} (s s' : ServerApp V H) : Prop :=
  s.pc = .update → s'.pc = .poll →
    ∀ db db', s.db = some db → s'.db = some db' → instr db.vm db'.vm

/-- The request writes to the VM. -/
def Writing (req : Bytes) : Prop :=
  ∃ ty rest, req = ReqType.toByte ty :: rest ∧
    (Debugger.sized ty = .setRegsVar ∨ Debugger.sized ty = .writeMemVar)

/-- No request that was answered writes to the VM. -/
def ReadOnly (s : ServerApp V (C ⊕ Threads)) : Prop :=
  ∀ m t, s.client = some m → m.main = some (.inr t) → ∀ x ∈ t.answered, ¬ Writing x.1

variable {api instr} {cli : ClientHandler api C} {conf : ServerConfig} {c₀ : C} {t₀ : Threads}
  {s s' : ServerApp V (C ⊕ Threads)}

/-- The handler leaves the VM alone. -/
def Gentle {H : Type} (ch : ClientHandler api H) : Prop :=
  ∀ h db h' db', ch.runCommand h db h' db' → db'.vm = db.vm

theorem still_stopDb (db : Debugger V) : Debugger.Still db ((stopDb : DbM V Unit).on db).2 := by
  unfold stopDb
  rw [on_bind_ok (on_get db)]
  split
  · exact .refl db
  · exact Debugger.still_stop db

theorem still_release (client : ClientState) (db : Debugger V) :
    Debugger.Still db ((release client : DbM V Unit).on db).2 := by
  unfold release
  rw [on_bind_ok (on_get db)]
  split
  · exact Debugger.still_resume _ db
  · exact .refl db

theorem afterDb_db {H : Type} (s : ServerApp V H) (pc : Pc) (r : Except Fault Unit × Debugger V) :
    (s.afterDb pc r).db = some r.2 := by
  rcases r with ⟨_ | _, _⟩ <;> rfl

/-- A request that does not write leaves the VM alone. -/
theorem serveRequest_vm (hp : api.Passive) {db db' : Debugger V} {req res : Bytes}
    (h : serveRequest api .runCommand db req db' res) (hreq : ¬ Writing req) : db'.vm = db.vm := by
  obtain ⟨udp, os, is', hrun⟩ := h
  obtain ⟨ty, rest, rfl, hframe⟩ := DataClientHandler.runCommand_frame hrun
  refine hframe.vm hp (fun hset => ?_) fun hwrite => ?_
  · exact hreq ⟨ty, rest, rfl, .inl (List.mem_singleton.mp hset).symm⟩
  · exact hreq ⟨ty, rest, rfl, .inr (List.mem_singleton.mp hwrite).symm⟩

theorem runCommand_vm (hp : api.Passive) (hcli : Gentle cli) {h h' : C ⊕ Threads}
    {db db' : Debugger V} (hc : (cli.sum (dataClient api)).runCommand h db h' db')
    (hreq : ∀ t, h' = .inr t → ∀ x ∈ t.answered, ¬ Writing x.1) : db'.vm = db.vm := by
  cases hc with
  | inl hc => exact hcli _ _ _ _ hc
  | inr hc =>
    have hbefore : DataClientHandler.Before .runCommand .waitReq := rfl
    rcases hc.2.exchange hbefore with ⟨rfl, -⟩ | ⟨req, res, hserve, hexs⟩
    · rfl
    · exact serveRequest_vm hp hserve (hreq _ rfl (req, res) (by simp [hexs]))

theorem samePlace_commands {db db' : Debugger V} (h : Commands api db db') :
    Debugger.SamePlace db.toDbControl db'.toDbControl := by
  induction h with
  | refl => exact ⟨rfl, rfl, rfl, rfl⟩
  | @tail db₁ db₂ _ hst ih =>
    obtain ⟨k, hk⟩ := hst
    have hplace := k.samePlace db₁.toDbControl
    rw [← hk.control] at hplace
    exact ⟨hplace.callStack.trans ih.callStack, hplace.insAddr.trans ih.insAddr,
      hplace.uninit.trans ih.uninit, hplace.infos.trans ih.infos⟩

/-- What a step of the server is for the program. -/
inductive Seen (api : VMApi V) {H : Type} (s s' : ServerApp V H) : Prop where
  | without : s.db = none → s'.db = none → Seen api s s'
  | boot {db₀ db : Debugger V} : s.db = none → s'.db = some db → Debugger.Started api db₀ →
      Debugger.Still db₀ db → Seen api s s'
  | still {db db' : Debugger V} : s.db = some db → s'.db = some db' → Debugger.Still db db' →
      Seen api s s'
  | update {db db' : Debugger V} {udp : UpdateInfos} : s.pc = .update → s'.pc = .poll →
      s.db = some db → s'.db = some db' → Debugger.Step api db (.update udp) db' → Seen api s s'

theorem Seen.same {H : Type} {s s' : ServerApp V H} (h : s'.db = s.db) : Seen api s s' := by
  cases hdb : s.db with
  | none => exact .without hdb (h.trans hdb)
  | some db => exact .still hdb (h.trans hdb) (.refl db)

/-- As long as the requests are read-only, a step of the server starts the debugger, is an update, or
leaves the program as it is. -/
theorem Step.seen (hp : api.Passive) (hcli : Gentle cli) (hr : (server cli conf c₀ t₀).Reachable s)
    (hst : (server cli conf c₀ t₀).Step s s') (hro : ReadOnly s') : Seen api s s' := by
  have hi := reachable_inv hr
  cases hst with
  | meanwhile => exact .same rfl
  | loop hst =>
    cases hst with
    | @init db _ _ hnone hstarted =>
      unfold ServerApp.init
      dsimp only
      split
      · exact .without hnone rfl
      · refine .boot hnone (afterDb_db _ _ _) hstarted ?_
        split
        · exact still_stopDb db
        · exact .refl db
    | update hpc hdb hstep => exact .update hpc rfl hdb rfl hstep
    | @poll db m r _ hdb hm _ hset =>
      cases r with
      | none => exact .same rfl
      | some m' =>
        refine .still hdb (afterDb_db _ _ _) ?_
        split
        · exact still_stopDb db
        · exact .refl db
    | @check db m r _ hdb hm _ hc hcall =>
      obtain ⟨m', db', rfl, -, hdb'⟩ := hcall.ok (hi.ready hdb hm).ok hc
      refine .still hdb rfl ?_
      rcases hdb' with ⟨-, rfl | hstop⟩ | ⟨-, rfl⟩
      · exact .refl _
      · have hstill := Debugger.still_stop db
        rw [hstop] at hstill
        exact hstill
      · exact .refl _
    | @wait db m r _ hdb hm hset =>
      cases r with
      | none => exact .same rfl
      | some m' => exact .still hdb rfl (.refl db)
    | @command db m r _ hdb hm hc hcall =>
      cases r with
      | none => exact .same rfl
      | some p =>
        obtain ⟨m', db', hp', -, hres⟩ := hcall.ok (hi.ready hdb hm).ok hc
        obtain rfl := Option.some.inj hp'
        refine .still hdb rfl ⟨?_, ?_⟩
        · rcases hres with ⟨-, hcmd⟩ | ⟨-, hcmd, -⟩
          · exact samePlace_commands hcmd
          · exact samePlace_commands hcmd
        · obtain ⟨h, h', -, hmain, hcall⟩ := callMain_main hcall
          exact runCommand_vm hp hcli hcall fun t ht => hro m' t rfl (hmain.trans (congrArg some ht))
    | @leave db m _ hdb hm => exact .still hdb (afterDb_db _ _ _) (still_release _ db)
    | _ => exact .same rfl

/-- Seen from the VM, a step of the server is an instruction, or none. -/
theorem Step.bare (hp : api.Passive) (hcli : Gentle cli) (hr : (server cli conf c₀ t₀).Reachable s)
    (hst : (server cli conf c₀ t₀).Step s s') (hro : ReadOnly s') (hex : Executes instr s s') :
    (bare api instr).Steps s.watched s'.watched := by
  unfold watched
  cases Step.seen hp hcli hr hst hro with
  | without h h' => rw [h, h']
  | @boot db₀ db h h' hstarted hstill =>
    rw [h, h']
    obtain ⟨vm, uninit, hinit⟩ := hstarted
    have hvm := Debugger.keepsVM_onInit hp (.new vm uninit)
    rw [hinit] at hvm
    refine .single (.boot ⟨uninit, db₀, ?_⟩)
    rw [hstill.vm, show db₀.vm = vm from hvm]
    exact hinit
  | still h h' hstill =>
    rw [h, h', Option.map_some, Option.map_some, hstill.vm]
  | update hpc hpc' h h' _ =>
    rw [h, h']
    exact .single (.instr (hex hpc hpc' _ _ h h'))

/-- As long as no client writes to the VM, the server does to the VM what the VM does on its own. -/
theorem transparent (hp : api.Passive) (hcli : Gentle cli) :
    Machine.Refines (((server cli conf c₀ t₀).within ReadOnly).along (Executes instr))
      (bare api instr) watched where
  init s hs := by
    obtain rfl : s = _ := hs.1
    rfl
  step s s' hr hst := Step.bare hp hcli hr.of_along.of_within.1 hst.1.1 hst.1.2 hst.2

/-- A handler that never gets a client. -/
def noClient (api : VMApi V) : ClientHandler api ClientState where
  state := id
  setupConnection h _ h' := h' = h
  runCommand h db h' db' := h' = h ∧ db' = db
  checkStopped h db h' db' := h' = h ∧ db' = db
  meanwhile h h' := h' = h
  runCommand_spec hst h := .inl ⟨h.1 ▸ hst, h.2 ▸ .refl⟩
  checkStopped_spec hst h := .inl ⟨h.1 ▸ hst, .inl h.2⟩
  meanwhile_spec h := h

theorem gentle_noClient (api : VMApi V) : Gentle (noClient api) :=
  fun _ _ _ _ h => congrArg Debugger.vm h.2

/-- The scripted VM counts its instructions. -/
def Counts (vm vm' : UpdateInfos) : Prop := vm' = { vm with actAddr := vm.actAddr + 1 }

/-- A client connects and asks for one instruction: the VM has executed one. -/
theorem transparent_session :
    ∃ res t, Talks (steppedAfter res) steppedDb t ∧ t.answered = connectResume res ∧
      (((server (noClient Debugger.scripted) ⟨true, true, false, true⟩ .notConnected built).within
        ReadOnly).along (Executes Counts)).Reachable (steppedAfter res) ∧
      (bare Debugger.scripted Counts).Reachable (some ⟨.ok, 5⟩) := by
  obtain ⟨res, hserve, -⟩ := connect_served
  have hreads : ∀ x ∈ connectResume res, ¬ Writing x.1 := by
    have hread (ty : ReqType) (hty : Debugger.sized ty ≠ .setRegsVar ∧ Debugger.sized ty ≠ .writeMemVar)
        (rest : Bytes) : ¬ Writing (ty.toByte :: rest) := by
      rintro ⟨ty', rest', heq, hwrites⟩
      have hofByte := congrArg ReqType.ofByte (List.cons.inj heq).1
      rw [ReqType.ofByte_toByte, ReqType.ofByte_toByte] at hofByte
      subst hofByte
      exact hwrites.elim hty.1 hty.2
    exact List.forall_mem_cons.mpr ⟨hread .connect (by decide) _,
      List.forall_mem_singleton.mpr (hread .resume (by decide) _)⟩
  have hseen := @stepped_reachable (noClient Debugger.scripted) (fun x => ¬ Writing x.1)
    (Executes Counts) res hserve hreads fun t _ _ db db' h h' => by
      obtain rfl := Option.some.inj h
      obtain rfl := Option.some.inj h'
      rfl
  have hreach : (((server (noClient Debugger.scripted) ⟨true, true, false, true⟩ .notConnected
      built).within ReadOnly).along (Executes Counts)).Reachable (steppedAfter res) := by
    refine hseen.mono ?_ ?_
    · intro s hs
      obtain rfl : s = _ := hs
      exact ⟨rfl, fun m t hm => by cases hm⟩
    · intro s s' hst
      exact ⟨⟨hst.1, hst.2.1.answered⟩, fun hpc => hst.2.2 hpc hpc⟩
  exact ⟨res, _, talks_serving, rfl, hreach, (transparent Debugger.scripted_passive
    (gentle_noClient _)).reachable hreach⟩

end ServerApp

end Odb
