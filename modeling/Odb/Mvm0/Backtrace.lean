import Odb.Client.Transparency
import Odb.Mvm0.Convention
import Odb.Mvm0.VmApi

/-!
# The call stack of the debugger and that of the processor

The debugger builds its call stack from what the VM tells after every instruction. The processor has
one of its own: the return addresses in its RAM.

* `Shows`: the frames of the debugger show the pending calls.
* `Follows.step`: they do so after every instruction of a program that follows the convention.
* `backtrace`: so they do in every state of the server.
-/

namespace Odb

namespace DbControl

variable {uninit addr : VmPtr} {stack : CallStack} {u : UpdateInfos}

theorem stackStep_call {back : CallInfos} (hu : u.state = .callSub)
    (hback : stack.getLast? = some back) : stackStep uninit (stack, addr) u =
      .ok (stack.dropLast ++ [{ back with callAddr := addr }, ⟨u.actAddr, uninit⟩], u.actAddr) := by
  have ht : u.terminal = false := by simp [UpdateInfos.terminal, hu]
  simp only [stackStep, ht, updateStack, hu, hback]
  rfl

theorem stackStep_ret (hu : u.state = .retSub) (hne : stack ≠ []) :
    stackStep uninit (stack, addr) u = .ok (stack.dropLast, u.actAddr) := by
  have ht : u.terminal = false := by simp [UpdateInfos.terminal, hu]
  simp only [stackStep, ht, updateStack, hu, assertThat_pos hne]
  rfl

theorem stackStep_other (hcall : u.state ≠ .callSub) (hret : u.state ≠ .retSub) :
    stackStep uninit (stack, addr) u = .ok (stack, if u.terminal then addr else u.actAddr) := by
  unfold stackStep updateStack UpdateInfos.terminal
  cases hu : u.state <;> first | exact absurd hu hcall | exact absurd hu hret | rfl

end DbControl

namespace Mvm0

open DbControl

/-! ## What is told of an instruction -/

variable {rom : ROM} {cpu cpu' : CPU} {t t' : Tracked} {calls : List Activation}
  {stack stack' : CallStack} {db db' : Debugger CPU} {udp : UpdateInfos} {b : Bool}

/-- Of an instruction that does not stop the processor. -/
theorem updateState_ok (h : step.on cpu = (.ok b, cpu')) (hok : cpu'.status = .ok) :
    cpu'.updateState = if cpu.op = some .call then .callSub
      else if cpu.op = some .ret then .retSub else .ok := by
  obtain ⟨⟨hpc, -⟩, ins, op, c, hins, hop, -⟩ := step_ok h hok
  rcases step_prevPc h with ⟨-, hprev, -⟩ | ⟨hne, -⟩
  · have hne : cpu'.prevPc ≠ 0 := by
      rw [hprev]
      rintro hz
      rw [hz] at hpc
      exact absurd hpc (by decide)
    have hat : cpu'.rom.ins[(cpu'.prevPc - 1024).toNat]? = some ins := by
      rw [(step_ram h).1, hprev]
      exact hins
    unfold CPU.updateState
    rw [if_neg hne, if_neg (by simp [hok]), if_neg (by simp [hok]), hat, op_eq hins hop, ← hop]
    simp only [ofName_call, ofName_ret]
  · exact absurd hok hne

/-- Of one that does: no call and no return. -/
theorem updateState_stopped (hne : cpu'.status ≠ .ok) :
    cpu'.updateState ≠ .callSub ∧ cpu'.updateState ≠ .retSub := by
  unfold CPU.updateState
  cases hs : cpu'.status <;> simp only [hs, ne_eq, not_true_eq_false] at hne <;> split <;> simp

/-! ## Frames -/

/-- The frames show the pending calls: where the subroutines start, and where they were called. -/
structure Shows (calls : List Activation) (stack : CallStack) : Prop where
  starts : stack.map CallInfos.callerStartAddr = 1024 :: calls.map fun a => a.start.toUInt64
  calls : stack.dropLast.map CallInfos.callAddr = calls.map fun a => a.call.toUInt64

namespace Shows

theorem length (h : Shows calls stack) : stack.length = calls.length + 1 := by
  have := congrArg List.length h.starts
  simpa using this

theorem push (h : Shows calls stack) {a : Activation} {back : CallInfos} {addr uninit : VmPtr}
    (hback : stack.getLast? = some back) (haddr : addr = a.call.toUInt64) :
    Shows (calls ++ [a])
      (stack.dropLast ++ [{ back with callAddr := addr }, ⟨a.start.toUInt64, uninit⟩]) := by
  obtain ⟨front, rfl⟩ : ∃ front, stack = front ++ [back] := List.getLast?_eq_some_iff.mp hback
  obtain ⟨hstarts, hcalls⟩ := h
  rw [List.dropLast_concat] at hcalls ⊢
  constructor
  · rw [List.map_append, List.map_append, ← List.cons_append, ← hstarts, List.map_append]
    simp
  · have hdrop : (front ++ [{ back with callAddr := addr }, ⟨a.start.toUInt64, uninit⟩]).dropLast =
        front ++ [{ back with callAddr := addr }] := by
      rw [List.dropLast_append_of_ne_nil (by simp)]
      rfl
    rw [hdrop, List.map_append, List.map_append, hcalls, haddr]
    rfl

theorem pop (h : Shows calls stack) (hne : calls ≠ []) : Shows calls.dropLast stack.dropLast where
  starts := by
    rw [List.map_dropLast, h.starts, List.dropLast_cons_of_ne_nil (by simpa using hne),
      List.map_dropLast]
  calls := by rw [List.map_dropLast, h.calls, List.map_dropLast]

end Shows

/-- The debugger follows the processor. -/
structure Follows (t : Tracked) (db : Debugger CPU) : Prop where
  vm : db.vm = t.cpu
  stack : Shows t.calls db.callStack
  place : t.cpu.status = .ok → db.insAddr = t.cpu.pc.toUInt64

theorem Follows.start (h : Debugger.Started api db) {cpu : CPU} (hvm : db.vm = cpu.init) :
    Follows ⟨cpu.init, []⟩ db := by
  obtain ⟨udp, hudp, haddr⟩ := h.insAddr passive
  have haddr : db.insAddr = 1024 := by
    rw [hvm] at hudp
    obtain rfl := Except.ok.inj hudp
    exact haddr
  refine ⟨hvm, ?_, fun _ => haddr⟩
  rw [h.members.2.1, haddr]
  exact ⟨rfl, rfl⟩

theorem Follows.still (h : Follows t db) (hst : Debugger.Still db db') : Follows t db' where
  vm := hst.vm.trans h.vm
  stack := hst.callStack ▸ h.stack
  place hok := hst.insAddr.trans (h.place hok)

/-- The update after an instruction that conforms. -/
theorem Follows.step (h : Follows t db) (hst : (tracked rom).Step t t') (hc : Conforms t t')
    (hupd : Debugger.Step api db (.update udp) db') (hvm : db'.vm = t'.cpu) : Follows t' db' := by
  obtain ⟨⟨hrunning, b, hstep⟩, hcalls⟩ := hst
  have hctrl : db.toDbControl.update udp = .ok db'.toDbControl := hupd.control
  obtain ⟨hstack, -⟩ := Debugger.applyUpdate_stack hctrl
  have hudp : udp = ⟨t'.cpu.updateState, t'.cpu.pc.toUInt64⟩ := by
    rw [← hvm]
    exact (Except.ok.inj (hupd.told passive)).symm
  have haddr := h.place hrunning
  have hlength := h.stack.length
  by_cases hok : t'.cpu.status = .ok
  · have hstate := updateState_ok hstep hok
    by_cases hcall : t.cpu.op = some .call
    · rw [if_pos hcall] at hstate
      obtain ⟨back, hback⟩ : ∃ back, db.callStack.getLast? = some back := by
        rw [← Option.isSome_iff_exists, List.getLast?_isSome]
        exact List.ne_nil_of_length_pos (by omega)
      rw [hudp, stackStep_call hstate hback] at hstack
      obtain ⟨hstack, hplace⟩ := Prod.mk.inj (Except.ok.inj hstack)
      refine ⟨hvm, ?_, fun _ => hplace.symm⟩
      rw [hcalls, pendingAfter_call hok hcall, ← hstack]
      exact h.stack.push hback haddr
    rw [if_neg hcall] at hstate
    by_cases hret : t.cpu.op = some .ret
    · rw [if_pos hret] at hstate
      rw [hudp, stackStep_ret hstate (List.ne_nil_of_length_pos (by omega))] at hstack
      obtain ⟨hstack, hplace⟩ := Prod.mk.inj (Except.ok.inj hstack)
      refine ⟨hvm, ?_, fun _ => hplace.symm⟩
      obtain ⟨a, ha, -⟩ := hc.returns hret hok
      rw [hcalls, pendingAfter_ret hok hret, ← hstack]
      refine h.stack.pop fun hnil => ?_
      rw [hnil] at ha
      cases ha
    · rw [if_neg hret] at hstate
      rw [hudp, stackStep_other (by simp [hstate]) (by simp [hstate])] at hstack
      obtain ⟨hstack, hplace⟩ := Prod.mk.inj (Except.ok.inj hstack)
      refine ⟨hvm, ?_, fun _ => ?_⟩
      · rw [hcalls, pendingAfter_other fun _ => ⟨hcall, hret⟩, ← hstack]
        exact h.stack
      · rw [← hplace, if_neg (by simp [UpdateInfos.terminal, hstate])]
  · obtain ⟨hcall, hret⟩ := updateState_stopped hok
    rw [hudp, stackStep_other hcall hret] at hstack
    obtain ⟨hstack, -⟩ := Prod.mk.inj (Except.ok.inj hstack)
    refine ⟨hvm, ?_, fun h => absurd h hok⟩
    rw [hcalls, pendingAfter_other fun h => absurd h hok, ← hstack]
    exact h.stack

theorem update_step {db : Debugger CPU} {cpu : CPU} {c : DbControl}
    (hc : db.toDbControl.update ⟨cpu.updateState, cpu.pc.toUInt64⟩ = .ok c) :
    Debugger.Step api db (.update ⟨cpu.updateState, cpu.pc.toUInt64⟩)
      { db with vm := cpu, toDbControl := c } := by
  have htold : api.getUpdateInfos cpu = (.ok ⟨cpu.updateState, cpu.pc.toUInt64⟩, cpu) := rfl
  refine .update htold ?_
  rw [Debugger.onUpdate_on api htold, hc]

/-! ## The server -/

section Server

open ServerApp DataClientServerRunner

/-- How the application drives the server: the debugger is made after `init()`, and between two calls
of `loop()` the processor executes an instruction. -/
def Drives (rom : ROM) {H : Type} (s s' : ServerApp CPU H) : Prop :=
  (s.db = none → ∀ db, s'.db = some db → ∃ cpu, Constructed rom cpu ∧ db.vm = cpu.init) ∧
    ServerApp.Executes Executes s s'

variable {C : Type} {cli : ClientHandler api C} {conf : ServerConfig} {c₀ : C} {t₀ : Threads}
  {s : ServerApp CPU (C ⊕ Threads)}

/-- The server of the application, as long as no client writes to the VM. -/
abbrev app (rom : ROM) (cli : ClientHandler api C) (conf : ServerConfig) (c₀ : C) (t₀ : Threads) :
    Machine (ServerApp CPU (C ⊕ Threads)) :=
  ((server cli conf c₀ t₀).within ReadOnly).along (Drives rom)

/-- The debugger, if there is one, follows the processor. -/
def Tracks (rom : ROM) {H : Type} (s : ServerApp CPU H) : Prop :=
  ∀ db, s.db = some db → ∃ t, (tracked rom).Reachable t ∧ Follows t db

/-- It does in every state of the server. -/
theorem app_tracks (hconv : FollowsConvention rom) (hcli : Gentle cli)
    (hr : (app rom cli conf c₀ t₀).Reachable s) : Tracks rom s := by
  refine hr.invariant (fun s₀ hinit db hdb => ?_) fun s₁ s₂ hr₁ ih hst db hdb => ?_
  · obtain rfl : s₀ = _ := hinit.1
    cases hdb
  obtain ⟨⟨hst, hro⟩, hboot, hexec⟩ := hst
  cases Step.seen passive hcli hr₁.of_along.of_within.1 hst hro with
  | without _ hnone =>
    rw [hnone] at hdb
    cases hdb
  | @boot db₀ _ hnone hsome hstarted hstill =>
    obtain rfl := Option.some.inj (hdb.symm.trans hsome)
    obtain ⟨cpu, hcpu, hvm⟩ := hboot hnone db hdb
    exact ⟨⟨cpu.init, []⟩, .init ⟨cpu, hcpu, rfl⟩,
      (Follows.start hstarted (hstill.vm.symm.trans hvm)).still hstill⟩
  | still hsome hsome' hstill =>
    obtain rfl := Option.some.inj (hdb.symm.trans hsome')
    obtain ⟨t, ht, hfollows⟩ := ih _ hsome
    exact ⟨t, ht, hfollows.still hstill⟩
  | update hpc hpc' hsome hsome' hupd =>
    obtain rfl := Option.some.inj (hdb.symm.trans hsome')
    obtain ⟨t, ht, hfollows⟩ := ih _ hsome
    have hexec := hexec hpc hpc' _ _ hsome hsome'
    rw [hfollows.vm] at hexec
    have hstep : (tracked rom).Step t ⟨db.vm, pendingAfter t.cpu db.vm t.calls⟩ := ⟨hexec, rfl⟩
    exact ⟨_, ht.step hstep, hfollows.step hstep (hconv _ _ ht hstep) hupd rfl⟩

/-- The frames of the debugger are the calls that the processor has pending: where each was made, where
its subroutine starts, and on the stack of the processor there is the address after each. -/
theorem backtrace (hconv : FollowsConvention rom) (hcli : Gentle cli)
    (hr : (app rom cli conf c₀ t₀).Reachable s) {db : Debugger CPU} (hdb : s.db = some db) :
    ∃ calls, (tracked rom).Reachable ⟨db.vm, calls⟩ ∧ Shows calls db.callStack ∧
      (db.vm.status = .ok → db.insAddr = db.vm.pc.toUInt64) ∧
      ∀ a ∈ calls, a.slot + 4 ≤ 1024 ∧ word db.vm.ram a.slot = a.call + 1 := by
  obtain ⟨⟨cpu, calls⟩, ht, hvm, hstack, hplace⟩ := app_tracks hconv hcli hr db hdb
  obtain rfl : db.vm = cpu := hvm
  exact ⟨calls, ht, hstack, hplace, (hconv.saved ht).saved⟩

end Server

/-! ### A pending call in the server -/

section Pending

open ServerApp DataClientServerRunner

/-- The debugger of the program before the first instruction. -/
def callStarted : Debugger CPU :=
  { Debugger.new (callRun 0) 0 with
    infos := callRom.vmInfos
    symsRanges := some (RangeMap.new 0 2047 0)
    state := .runningToFinish
    callStack := [⟨1024, 0⟩]
    insAddr := 1024 }

theorem callStarted_started : Debugger.Started api callStarted := ⟨callRun 0, 0, rfl⟩

/-- The server of the program, without a client. -/
abbrev callTcp : Machine (ServerApp CPU (ClientState ⊕ Threads)) :=
  server (noClient api) ⟨true, false, true, false⟩ .notConnected built

abbrev callApp : Machine (ServerApp CPU (ClientState ⊕ Threads)) :=
  app callRom (noClient api) ⟨true, false, true, false⟩ .notConnected built

def callServer (pc : Pc) (db : Debugger CPU) : ServerApp CPU (ClientState ⊕ Threads) :=
  ⟨true, some db, some ⟨.notConnected, [.inl .notConnected], none⟩, pc, false⟩

theorem callServer_step {pc pc' : Pc} {db db' : Debugger CPU}
    (hst : callTcp.Step (callServer pc db) (callServer pc' db'))
    (hexec : pc = .update → Executes db.vm db'.vm) :
    callApp.Step (callServer pc db) (callServer pc' db') := by
  refine ⟨⟨hst, ?_⟩, ?_, ?_⟩
  · intro m t hm hmain
    obtain rfl := Option.some.inj hm
    cases hmain
  · intro h
    cases h
  · intro hpc _ db₁ db₂ h₁ h₂
    obtain rfl := Option.some.inj h₁
    obtain rfl := Option.some.inj h₂
    exact hexec hpc

def callPending : DbControl :=
  { callStarted.toDbControl with
    insAddr := 1026, callStack := [⟨1024, 1024⟩, ⟨1026, 0⟩] }

theorem callPending_update : callStarted.toDbControl.update
    ⟨(callRun 1).updateState, (callRun 1).pc.toUInt64⟩ = .ok callPending := by
  rw [show (callRun 1).updateState = .callSub by decide,
    show (callRun 1).pc.toUInt64 = 1026 by decide]
  rfl

/-- The first instruction was the call. -/
theorem callServer_reachable : callApp.Reachable
    (callServer .poll { callStarted with vm := callRun 1, toDbControl := callPending }) := by
  have start : callApp.Reachable (callServer .poll callStarted) := by
    refine .step (.init ⟨rfl, fun m t hm => by cases hm⟩)
      ⟨⟨.loop (.init rfl rfl rfl callStarted_started), ?_⟩, ?_, ?_⟩
    · intro m t hm hmain
      obtain rfl := Option.some.inj hm
      cases hmain
    · intro _ db hdb
      obtain rfl := Option.some.inj hdb
      exact ⟨_, ⟨rfl, rfl, rfl⟩, rfl⟩
    · intro hpc
      cases hpc
  have hpoll : callTcp.Step (callServer .poll callStarted) _ := .loop (.poll rfl rfl rfl rfl
    (.waits rfl (.cons ⟨.inl rfl, by decide⟩ .nil)))
  have polled : callApp.Reachable (callServer .head callStarted) :=
    start.step (callServer_step hpoll (by simp))
  have checked : callApp.Reachable (callServer .checked callStarted) :=
    polled.step (callServer_step (.loop (.checkSkip rfl rfl rfl (by simp) (by simp))) (by simp))
  have hleft : callTcp.Step (callServer .checked callStarted) _ := .loop (.checked rfl rfl)
  have left : callApp.Reachable (callServer .leave callStarted) :=
    checked.step (callServer_step hleft (by simp))
  have hreturned : callTcp.Step (callServer .leave callStarted) _ := .loop (.leave rfl rfl rfl)
  have returned : callApp.Reachable (callServer .vm callStarted) :=
    left.step (callServer_step hreturned (by simp))
  have called : callApp.Reachable (callServer .update callStarted) :=
    returned.step (callServer_step (.loop (.call rfl rfl rfl rfl)) (by simp))
  have hupdate : callTcp.Step (callServer .update callStarted) _ :=
    .loop (.update rfl rfl (update_step callPending_update))
  rw [show (callRun 1).updateState = .callSub by decide] at hupdate
  exact called.step (callServer_step hupdate fun _ => callRun_zero)

/-- The frames of the debugger while the call is pending. -/
theorem backtrace_callRom : ∃ calls, calls ≠ [] ∧ Shows calls callPending.callStack := by
  obtain ⟨calls, -, hshows, -⟩ :=
    backtrace callRom_follows (gentle_noClient api) callServer_reachable rfl
  exact ⟨calls, fun hnil => absurd (hnil ▸ hshows.length) (by decide), hshows⟩

end Pending

end Mvm0

end Odb
