import Odb.Mvm0.Backtrace

/-!
# Stepping over a call

A debugger that is asked to step over goes by the depth of its call stack alone. In a program that
follows the calling convention it stops after the call, in the subroutine that made it.

* `Over`: where a step over a call is.
* `Over.step`: it is one of these after every instruction.
* `stepOver_call`: where it stops.
-/

namespace Odb

namespace DbControl

variable {c c' : DbControl} {u : UpdateInfos}

/-- The state after an update. -/
theorem update_state (h : c.update u = .ok c') :
    isRunning c.state = true ∧ c'.stepOverDepth = c.stepOverDepth ∧
      (u.state = .error → c'.state = .error) ∧ (u.state = .exit → c'.state = .exit) ∧
      (u.terminal = false → c'.state = nextState { c' with state := c.state } u) := by
  unfold update at h
  by_cases hr : isRunning c.state = true
  · rw [assertThat_pos hr, ok_bind] at h
    refine ⟨hr, ?_⟩
    unfold applyUpdate at h
    unfold UpdateInfos.terminal
    cases hu : u.state with
    | error | exit =>
      simp only [hu] at h
      obtain rfl := Except.ok.inj h
      simp
    | ok | callSub | retSub =>
      simp only [hu] at h
      cases hs : updateStack c.callStack c.insAddr c.uninit u with
      | error =>
        rw [hs, error_bind] at h
        cases h
      | ok stack =>
        rw [hs, ok_bind] at h
        obtain rfl := Except.ok.inj h
        refine ⟨rfl, ?_, ?_, fun _ => rfl⟩ <;> simp
  · simp [assertThat, hr] at h

/-- It stops by the depth of the call stack, or at a breakpoint. -/
theorem update_stepOver (h : c.update u = .ok c') (hu : u.terminal = false)
    (hs : c.state = .runningStepOver) :
    c'.state = if c'.callStack.length ≤ c'.stepOverDepth ∨ c'.insAddr ∈ c'.breakpts then .stopped
      else .runningStepOver := by
  obtain ⟨-, -, -, -, hnext⟩ := update_state h
  rw [hnext hu, hs]
  unfold nextState
  grind

end DbControl

namespace Mvm0

open DbControl

variable {rom : ROM} {cpu cpu' : CPU} {t t₁ t₂ : Tracked} {a : Activation}
  {db db₁ db₂ : Debugger CPU} {udp : UpdateInfos}

/-- The processor executes an instruction, and the debugger is told. -/
def Advances (db db' : Debugger CPU) : Prop :=
  Executes db.vm db'.vm ∧ ∃ udp, Debugger.Step api db (.update udp) db'

/-- Where a step over the call `a` is that was made in `t`. -/
inductive Over (t : Tracked) (a : Activation) (t' : Tracked) (db' : Debugger CPU) : Prop where
  /-- In the subroutine, or in one that it called. -/
  | inside {rest : List Activation} : t'.calls = t.calls ++ a :: rest →
      db'.state = .runningStepOver → db'.stepOverDepth = t.calls.length + 1 → Over t a t' db'
  | breakpoint {rest : List Activation} : t'.calls = t.calls ++ a :: rest →
      db'.state = .stopped → db'.insAddr ∈ db'.breakpts → Over t a t' db'
  | returned : t'.calls = t.calls → db'.state = .stopped →
      db'.insAddr = a.call.toUInt64 + 1 → Over t a t' db'
  | ended : db'.state = .error ∨ db'.state = .exit → Over t a t' db'

theorem toUInt64_succ {x : UInt32} (h : x < 2048) : (x + 1).toUInt64 = x.toUInt64 + 1 := by
  have hx : x.toNat < 2048 := UInt32.lt_iff_toNat_lt.mp h
  refine UInt64.toNat_inj.mp ?_
  rw [UInt32.toNat_toUInt64, UInt32.toNat_add, UInt64.toNat_add, UInt32.toNat_toUInt64]
  simp only [UInt32.toNat_one, UInt64.toNat_one]
  omega

/-! ## The next state of the processor -/

/-- What follows the processor, follows its next instruction. -/
theorem Follows.next (hconv : FollowsConvention rom) (ht : (tracked rom).Reachable t₁)
    (hf : Follows t₁ db₁) (hadv : Advances db₁ db₂) :
    ∃ t₂, (tracked rom).Step t₁ t₂ ∧ (tracked rom).Reachable t₂ ∧ Follows t₂ db₂ := by
  obtain ⟨hexec, udp, hupd⟩ := hadv
  rw [hf.vm] at hexec
  have hst : (tracked rom).Step t₁ ⟨db₂.vm, pendingAfter t₁.cpu db₂.vm t₁.calls⟩ := ⟨hexec, rfl⟩
  exact ⟨_, hst, ht.step hst, hf.step hst (hconv _ _ ht hst) hupd rfl⟩

/-- An instruction that stops the processor ends the program, but for the first one. -/
theorem updateState_ended (hne : cpu.status ≠ .ok) (hprev : cpu.prevPc ≠ 0) :
    cpu.updateState = .error ∨ cpu.updateState = .exit := by
  unfold CPU.updateState
  rw [if_neg hprev]
  cases hs : cpu.status <;> simp [hs] at hne ⊢

/-- The first instruction has room for a call. -/
theorem call_room (hs : Saved rom t₁) (hst : (tracked rom).Step t₁ t₂) (hcall : t₁.cpu.op = some .call)
    (hne : t₂.cpu.status ≠ .ok) : t₁.cpu.prevPc ≠ 0 := by
  intro hprev
  obtain ⟨⟨hok, b, hstep⟩, -⟩ := hst
  obtain ⟨hsp, hpc⟩ := (hs.fresh hprev).2 hok
  rcases step_cases hstep with ⟨hout, -⟩ | ⟨-, ins, c, hins, hexec, heq⟩
  · rw [hpc] at hout
    exact absurd hout (by decide)
  · have hop : Op.ofName ins.name = some .call := by
      unfold CPU.op at hcall
      rwa [hins] at hcall
    unfold exec at hexec
    rw [hop] at hexec
    rcases exec_call hexec with ⟨-, -, hout⟩ | ⟨addr, -, -, rfl⟩
    · rw [hsp] at hout
      exact absurd hout (by decide)
    · rw [heq, if_pos hok] at hne
      exact hne hok

/-! ## The debugger meanwhile -/

/-- An update that does not end the program. -/
theorem Over.goes_on {rest : List Activation} (hf : Follows t₂ db₂)
    (hctrl : db₁.toDbControl.update udp = .ok db₂.toDbControl) (hudp : udp.terminal = false)
    (hstate : db₁.state = .runningStepOver) (hdepth : db₁.stepOverDepth = t.calls.length + 1)
    (hcalls : t₂.calls = t.calls ++ a :: rest) : Over t a t₂ db₂ := by
  obtain ⟨-, hdepth', -⟩ := update_state hctrl
  have hnext := update_stepOver hctrl hudp hstate
  have hlength := hf.stack.length
  rw [hcalls, List.length_append, List.length_cons] at hlength
  split at hnext
  · next hstops =>
    refine .breakpoint hcalls hnext (hstops.resolve_left ?_)
    omega
  · exact .inside hcalls hnext (hdepth'.trans hdepth)

/-- An update that ends it. -/
theorem Over.ends (hctrl : db₁.toDbControl.update udp = .ok db₂.toDbControl)
    (hudp : udp.state = .error ∨ udp.state = .exit) : Over t a t₂ db₂ := by
  obtain ⟨-, -, herror, hexit, -⟩ := update_state hctrl
  exact .ended (hudp.imp herror hexit)

/-- The instruction after which the call is pending. -/
theorem Over.start (hconv : FollowsConvention rom) (ht : (tracked rom).Reachable t)
    (hcall : t.cpu.op = some .call) (hstate : db₁.state = .runningStepOver)
    (hdepth : db₁.stepOverDepth = t.calls.length + 1) (hst : (tracked rom).Step t t₂)
    (hf₂ : Follows t₂ db₂) (hupd : Debugger.Step api db₁ (.update udp) db₂) :
    Over t ⟨(t.cpu.sp - 4).toNat, t.cpu.pc, t₂.cpu.pc⟩ t₂ db₂ := by
  have hctrl : db₁.toDbControl.update udp = .ok db₂.toDbControl := hupd.control
  obtain rfl : udp = ⟨t₂.cpu.updateState, t₂.cpu.pc.toUInt64⟩ := by
    rw [← hf₂.vm]
    exact (Except.ok.inj (hupd.told passive)).symm
  have hstep := hst
  obtain ⟨⟨-, b, hexec⟩, hcalls⟩ := hstep
  by_cases hok : t₂.cpu.status = .ok
  · rw [pendingAfter_call hok hcall] at hcalls
    have hus := updateState_ok hexec hok
    rw [if_pos hcall] at hus
    refine .goes_on hf₂ hctrl ?_ hstate hdepth hcalls
    simp [UpdateInfos.terminal, hus]
  · have hprev : t₂.cpu.prevPc ≠ 0 := by
      rcases step_prevPc hexec with ⟨h, -⟩ | ⟨-, hprev⟩
      · exact absurd h hok
      · rw [hprev]
        exact call_room (hconv.saved ht) hst hcall hok
    exact .ends hctrl (updateState_ended hok hprev)

/-- An instruction of the subroutine, or of one that it called. -/
theorem Over.step (hconv : FollowsConvention rom) (ht : (tracked rom).Reachable t₁)
    {rest : List Activation} (hinside : t₁.calls = t.calls ++ a :: rest)
    (hstate : db₁.state = .runningStepOver) (hdepth : db₁.stepOverDepth = t.calls.length + 1)
    (hst : (tracked rom).Step t₁ t₂) (hf₂ : Follows t₂ db₂)
    (hupd : Debugger.Step api db₁ (.update udp) db₂) : Over t a t₂ db₂ := by
  have hctrl : db₁.toDbControl.update udp = .ok db₂.toDbControl := hupd.control
  obtain rfl : udp = ⟨t₂.cpu.updateState, t₂.cpu.pc.toUInt64⟩ := by
    rw [← hf₂.vm]
    exact (Except.ok.inj (hupd.told passive)).symm
  have hsaved := hconv.saved ht
  have hstep := hst
  obtain ⟨⟨-, b, hexec⟩, hcalls⟩ := hstep
  by_cases hok : t₂.cpu.status = .ok
  · have hus := updateState_ok hexec hok
    have hterm : UpdateInfos.terminal ⟨t₂.cpu.updateState, t₂.cpu.pc.toUInt64⟩ = false := by
      unfold UpdateInfos.terminal
      rw [hus]
      split
      · rfl
      · split <;> rfl
    by_cases hcall : t₁.cpu.op = some .call
    · rw [pendingAfter_call hok hcall, hinside, List.append_assoc] at hcalls
      exact .goes_on hf₂ hctrl hterm hstate hdepth hcalls
    by_cases hret : t₁.cpu.op = some .ret
    · rw [pendingAfter_ret hok hret] at hcalls
      obtain ⟨c, hc, hsp⟩ := (hconv t₁ t₂ ht hst).returns hret hok
      rcases List.eq_nil_or_concat rest with rfl | ⟨rest, last, rfl⟩
      · -- the call that is stepped over returns
        rw [hinside, List.getLast?_concat] at hc
        obtain rfl := Option.some.inj hc
        rw [hinside, List.dropLast_concat] at hcalls
        have hword := (hsaved.saved a (by simp [hinside])).2
        have hpc : t₂.cpu.pc = a.call + 1 := by
          rw [step_ret hexec hok hret, hsp, hword]
        have hnext := update_stepOver hctrl hterm hstate
        obtain ⟨-, hdepth', -⟩ := update_state hctrl
        have hlength := hf₂.stack.length
        rw [if_pos (.inl (by rw [hlength, hdepth', hdepth, hcalls]))] at hnext
        refine .returned hcalls hnext ?_
        rw [hf₂.place hok, hpc, toUInt64_succ (hsaved.inRom a (by simp [hinside]))]
      · have hdrop : (t.calls ++ a :: rest.concat last).dropLast = t.calls ++ a :: rest := by
          rw [List.concat_eq_append, ← List.cons_append, ← List.append_assoc, List.dropLast_concat]
        rw [hinside, hdrop] at hcalls
        exact .goes_on hf₂ hctrl hterm hstate hdepth hcalls
    · rw [pendingAfter_other fun _ => ⟨hcall, hret⟩, hinside] at hcalls
      exact .goes_on hf₂ hctrl hterm hstate hdepth hcalls
  · have hprev : t₂.cpu.prevPc ≠ 0 := by
      rcases step_prevPc hexec with ⟨h, -⟩ | ⟨-, hprev⟩
      · exact absurd h hok
      · rw [hprev]
        intro hz
        have hnil := (hsaved.fresh hz).1
        rw [hinside] at hnil
        simp at hnil
    exact .ends hctrl (updateState_ended hok hprev)

/-! ## The run -/

/-- An instruction, or a call of the debugger that changes neither the program nor where it stops. -/
inductive Goes : Debugger CPU → Debugger CPU → Prop where
  | advances {db db' : Debugger CPU} : Advances db db' → Goes db db'
  | asks {db db' : Debugger CPU} : db'.vm = db.vm → db'.toDbControl = db.toDbControl → Goes db db'

theorem Over.asks {t' : Tracked} (h : Over t a t' db₁) (hctrl : db₂.toDbControl = db₁.toDbControl) :
    Over t a t' db₂ := by
  have hstate : db₂.state = db₁.state := congrArg DbControl.state hctrl
  have haddr : db₂.insAddr = db₁.insAddr := congrArg DbControl.insAddr hctrl
  cases h with
  | inside hcalls hs hd =>
    exact .inside hcalls (hstate.trans hs) ((congrArg DbControl.stepOverDepth hctrl).trans hd)
  | breakpoint hcalls hs hb =>
    refine .breakpoint hcalls (hstate.trans hs) ?_
    rw [haddr, show db₂.breakpts = db₁.breakpts from congrArg DbControl.breakpts hctrl]
    exact hb
  | returned hcalls hs ha => exact .returned hcalls (hstate.trans hs) (haddr.trans ha)
  | ended hs => exact .ended (hstate ▸ hs)

theorem Follows.asks {t' : Tracked} (h : Follows t' db₁) (hvm : db₂.vm = db₁.vm)
    (hctrl : db₂.toDbControl = db₁.toDbControl) : Follows t' db₂ where
  vm := hvm.trans h.vm
  stack := (congrArg DbControl.callStack hctrl).symm ▸ h.stack
  place hok := (congrArg DbControl.insAddr hctrl).trans (h.place hok)

theorem not_advances (hs : db₁.state = .stopped ∨ db₁.state = .error ∨ db₁.state = .exit) :
    ¬ Advances db₁ db₂ := by
  rintro ⟨-, udp, hupd⟩
  have hrunning := (update_state hupd.control).1
  rcases hs with hs | hs | hs <;> rw [hs] at hrunning <;> cases hrunning

/-- Where a run is that began at a call: before the call, or over it. -/
def Since (rom : ROM) (t : Tracked) (db₁ db₂ : Debugger CPU) : Prop :=
  (Follows t db₂ ∧ db₂.toDbControl = db₁.toDbControl) ∨
    ∃ a t', (t.cpu.status = .ok ∧ a.call = t.cpu.pc) ∧ (tracked rom).Reachable t' ∧
      Follows t' db₂ ∧ Over t a t' db₂

theorem since_run (hconv : FollowsConvention rom) (ht : (tracked rom).Reachable t)
    (hf : Follows t db₁) (hcall : t.cpu.op = some .call) (hstate : db₁.state = .runningStepOver)
    (hdepth : db₁.stepOverDepth = t.calls.length + 1)
    (hrun : Relation.ReflTransGen Goes db₁ db₂) : Since rom t db₁ db₂ := by
  induction hrun with
  | refl => exact .inl ⟨hf, rfl⟩
  | @tail db db₂ _ hgo ih =>
    cases hgo with
    | asks hvm hctrl =>
      rcases ih with ⟨hf', hsame⟩ | ⟨a, t', ha, ht', hf', hover⟩
      · exact .inl ⟨hf'.asks hvm hctrl, hctrl.trans hsame⟩
      · exact .inr ⟨a, t', ha, ht', hf'.asks hvm hctrl, hover.asks hctrl⟩
    | advances hadv =>
      rcases ih with ⟨hf', hsame⟩ | ⟨a, t', ha, ht', hf', hover⟩
      · obtain ⟨t₂, hst, ht₂, hf₂⟩ := hf'.next hconv ht hadv
        obtain ⟨-, udp, hupd⟩ := hadv
        refine .inr ⟨_, t₂, ⟨hst.1.1, rfl⟩, ht₂, hf₂, .start hconv ht hcall ?_ ?_ hst hf₂ hupd⟩
        · exact (congrArg DbControl.state hsame).trans hstate
        · exact (congrArg DbControl.stepOverDepth hsame).trans hdepth
      · obtain ⟨t₂, hst, ht₂, hf₂⟩ := hf'.next hconv ht' hadv
        refine .inr ⟨a, t₂, ha, ht₂, hf₂, ?_⟩
        cases hover with
        | inside hcalls hs hd =>
          obtain ⟨-, udp, hupd⟩ := hadv
          exact .step hconv ht' hcalls hs hd hst hf₂ hupd
        | breakpoint _ hs => exact absurd hadv (not_advances (.inl hs))
        | returned _ hs => exact absurd hadv (not_advances (.inl hs))
        | ended hs => exact absurd hadv (not_advances (.inr hs))

/-- A step over a call that stops has come to a breakpoint, or to the instruction after the call, in the
subroutine that made it. -/
theorem stepOver_call (hconv : FollowsConvention rom) (ht : (tracked rom).Reachable t)
    (hf : Follows t db) (hcall : t.cpu.op = some .call)
    (hres : (Debugger.resume .stepOver).on db = (.ok (), db₁))
    (hrun : Relation.ReflTransGen Goes db₁ db₂) (hstop : db₂.state = .stopped) :
    db₂.insAddr ∈ db₂.breakpts ∨
      (db₂.insAddr = db.insAddr + 1 ∧ Shows t.calls db₂.callStack) := by
  have hstill := Debugger.still_resume .stepOver db
  rw [hres] at hstill
  unfold Debugger.resume at hres
  rw [Debugger.onControl_on] at hres
  split at hres
  · next c hc =>
    obtain ⟨-, rfl⟩ := Prod.mk.inj hres
    obtain ⟨-, -, rfl⟩ := resume_ok hc
    have hsince := since_run hconv ht (hf.still hstill) hcall rfl hf.stack.length hrun
    rcases hsince with ⟨-, hsame⟩ | ⟨a, t', ⟨hrunning, ha⟩, ht', hf', hover⟩
    · have := (congrArg DbControl.state hsame).symm.trans hstop
      cases this
    · cases hover with
      | inside _ hs =>
        rw [hs] at hstop
        cases hstop
      | breakpoint _ _ hb => exact .inl hb
      | returned hcalls _ haddr =>
        refine .inr ⟨?_, hcalls ▸ hf'.stack⟩
        rw [haddr, hf.place hrunning, ha]
      | ended hs => rcases hs with hs | hs <;> rw [hs] at hstop <;> cases hstop
  · cases hres

/-! ### A step over a call -/

/-- Before the call. -/
def callStopped : Debugger CPU := { callStarted with state := .stopped }

theorem callStopped_follows : Follows ⟨callRun 0, []⟩ callStopped := ⟨rfl, ⟨rfl, rfl⟩, fun _ => rfl⟩

def callBefore : DbControl :=
  { callStopped.toDbControl with state := .runningStepOver, stepOverDepth := 1 }

def callInside : DbControl :=
  { callBefore with insAddr := 1026, callStack := [⟨1024, 1024⟩, ⟨1026, 0⟩] }

def callAfter : DbControl :=
  { callBefore with insAddr := 1025, callStack := [⟨1024, 1024⟩], state := .stopped }

theorem callInside_update :
    callBefore.update ⟨(callRun 1).updateState, (callRun 1).pc.toUInt64⟩ = .ok callInside := by
  rw [show (callRun 1).updateState = .callSub by decide,
    show (callRun 1).pc.toUInt64 = 1026 by decide]
  rfl

theorem callAfter_update :
    callInside.update ⟨(callRun 2).updateState, (callRun 2).pc.toUInt64⟩ = .ok callAfter := by
  rw [show (callRun 2).updateState = .retSub by decide,
    show (callRun 2).pc.toUInt64 = 1025 by decide +kernel]
  rfl

/-- The debugger of the program, with its control members. -/
def callDb (n : Nat) (c : DbControl) : Debugger CPU :=
  { callStopped with vm := callRun n, toDbControl := c }

/-- Steps over the call. -/
theorem stepOver_callRom : Shows [] callAfter.callStack := by
  have hinside : Advances (callDb 0 callBefore) (callDb 1 callInside) :=
    ⟨callRun_zero, _, update_step callInside_update⟩
  have hafter : Advances (callDb 1 callInside) (callDb 2 callAfter) :=
    ⟨callRun_one, _, update_step callAfter_update⟩
  have h := @stepOver_call callRom ⟨callRun 0, []⟩ callStopped _ _ callRom_follows
    (.init ⟨_, ⟨rfl, rfl, rfl⟩, rfl⟩) callStopped_follows (op_eq (callRom_ins rfl rfl) (ofName_call.mpr rfl)) rfl
    (.tail (.single (.advances hinside)) (.advances hafter)) rfl
  exact (h.resolve_left (by decide)).2

end Mvm0

end Odb
