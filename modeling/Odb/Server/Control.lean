import Odb.Server.VMApi

/-!
# Execution control of `Debugger` (`server/debugger.cc`)

The members of `Debugger` that follow the program: the state, the call stack, the execution point
and the breakpoints. None of the functions here asks the VM anything, and one that throws has
changed nothing: each maps the members to the new ones, or fails.
-/

namespace Odb

/-- `Debugger::State`. -/
inductive DbState where
  /-- Haven't executed the first instruction yet. -/
  | notStarted
  /-- Stopped at a specific code position. -/
  | stopped
  /-- Ignore breakpoints. -/
  | runningToFinish
  /-- Stop at next breakpoints. -/
  | runningBkp
  /-- Stop at next instruction. -/
  | runningStep
  /-- Stop at next instruction (or doing it all if it's a call), or at a breakpoint. -/
  | runningStepOver
  /-- Stop when returning from current subroutine, or at a breakpoint. -/
  | runningStepOut
  /-- Program terminated because of an error. -/
  | error
  /-- Program terminated because of a normal exit. -/
  | exit
deriving DecidableEq, Repr

/-- The members of `Debugger` that decide where the program stops. -/
structure DbControl where
  infos : VMInfos
  state : DbState
  callStack : CallStack
  insAddr : VmPtr
  breakpts : Std.TreeSet VmPtr
  stepOverDepth : Nat
  /-- What a `vm_ptr_t` holds that the code left without a value. -/
  uninit : VmPtr

/-- `throw VMApi::Error(msg)`. -/
def throwErr {α : Type} (msg : String) : Except Fault α := .error (.vmError (lit msg))

namespace DbControl

/-! ## The update after an instruction -/

/-- What `on_update` does to the call stack: `back()` needs a frame, and so does `pop_back()`. -/
def updateStack (stack : CallStack) (oldAddr uninit : VmPtr) (udp : UpdateInfos) :
    Except Fault CallStack :=
  match udp.state with
  | .callSub =>
    match stack.getLast? with
    | some back =>
      .ok (stack.dropLast ++ [{ back with callAddr := oldAddr }, ⟨udp.actAddr, uninit⟩])
    | none => .error .undefined
  | .retSub => do
    assertThat (stack ≠ [])
    return stack.dropLast
  | _ => .ok stack

/-- The state in which `on_update` leaves a running debugger, the call stack and the execution
point being those after the instruction. -/
def nextState (c : DbControl) (udp : UpdateInfos) : DbState :=
  if c.state = .runningToFinish then c.state
  else if c.state = .runningStep then .stopped
  else if c.state = .runningStepOver ∧ c.callStack.length ≤ c.stepOverDepth then .stopped
  else if c.state = .runningStepOut ∧ udp.state = .retSub then .stopped
  else if c.insAddr ∈ c.breakpts then .stopped
  else c.state

/-- What `on_update` does with the update of the VM. -/
def applyUpdate (c : DbControl) (udp : UpdateInfos) : Except Fault DbControl :=
  match udp.state with
  | .error => .ok { c with state := .error }
  | .exit => .ok { c with state := .exit }
  | _ => do
    let stack ← updateStack c.callStack c.insAddr c.uninit udp
    let c := { c with insAddr := udp.actAddr, callStack := stack }
    return { c with state := c.nextState udp }

/-- The states in which `on_update` may be called. -/
def isRunning (s : DbState) : Bool :=
  s ≠ .notStarted ∧ s ≠ .stopped ∧ s ≠ .error ∧ s ≠ .exit

/-- `_db_is_stopped()` of `ServerApp`. -/
def isStopped (s : DbState) : Bool := s = .stopped ∨ s = .error ∨ s = .exit

/-- `on_update()` with the update `udp` of the VM. -/
def update (c : DbControl) (udp : UpdateInfos) : Except Fault DbControl := do
  assertThat (isRunning c.state)
  c.applyUpdate udp

/-! ## Breakpoints -/

/-- `add_breakpoint(addr)`. -/
def addBreakpoint (c : DbControl) (addr : VmPtr) : Except Fault DbControl :=
  if c.infos.memorySize ≤ addr then
    throwErr "cannot add breakpoint: address outside of memory range"
  else if addr ∈ c.breakpts then
    throwErr "cannot add breakpoint: There is already one at this address"
  else .ok { c with breakpts := c.breakpts.insert addr }

/-- `has_breakpoint(addr)`. -/
def hasBreakpoint (c : DbControl) (addr : VmPtr) : Except Fault Bool :=
  if c.infos.memorySize ≤ addr then
    throwErr "cannot get breakpoint: address outside of memory range"
  else .ok (addr ∈ c.breakpts)

/-- `del_breakpoint(addr)`. -/
def delBreakpoint (c : DbControl) (addr : VmPtr) : Except Fault DbControl :=
  if c.infos.memorySize ≤ addr then
    throwErr "cannot delete breakpoint: address outside of memory range"
  else if addr ∉ c.breakpts then
    throwErr "cannot delete breakpoint: there is none at this address"
  else .ok { c with breakpts := c.breakpts.erase addr }

/-! ## Execution -/

/-- `resume(type)`: a type that is no enumerator changes nothing. -/
def resume (c : DbControl) (type : ResumeType) : Except Fault DbControl :=
  if c.state = .exit ∨ c.state = .error then
    throwErr "cannot resume execution: program already finished"
  else match type with
    | .toFinish => .ok { c with state := .runningToFinish }
    | .continue => .ok { c with state := .runningBkp }
    | .step => .ok { c with state := .runningStep }
    | .stepOver => .ok { c with state := .runningStepOver, stepOverDepth := c.callStack.length }
    | .stepOut => .ok { c with state := .runningStepOut }
    | .other _ => .ok c

/-- `stop()`. -/
def stop (c : DbControl) : Except Fault DbControl := do
  assertThat (c.state ≠ .notStarted)
  if c.state = .exit ∨ c.state = .error then
    throwErr "cannot stop execution: program already finished"
  else if c.state = .stopped then
    throwErr "cannot stop execution: program already stopped"
  else return { c with state := .stopped }

/-! ## What a call that returns did -/

section Ok

variable {c c' : DbControl}

theorem update_breakpts {u : UpdateInfos} (h : c.update u = .ok c') :
    c'.infos = c.infos ∧ c'.breakpts = c.breakpts := by
  unfold update at h
  by_cases hr : isRunning c.state = true
  · rw [assertThat_pos hr, ok_bind] at h
    unfold applyUpdate at h
    split at h
    · obtain rfl := Except.ok.inj h
      exact ⟨rfl, rfl⟩
    · obtain rfl := Except.ok.inj h
      exact ⟨rfl, rfl⟩
    · cases hs : updateStack c.callStack c.insAddr c.uninit u with
      | error =>
        rw [hs, error_bind] at h
        cases h
      | ok stack =>
        rw [hs, ok_bind] at h
        obtain rfl := Except.ok.inj h
        exact ⟨rfl, rfl⟩
  · simp [assertThat, hr] at h

theorem addBreakpoint_ok {addr : VmPtr} (h : c.addBreakpoint addr = .ok c') :
    addr < c.infos.memorySize ∧ addr ∉ c.breakpts ∧
      c' = { c with breakpts := c.breakpts.insert addr } := by
  unfold addBreakpoint throwErr at h
  split at h
  · cases h
  · next hlt =>
    split at h
    · cases h
    · next hmem => exact ⟨UInt64.not_le.mp hlt, hmem, (Except.ok.inj h).symm⟩

theorem delBreakpoint_ok {addr : VmPtr} (h : c.delBreakpoint addr = .ok c') :
    addr < c.infos.memorySize ∧ addr ∈ c.breakpts ∧
      c' = { c with breakpts := c.breakpts.erase addr } := by
  unfold delBreakpoint throwErr at h
  split at h
  · cases h
  · next hlt =>
    split at h
    · cases h
    · next hmem =>
      exact ⟨UInt64.not_le.mp hlt, Decidable.not_not.mp hmem, (Except.ok.inj h).symm⟩

/-- The state of a program resumed with `t`. -/
def runState : ResumeType → Option DbState
  | .toFinish => some .runningToFinish
  | .continue => some .runningBkp
  | .step => some .runningStep
  | .stepOver => some .runningStepOver
  | .stepOut => some .runningStepOut
  | .other _ => none

theorem resume_ok {t : ResumeType} (h : c.resume t = .ok c') :
    c.state ≠ .exit ∧ c.state ≠ .error ∧
      c' = { c with
        state := (runState t).getD c.state
        stepOverDepth := if t = .stepOver then c.callStack.length else c.stepOverDepth } := by
  unfold resume throwErr at h
  split at h
  · cases h
  · next hst =>
    rw [not_or] at hst
    refine ⟨hst.1, hst.2, ?_⟩
    cases t <;> exact (Except.ok.inj h).symm

theorem stop_ok (h : c.stop = .ok c') :
    isRunning c.state = true ∧ c' = { c with state := .stopped } := by
  unfold stop throwErr at h
  by_cases hn : c.state = .notStarted
  · rw [assertThat, if_neg (not_not_intro hn)] at h
    cases h
  rw [assertThat_pos hn, ok_bind] at h
  split at h
  · cases h
  · next hend =>
    rw [not_or] at hend
    split at h
    · cases h
    · next hst =>
      refine ⟨?_, (Except.ok.inj h).symm⟩
      simp [isRunning, hn, hst, hend]

/-- A failing call changes nothing, so what every returning one keeps holds after it. -/
theorem getD_toOption {P : DbControl → Prop} {r : Except Fault DbControl} (hc : P c)
    (h : ∀ c', r = .ok c' → P c') : P (r.toOption.getD c) := by
  cases r with
  | error => exact hc
  | ok c' => exact h c' rfl

end Ok

end DbControl

end Odb
