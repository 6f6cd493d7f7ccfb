import Odb.Lib.Machine
import Odb.Mvm0.Step

/-!
# The calls that a program of `mvm0` has pending

A program that follows the calling convention leaves the stack above its own frame as it is, and returns
with the stack pointer where it was at the call.

* `tracked`: the processor on its own, with the calls that have not returned yet.
* `Conforms`: the calling convention, for one instruction.
* `Saved`: the return address of every pending call is on the stack; kept by every instruction that
  conforms.
-/

namespace Odb

namespace Mvm0

open Prog

/-- A call that has not returned yet. -/
structure Activation where
  /-- Where its return address is on the stack. -/
  slot : Nat
  /-- The address of the call. -/
  call : UInt32
  /-- The address of the first instruction of the subroutine. -/
  start : UInt32
deriving DecidableEq, Repr

structure Tracked where
  cpu : CPU
  /-- The pending calls, the innermost last. -/
  calls : List Activation

/-- The pending calls after an instruction. -/
def pendingAfter (cpu cpu' : CPU) (calls : List Activation) : List Activation :=
  if cpu'.status = .ok then
    match cpu.op with
    | some .call => calls ++ [⟨(cpu.sp - 4).toNat, cpu.pc, cpu'.pc⟩]
    | some .ret => calls.dropLast
    | _ => calls
  else calls

/-- An instruction of a processor that is not stopped. -/
def Executes (cpu cpu' : CPU) : Prop := cpu.status = .ok ∧ ∃ b, step.on cpu = (.ok b, cpu')

/-- The processor on its own, from `init()` on. -/
def tracked (rom : ROM) : Machine Tracked where
  Init s := ∃ cpu, Constructed rom cpu ∧ s = ⟨cpu.init, []⟩
  Step s s' := Executes s.cpu s'.cpu ∧ s'.calls = pendingAfter s.cpu s'.cpu s.calls

/-- The instruction writes over no return address, and it returns from the innermost call. -/
structure Conforms (s s' : Tracked) : Prop where
  spares : ∀ addr, s.cpu.storeAddr = some addr → ∀ a ∈ s.calls,
    addr.toNat + 4 ≤ a.slot ∨ a.slot + 4 ≤ addr.toNat
  returns : s.cpu.op = some .ret → s'.cpu.status = .ok →
    ∃ a, s.calls.getLast? = some a ∧ s.cpu.sp.toNat = a.slot

/-- The program follows the calling convention. -/
def FollowsConvention (rom : ROM) : Prop :=
  ∀ s s', (tracked rom).Reachable s → (tracked rom).Step s s' → Conforms s s'

/-- What holds of a program that follows the convention. -/
structure Saved (rom : ROM) (s : Tracked) : Prop where
  rom : s.cpu.rom = rom
  saved : ∀ a ∈ s.calls, a.slot + 4 ≤ 1024 ∧ word s.cpu.ram a.slot = a.call + 1
  inRom : ∀ a ∈ s.calls, a.call < 2048
  /-- Before the first instruction was executed to its end. -/
  fresh : s.cpu.prevPc = 0 →
    s.calls = [] ∧ (s.cpu.status = .ok → s.cpu.sp = 1024 ∧ s.cpu.pc = 1024)

variable {rom : ROM} {s s' : Tracked} {cpu cpu' : CPU} {calls : List Activation}

/-! ## One instruction -/

theorem pendingAfter_call (hok : cpu'.status = .ok) (hop : cpu.op = some .call) :
    pendingAfter cpu cpu' calls = calls ++ [⟨(cpu.sp - 4).toNat, cpu.pc, cpu'.pc⟩] := by
  unfold pendingAfter
  rw [if_pos hok, hop]

theorem pendingAfter_ret (hok : cpu'.status = .ok) (hop : cpu.op = some .ret) :
    pendingAfter cpu cpu' calls = calls.dropLast := by
  unfold pendingAfter
  rw [if_pos hok, hop]

theorem pendingAfter_other (h : cpu'.status = .ok → cpu.op ≠ some .call ∧ cpu.op ≠ some .ret) :
    pendingAfter cpu cpu' calls = calls := by
  unfold pendingAfter
  split
  · next hok =>
    obtain ⟨hcall, hret⟩ := h hok
    split
    · next hop => exact absurd hop hcall
    · next hop => exact absurd hop hret
    · rfl
  · rfl

theorem mem_dropLast {a : Activation} (h : a ∈ calls.dropLast) : a ∈ calls :=
  (List.dropLast_sublist calls).subset h

/-- One instruction keeps the return addresses that are pending, and a call adds its own. -/
theorem Saved.step (hs : Saved rom s) (hst : (tracked rom).Step s s') (hc : Conforms s s') :
    Saved rom s' := by
  obtain ⟨⟨-, b, hstep⟩, hcalls⟩ := hst
  have hold : ∀ a ∈ s.calls, a.slot + 4 ≤ 1024 ∧ word s'.cpu.ram a.slot = a.call + 1 := by
    intro a ha
    obtain ⟨hlt, hword⟩ := hs.saved a ha
    exact ⟨hlt, (step_word hstep fun addr haddr => hc.spares addr haddr a ha).trans hword⟩
  refine ⟨(step_ram hstep).1.trans hs.rom, ?_, ?_, fun hfresh => ?_⟩
  · rw [hcalls]
    by_cases hcall : s'.cpu.status = .ok ∧ s.cpu.op = some .call
    · rw [pendingAfter_call hcall.1 hcall.2]
      refine List.forall_mem_append.mpr ⟨hold, List.forall_mem_singleton.mpr ?_⟩
      exact step_call hstep hcall.1 hcall.2
    by_cases hret : s'.cpu.status = .ok ∧ s.cpu.op = some .ret
    · rw [pendingAfter_ret hret.1 hret.2]
      exact fun a ha => hold a (mem_dropLast ha)
    · rw [pendingAfter_other fun hok => ⟨fun h => hcall ⟨hok, h⟩, fun h => hret ⟨hok, h⟩⟩]
      exact hold
  · rw [hcalls]
    unfold pendingAfter
    split
    · next hok =>
      split
      · exact List.forall_mem_append.mpr ⟨hs.inRom, List.forall_mem_singleton.mpr (step_ok hstep hok).1.2⟩
      · exact fun a ha => hs.inRom a (mem_dropLast ha)
      · exact hs.inRom
    · exact hs.inRom
  · rcases step_prevPc hstep with ⟨-, hprev, hpc, -⟩ | ⟨hne, hprev⟩
    · rw [← hprev, hfresh] at hpc
      exact absurd hpc (by decide)
    · rw [hprev] at hfresh
      refine ⟨?_, fun hok => absurd hok hne⟩
      rw [hcalls, pendingAfter_other fun hok => absurd hok hne]
      exact (hs.fresh hfresh).1

/-- A program that follows the convention has the return addresses of all pending calls on its stack. -/
theorem FollowsConvention.saved (h : FollowsConvention rom) (hr : (tracked rom).Reachable s) :
    Saved rom s := by
  refine hr.invariant (fun s₀ hinit => ?_) fun s₁ s₂ hr₁ hs₁ hst => hs₁.step hst (h s₁ s₂ hr₁ hst)
  obtain ⟨cpu, hcpu, rfl⟩ := hinit
  refine ⟨hcpu.rom, List.forall_mem_nil _, List.forall_mem_nil _, fun _ => ⟨rfl, fun _ => ⟨?_, rfl⟩⟩⟩
  simp [CPU.sp, CPU.init]

/-! ### A program with a call -/

/-- `call @f`, `sys 0`, `@f`, `ret`. -/
def callRom : ROM where
  ins := [⟨none, some 0, lit "call", [1026]⟩, ⟨none, none, lit "sys", [0]⟩,
    ⟨some 0, none, lit "ret", []⟩]
  symDefs := [2]
  syms := [lit "f"]
  smap := Std.TreeMap.insertIfNew ∅ (lit "f") 0

/-- It is what the assembler makes of its text. -/
theorem parseIs_callRom : parseIs (lit "call @f\nsys 0\n@f\nret\n") = .ok callRom := rfl

/-- Where the program is. -/
def CallState (t : Tracked) : Prop :=
  t.cpu.rom = callRom ∧ (t.cpu.status = .ok →
    (t.cpu.pc = 1024 ∧ t.cpu.sp = 1024 ∧ t.calls = []) ∨
    (t.cpu.pc = 1026 ∧ t.cpu.sp = 1020 ∧ t.calls = [⟨1020, 1024, 1026⟩] ∧
      word t.cpu.ram 1020 = 1025) ∨
    (t.cpu.pc = 1025 ∧ t.calls = []))

theorem callRom_ins {cpu : CPU} {pc : UInt32} (hrom : cpu.rom = callRom) (hpc : cpu.pc = pc) :
    cpu.ins = callRom.ins[(pc - 1024).toNat]? := by
  unfold CPU.ins
  rw [hrom, hpc]

theorem callRom_step {t t' : Tracked} (h : CallState t) (hst : (tracked callRom).Step t t') :
    CallState t' ∧ Conforms t t' := by
  obtain ⟨hrom, hplace⟩ := h
  obtain ⟨⟨hok, b, hstep⟩, hcalls⟩ := hst
  have hrom' : t'.cpu.rom = callRom := (step_ram hstep).1.trans hrom
  rcases hplace hok with ⟨hpc, hsp, hnil⟩ | ⟨hpc, hsp, hone, hword⟩ | ⟨hpc, hnil⟩
  · have hop : t.cpu.op = some .call := op_eq (callRom_ins hrom hpc) (ofName_call.mpr rfl)
    refine ⟨⟨hrom', fun hok' => ?_⟩, by simp [hnil], fun hret => by simp [hop] at hret⟩
    rw [pendingAfter_call hok' hop, hnil, hsp, hpc] at hcalls
    obtain ⟨-, ins, op, c, hins, hop', hexec, hc, heq⟩ := step_ok hstep hok'
    obtain rfl := Option.some.inj ((callRom_ins hrom hpc).symm.trans hins)
    obtain rfl := Option.some.inj (hop'.symm.trans (ofName_call.mpr rfl))
    rcases exec_call hexec with ⟨-, hsegv, -⟩ | ⟨addr, haddr, hlt, rfl⟩
    · rw [hsegv] at hc
      cases hc
    · obtain rfl : (1026 : UInt32) = addr := Except.ok.inj haddr
      rw [heq] at hcalls ⊢
      refine .inr (.inl ⟨rfl, ?_, hcalls, ?_⟩)
      · simp [CPU.sp] at hsp ⊢
        rw [hsp]
        rfl
      · rw [hsp, hpc]
        exact word_setWord (by decide) _
  · have hop : t.cpu.op = some .ret := op_eq (callRom_ins hrom hpc) (ofName_ret.mpr rfl)
    have hnone : t.cpu.storeAddr = none := storeAddr_eq_none (by simp [hop]) (by simp [hop])
    refine ⟨⟨hrom', fun hok' => ?_⟩, by simp [hnone], fun _ _ => ⟨_, by rw [hone]; rfl, by rw [hsp]; rfl⟩⟩
    rw [pendingAfter_ret hok' hop, hone] at hcalls
    refine .inr (.inr ⟨?_, hcalls⟩)
    rw [step_ret hstep hok' hop, hsp]
    exact hword
  · have hop : t.cpu.op = some .sys :=
      op_eq (callRom_ins hrom hpc) (ofName_eq_some_iff.mpr (by simp [names]))
    refine ⟨⟨hrom', fun hok' => ?_⟩, by simp [hnil], fun hret => by simp [hop] at hret⟩
    obtain ⟨-, ins, op, c, hins, hop', hexec, hc, heq⟩ := step_ok hstep hok'
    obtain rfl := Option.some.inj ((callRom_ins hrom hpc).symm.trans hins)
    obtain rfl := Option.some.inj ((op_eq hins hop').symm.trans hop)
    obtain ⟨code, cpu₁, hcode, hset⟩ := bind_eq_ok.mp hexec
    obtain ⟨himm, rfl⟩ := lift_eq_ok.mp hcode
    obtain rfl : (0 : UInt32) = code := Except.ok.inj himm
    obtain rfl := (Prod.mk.inj hset).2
    cases hc

theorem callRom_follows : FollowsConvention callRom := by
  intro t t' ht hst
  refine (callRom_step ?_ hst).2
  refine ht.invariant (fun t₀ hinit => ?_) fun t₁ t₂ _ h₁ hst => (callRom_step h₁ hst).1
  obtain ⟨cpu, hcpu, rfl⟩ := hinit
  exact ⟨hcpu.rom, fun _ => .inl ⟨rfl, by simp [CPU.sp, CPU.init], rfl⟩⟩

/-- The processor after so many instructions. -/
def callRun : Nat → CPU
  | 0 => CPU.init ⟨Vector.replicate 16 0, 0, 0, 0, Vector.replicate 1024 0, 0, callRom, .ok⟩
  | n + 1 => (step.on (callRun n)).2

theorem callRun_executes {n : Nat} (hok : (callRun n).status = .ok)
    (h : (step.on (callRun n)).1.toOption = some false) : Executes (callRun n) (callRun (n + 1)) := by
  refine ⟨hok, false, ?_⟩
  cases hr : (step.on (callRun n)).1 with
  | error => rw [hr] at h; cases h
  | ok b =>
    rw [hr] at h
    obtain rfl := Option.some.inj h
    exact Prod.ext hr rfl

theorem callRun_zero : Executes (callRun 0) (callRun 1) :=
  callRun_executes rfl (rfl)

theorem callRun_one : Executes (callRun 1) (callRun 2) :=
  callRun_executes (rfl) (rfl)


end Mvm0

end Odb
