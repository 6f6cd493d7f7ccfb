import Odb.Mvm0.Cpu

/-!
# What an instruction of `mvm0` does

* `step_cases`: a step executes the instruction at `pc`, or finds none.
* `step_ram`: the only bytes that it changes are the four that `storeAddr` tells.
* `step_call`, `step_ret`: a call and a return that do not stop the processor.
-/

namespace Odb

namespace Mvm0

open Prog

/-- The instruction at `pc`. -/
def CPU.ins (cpu : CPU) : Option Ins := cpu.rom.ins[(cpu.pc - 1024).toNat]?

def CPU.op (cpu : CPU) : Option Op := cpu.ins.bind fun ins => Op.ofName ins.name

/-- The address that the instruction at `pc` writes to. -/
def CPU.storeAddr (cpu : CPU) : Option UInt32 :=
  cpu.ins.bind fun ins =>
    match Op.ofName ins.name with
    | some .str => (reg (ins.arg 1)).toOption.map fun r => cpu.regs.get r
    | some .call => some (cpu.sp - 4)
    | _ => none

variable {cpu cpu' c : CPU} {b : Bool} {a0 a1 a2 : Int}

/-! ## Names -/

theorem ofName_name : ∀ p ∈ names, Op.ofName p.1 = some p.2 := by decide

theorem ofName_eq_some_iff {name : Bytes} {op : Op} :
    Op.ofName name = some op ↔ (name, op) ∈ names := by
  refine ⟨fun h => ?_, ofName_name (name, op)⟩
  obtain ⟨p, hp, rfl⟩ := Option.map_eq_some_iff.mp h
  have hname : p.1 = name := by simpa using List.find?_some hp
  rw [← hname]
  exact List.mem_of_find?_eq_some hp

theorem ofName_call {name : Bytes} : Op.ofName name = some .call ↔ name = lit "call" := by
  rw [ofName_eq_some_iff]
  simp [names]

theorem ofName_ret {name : Bytes} : Op.ofName name = some .ret ↔ name = lit "ret" := by
  rw [ofName_eq_some_iff]
  simp [names]

theorem storeAddr_eq_none (hstr : cpu.op ≠ some .str) (hcall : cpu.op ≠ some .call) :
    cpu.storeAddr = none := by
  unfold CPU.op at hstr hcall
  unfold CPU.storeAddr
  cases hins : cpu.ins with
  | none => rfl
  | some ins =>
    rw [hins, Option.bind_some] at hstr hcall
    rw [Option.bind_some]
    split
    · next h => exact absurd h hstr
    · next h => exact absurd h hcall
    · rfl

/-! ## Words in the RAM -/

theorem word_setWord {ram : Vector UInt8 1024} {addr : Nat} (h : addr + 4 ≤ 1024) (v : UInt32) :
    word (setWord ram addr v) addr = v := by
  have hpeek : Memory.peek 0 (setWord ram addr v) addr 4 = Wire.leBytes 4 v.toNat :=
    @Memory.peek_poke _ _ 0 ram addr (Wire.leBytes 4 v.toNat) h
  unfold word
  rw [hpeek, Wire.leNat_leBytes v.toNat_lt, UInt32.ofNat_toNat]

theorem word_setWord_of_disjoint {ram : Vector UInt8 1024} {addr slot : Nat} (v : UInt32)
    (h : addr + 4 ≤ slot ∨ slot + 4 ≤ addr) : word (setWord ram addr v) slot = word ram slot := by
  unfold word setWord
  rw [Memory.peek_poke_of_disjoint h.symm]

/-! ## References -/

theorem mem_cases {addr : UInt32} {ref : Option Nat} (h : (mem addr).on cpu = (.ok ref, c)) :
    (ref = none ∧ 1024 ≤ addr ∧ c = { cpu with status := .segv }) ∨
      (ref = some addr.toNat ∧ addr.toNat + 4 ≤ 1024 ∧ c = cpu) := by
  unfold mem at h
  split at h
  · next hout =>
    obtain ⟨hr, rfl⟩ := Prod.mk.inj h
    exact .inl ⟨(Except.ok.inj hr).symm, hout, rfl⟩
  · split at h
    · cases h
    · next hlt =>
      obtain ⟨hr, rfl⟩ := Prod.mk.inj h
      exact .inr ⟨(Except.ok.inj hr).symm, Nat.not_lt.mp hlt, rfl⟩

/-! ## What an instruction leaves alone -/

/-- What every instruction leaves alone. -/
def CPU.fixed (cpu : CPU) : ROM × UInt32 := (cpu.rom, cpu.prevPc)

/-- What an instruction that does not write leaves alone. -/
def CPU.frame (cpu : CPU) : (ROM × UInt32) × Vector UInt8 1024 := (cpu.fixed, cpu.ram)

section Keeps

variable {τ : Type} {f : CPU → τ}

theorem keeps_getReg (idx : Int) : Keeps f (getReg idx) :=
  .bind (.lift _) fun _ => .bind .get fun _ => .ret _

theorem keeps_load (ref : Option Nat) : Keeps f (load ref) := .bind .get fun _ => .ret _

/-- `f` is about other members than those that an instruction which does not write changes. -/
structure Ignores (f : CPU → τ) : Prop where
  regs : ∀ cpu regs, f { cpu with regs := regs } = f cpu
  pc : ∀ cpu pc, f { cpu with pc := pc } = f cpu
  zf : ∀ cpu zf, f { cpu with zf := zf } = f cpu
  status : ∀ cpu status, f { cpu with status := status } = f cpu

variable (hf : Ignores f)
include hf

theorem keeps_setReg (idx : Int) (v : UInt32) : Keeps f (setReg idx v) :=
  .bind (.lift _) fun _ => .modify fun _ => hf.regs _ _

theorem keeps_mem (addr : UInt32) : Keeps f (mem addr) :=
  .ite (.bind (.modify fun _ => hf.status _ _) fun _ => .ret _) (.ite (.fail _) (.ret _))

theorem keeps_next : Keeps f next := .modify fun _ => hf.pc _ _

theorem keeps_jump (x : Int) : Keeps f (jump x) :=
  .bind (.lift _) fun _ => .modify fun _ => hf.pc _ _

theorem keeps_setSp (g : UInt32 → UInt32) : Keeps f (setSp g) := .modify fun _ => hf.regs _ _

theorem Op.keeps_exec {op : Op} (hstr : op ≠ .str) (hcall : op ≠ .call) :
    Keeps f (op.exec a0 a1 a2) := by
  cases op with
  | str => exact absurd rfl hstr
  | call => exact absurd rfl hcall
  | mov => exact .bind (keeps_getReg _) fun _ => .bind (keeps_setReg hf _ _) fun _ => keeps_next hf
  | movi => exact .bind (.lift _) fun _ => .bind (keeps_setReg hf _ _) fun _ => keeps_next hf
  | ldr =>
    exact .bind (keeps_getReg _) fun _ => .bind (keeps_mem hf _) fun _ =>
      .bind (keeps_load _) fun _ => .bind (keeps_setReg hf _ _) fun _ => keeps_next hf
  | b => exact keeps_jump hf _
  | bz => exact .bind .get fun _ => .ite (keeps_jump hf _) (keeps_next hf)
  | bn => exact .bind .get fun _ => .ite (keeps_jump hf _) (keeps_next hf)
  | ret =>
    exact .bind .get fun _ => .bind (keeps_mem hf _) fun _ => .bind (keeps_load _) fun _ =>
      .bind (.modify fun _ => hf.pc _ _) fun _ => keeps_setSp hf _
  | sys =>
    exact .bind (.lift _) fun _ => .bind (.modify fun _ => hf.status _ _) fun _ => keeps_next hf
  | data op =>
    exact .bind (keeps_getReg _) fun _ => .bind (keeps_getReg _) fun _ => .bind (.lift _) fun _ =>
      .bind (keeps_setReg hf _ _) fun _ => .bind (.modify fun _ => hf.zf _ _) fun _ => keeps_next hf

end Keeps

theorem ignores_frame : Ignores CPU.frame where
  regs _ _ := rfl
  pc _ _ := rfl
  zf _ _ := rfl
  status _ _ := rfl

/-! ## Instructions that use the memory -/

theorem getReg_ok {idx : Int} {v : UInt32} (h : (getReg idx).on cpu = (.ok v, c)) :
    ∃ r, reg idx = .ok r ∧ v = cpu.regs.get r ∧ c = cpu := by
  obtain ⟨r, cpu₁, hr, hret⟩ := bind_eq_ok.mp h
  obtain ⟨hreg, rfl⟩ := lift_eq_ok.mp hr
  obtain ⟨hv, rfl⟩ := Prod.mk.inj hret
  exact ⟨r, hreg, (Except.ok.inj hv).symm, rfl⟩

theorem jump_ok {x : Int} (h : (jump x).on cpu = (.ok (), c)) :
    ∃ addr, imm x = .ok addr ∧ c = { cpu with pc := addr } := by
  obtain ⟨addr, cpu₁, haddr, hset⟩ := bind_eq_ok.mp h
  obtain ⟨himm, rfl⟩ := lift_eq_ok.mp haddr
  exact ⟨addr, himm, (Prod.mk.inj hset).2.symm⟩

theorem exec_str (h : (Op.str.exec a0 a1 a2).on cpu = (.ok (), c)) :
    c.fixed = cpu.fixed ∧ (c.ram = cpu.ram ∨ ∃ r v, reg a1 = .ok r ∧
      (cpu.regs.get r).toNat + 4 ≤ 1024 ∧ c.ram = setWord cpu.ram (cpu.regs.get r).toNat v) := by
  obtain ⟨v, cpu₁, hv, h₁⟩ := bind_eq_ok.mp h
  obtain ⟨addr, cpu₂, haddr, h₂⟩ := bind_eq_ok.mp h₁
  obtain ⟨ref, cpu₃, href, h₃⟩ := bind_eq_ok.mp h₂
  obtain ⟨-, -, -, rfl⟩ := getReg_ok hv
  obtain ⟨r, hr, rfl, rfl⟩ := getReg_ok haddr
  obtain rfl := (Prod.mk.inj h₃).2
  rcases mem_cases href with ⟨rfl, -, rfl⟩ | ⟨rfl, hlt, rfl⟩
  · exact ⟨rfl, .inl rfl⟩
  · exact ⟨rfl, .inr ⟨r, v, hr, hlt, rfl⟩⟩

/-- A call that finds no room on the stack stops the processor. -/
theorem exec_call (h : (Op.call.exec a0 a1 a2).on cpu = (.ok (), c)) :
    (c.frame = cpu.frame ∧ c.status = .segv ∧ 1024 ≤ cpu.sp - 4) ∨
      ∃ addr, imm a0 = .ok addr ∧ (cpu.sp - 4).toNat + 4 ≤ 1024 ∧
        c = { cpu with
          regs := cpu.regs.set regSp (cpu.sp - 4) regSp.isLt
          ram := setWord cpu.ram (cpu.sp - 4).toNat (cpu.pc + 1)
          pc := addr } := by
  have hsp : CPU.sp { cpu with regs := cpu.regs.set regSp (cpu.sp - 4) regSp.isLt } = cpu.sp - 4 := by
    unfold CPU.sp
    simp
  obtain ⟨_, cpu₁, hset, h₁⟩ := bind_eq_ok.mp h
  obtain rfl := (Prod.mk.inj hset).2
  rw [on_bind_ok (on_get _)] at h₁
  obtain ⟨ref, cpu₂, href, h₂⟩ := bind_eq_ok.mp h₁
  rw [hsp] at href
  rw [on_bind_ok (on_get _)] at h₂
  obtain ⟨_, cpu₃, hstore, h₃⟩ := bind_eq_ok.mp h₂
  obtain rfl := (Prod.mk.inj hstore).2
  obtain ⟨addr, haddr, rfl⟩ := jump_ok h₃
  rcases mem_cases href with ⟨rfl, hout, rfl⟩ | ⟨rfl, hlt, rfl⟩
  · exact .inl ⟨rfl, rfl, hout⟩
  · exact .inr ⟨addr, haddr, hlt, rfl⟩

/-- A return from outside of the RAM stops the processor. -/
theorem exec_ret (h : (Op.ret.exec a0 a1 a2).on cpu = (.ok (), c)) :
    c.status = .segv ∨ (cpu.sp.toNat + 4 ≤ 1024 ∧
      c = { cpu with
        regs := cpu.regs.set regSp (cpu.sp + 4) regSp.isLt
        pc := word cpu.ram cpu.sp.toNat }) := by
  unfold Op.exec at h
  rw [on_bind_ok (on_get _)] at h
  obtain ⟨ref, cpu₁, href, h₁⟩ := bind_eq_ok.mp h
  obtain rfl := (Prod.mk.inj h₁).2
  rcases mem_cases href with ⟨rfl, -, rfl⟩ | ⟨rfl, hlt, rfl⟩
  · exact .inl rfl
  · exact .inr ⟨hlt, rfl⟩

/-! ## Steps -/

theorem step_cases (h : step.on cpu = (.ok b, cpu')) :
    ((cpu.pc < 1024 ∨ 2048 ≤ cpu.pc) ∧ cpu' = { cpu with status := .segv }) ∨
      ((1024 ≤ cpu.pc ∧ cpu.pc < 2048) ∧ ∃ ins c, cpu.ins = some ins ∧
        (exec ins).on cpu = (.ok (), c) ∧
        cpu' = if c.status = .ok then { c with prevPc := cpu.pc } else c) := by
  unfold step at h
  rw [on_bind_ok (on_get _)] at h
  split at h
  · next hout => exact .inl ⟨hout, (Prod.mk.inj h).2.symm⟩
  · next hin =>
    refine .inr ⟨by simpa using hin, ?_⟩
    cases hins : cpu.rom.ins[(cpu.pc - 1024).toNat]? with
    | none =>
      rw [hins] at h
      cases h
    | some ins =>
      rw [hins] at h
      obtain ⟨_, c, hexec, hend⟩ := bind_eq_ok.mp h
      exact ⟨ins, c, hins, hexec, (Prod.mk.inj hend).2.symm⟩

/-- What is executed of an instruction that does not stop the processor. -/
theorem step_ok (h : step.on cpu = (.ok b, cpu')) (hok : cpu'.status = .ok) :
    (1024 ≤ cpu.pc ∧ cpu.pc < 2048) ∧ ∃ ins op c, cpu.ins = some ins ∧ Op.ofName ins.name = some op ∧
      (op.exec (ins.arg 0) (ins.arg 1) (ins.arg 2)).on cpu = (.ok (), c) ∧ c.status = .ok ∧
      cpu' = { c with prevPc := cpu.pc } := by
  rcases step_cases h with ⟨-, rfl⟩ | ⟨hpc, ins, c, hins, hexec, rfl⟩
  · cases hok
  · have hc : c.status = .ok := by
      by_contra hne
      rw [if_neg hne] at hok
      exact hne hok
    rw [if_pos hc]
    refine ⟨hpc, ins, ?_⟩
    unfold exec at hexec
    cases hop : Op.ofName ins.name with
    | none =>
      rw [hop] at hexec
      obtain rfl := (Prod.mk.inj hexec).2
      cases hc
    | some op =>
      rw [hop] at hexec
      exact ⟨op, c, hins, rfl, hexec, hc, rfl⟩

theorem exec_ram {ins : Ins} (hins : cpu.ins = some ins) (hexec : (exec ins).on cpu = (.ok (), c)) :
    c.fixed = cpu.fixed ∧ (c.ram = cpu.ram ∨ ∃ addr v, cpu.storeAddr = some addr ∧
      addr.toNat + 4 ≤ 1024 ∧ c.ram = setWord cpu.ram addr.toNat v) := by
  unfold exec at hexec
  unfold CPU.storeAddr
  rw [hins, Option.bind_some]
  cases hop : Op.ofName ins.name with
  | none =>
    rw [hop] at hexec
    obtain rfl := (Prod.mk.inj hexec).2
    exact ⟨rfl, .inl rfl⟩
  | some op =>
    rw [hop] at hexec
    by_cases hstr : op = .str
    · subst hstr
      obtain ⟨hfixed, hram⟩ := exec_str hexec
      refine ⟨hfixed, hram.imp_right ?_⟩
      rintro ⟨r, v, hr, hlt, hset⟩
      exact ⟨cpu.regs.get r, v, by rw [hr]; rfl, hlt, hset⟩
    by_cases hcall : op = .call
    · subst hcall
      rcases exec_call hexec with ⟨hframe, -⟩ | ⟨addr, -, hlt, rfl⟩
      · exact ⟨congrArg Prod.fst hframe, .inl (congrArg Prod.snd hframe)⟩
      · exact ⟨rfl, .inr ⟨_, _, rfl, hlt, rfl⟩⟩
    · have hkeeps : Keeps CPU.frame (op.exec (ins.arg 0) (ins.arg 1) (ins.arg 2)) :=
        Op.keeps_exec ignores_frame hstr hcall
      have hframe := hkeeps cpu
      rw [show (op.exec (ins.arg 0) (ins.arg 1) (ins.arg 2)).on cpu = _ from hexec] at hframe
      exact ⟨congrArg Prod.fst hframe, .inl (congrArg Prod.snd hframe)⟩

/-- The RAM after an instruction. -/
theorem step_ram (h : step.on cpu = (.ok b, cpu')) : cpu'.rom = cpu.rom ∧
    (cpu'.ram = cpu.ram ∨ ∃ addr v, cpu.storeAddr = some addr ∧ addr.toNat + 4 ≤ 1024 ∧
      cpu'.ram = setWord cpu.ram addr.toNat v) := by
  rcases step_cases h with ⟨-, rfl⟩ | ⟨-, ins, c, hins, hexec, rfl⟩
  · exact ⟨rfl, .inl rfl⟩
  · obtain ⟨hfixed, hram⟩ := exec_ram hins hexec
    split <;> exact ⟨congrArg Prod.fst hfixed, hram⟩

/-- Only an instruction that does not stop the processor is remembered. -/
theorem step_prevPc (h : step.on cpu = (.ok b, cpu')) :
    (cpu'.status = .ok ∧ cpu'.prevPc = cpu.pc ∧ 1024 ≤ cpu.pc ∧ cpu.pc < 2048) ∨
      (cpu'.status ≠ .ok ∧ cpu'.prevPc = cpu.prevPc) := by
  rcases step_cases h with ⟨-, rfl⟩ | ⟨hpc, ins, c, hins, hexec, rfl⟩
  · exact .inr ⟨by simp, rfl⟩
  · split
    · next hok => exact .inl ⟨hok, rfl, hpc⟩
    · next hne => exact .inr ⟨hne, congrArg Prod.snd (exec_ram hins hexec).1⟩

/-- A word that the instruction does not write to. -/
theorem step_word (h : step.on cpu = (.ok b, cpu')) {slot : Nat}
    (hspared : ∀ addr, cpu.storeAddr = some addr → addr.toNat + 4 ≤ slot ∨ slot + 4 ≤ addr.toNat) :
    word cpu'.ram slot = word cpu.ram slot := by
  rcases (step_ram h).2 with hram | ⟨addr, v, haddr, -, hram⟩
  · rw [hram]
  · rw [hram, word_setWord_of_disjoint v (hspared addr haddr)]

theorem op_eq {ins : Ins} {op : Op} (hins : cpu.ins = some ins)
    (hop : Op.ofName ins.name = some op) : cpu.op = some op := by
  unfold CPU.op
  rw [hins]
  exact hop

/-- A call leaves the address of the next instruction on the stack. -/
theorem step_call (h : step.on cpu = (.ok b, cpu')) (hok : cpu'.status = .ok)
    (hcall : cpu.op = some .call) :
    (cpu.sp - 4).toNat + 4 ≤ 1024 ∧ word cpu'.ram (cpu.sp - 4).toNat = cpu.pc + 1 := by
  obtain ⟨-, ins, op, c, hins, hop, hexec, hc, rfl⟩ := step_ok h hok
  obtain rfl := Option.some.inj ((op_eq hins hop).symm.trans hcall)
  rcases exec_call hexec with ⟨-, hsegv, -⟩ | ⟨addr, -, hlt, rfl⟩
  · rw [hsegv] at hc
    cases hc
  · exact ⟨hlt, word_setWord hlt _⟩

/-- A return goes to the address that is on the stack. -/
theorem step_ret (h : step.on cpu = (.ok b, cpu')) (hok : cpu'.status = .ok)
    (hret : cpu.op = some .ret) : cpu'.pc = word cpu.ram cpu.sp.toNat := by
  obtain ⟨-, ins, op, c, hins, hop, hexec, hc, rfl⟩ := step_ok h hok
  obtain rfl := Option.some.inj ((op_eq hins hop).symm.trans hret)
  rcases exec_ret hexec with hsegv | ⟨-, rfl⟩
  · rw [hsegv] at hc
    cases hc
  · rfl

end Mvm0

end Odb
