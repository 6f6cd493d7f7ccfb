import Odb.Lib.Memory
import Odb.Lib.Prog
import Odb.Lib.Wire
import Odb.Mvm0.Rom

/-!
# The processor of the VM `mvm0` (`mvm0/cpu.cc`)

Sixteen registers, the last of which is the stack pointer, 1024 bytes of RAM from address 0 on and
the instructions from address 1024 on, each at one address. A member function is a program on the
processor. `_mem(addr)` returns a reference, which is `none` for `_guard`; its four bytes are read and
written in the order of the machine, the lowest first, also where the address is odd.
-/

namespace Odb

namespace Mvm0

inductive Status where
  | ok
  | normalExit
  | badIns
  | segv
deriving DecidableEq, Repr

structure CPU where
  regs : Vector UInt32 16
  pc : UInt32
  prevPc : UInt32
  zf : UInt32
  ram : Vector UInt8 1024
  /-- Returned memory access when `SEGV`. -/
  guard : UInt32
  rom : ROM
  status : Status

/-- A program on the processor. -/
abbrev CpuM := Prog Fault CPU

/-! ## Instructions -/

/-- The instructions on data. -/
inductive DataOp where
  | add | sub | mul | div | mod | and | or | xor | shl | shr
deriving DecidableEq, Repr

inductive Op where
  | mov | movi | ldr | str | b | bz | bn | call | ret | sys
  | data (op : DataOp)
deriving DecidableEq, Repr

/-- The names that `step()` compares with. -/
def names : List (Bytes × Op) :=
  [(lit "mov", .mov), (lit "movi", .movi), (lit "ldr", .ldr), (lit "str", .str), (lit "b", .b),
    (lit "bz", .bz), (lit "bn", .bn), (lit "call", .call), (lit "ret", .ret), (lit "sys", .sys),
    (lit "add", .data .add), (lit "sub", .data .sub), (lit "mul", .data .mul),
    (lit "div", .data .div), (lit "mod", .data .mod), (lit "and", .data .and),
    (lit "or", .data .or), (lit "xor", .data .xor), (lit "shl", .data .shl),
    (lit "shr", .data .shr)]

def Op.ofName (name : Bytes) : Option Op := (names.find? (·.1 = name)).map Prod.snd

/-- The result of an instruction on data: `shl` shifts to the right, and `shr` to the left. Dividing
by 0 is undefined, and so is shifting by 32 or more. -/
def DataOp.eval (x y : UInt32) : DataOp → Except Fault UInt32
  | add => .ok (x + y)
  | sub => .ok (x - y)
  | mul => .ok (x * y)
  | div => if y = 0 then .error .undefined else .ok (x / y)
  | mod => if y = 0 then .error .undefined else .ok (x % y)
  | and => .ok (x &&& y)
  | or => .ok (x ||| y)
  | xor => .ok (x ^^^ y)
  | shl => if y < 32 then .ok (x >>> y) else .error .undefined
  | shr => if y < 32 then .ok (x <<< y) else .error .undefined

/-- `imm(x)`. -/
def imm (x : Int) : Except Fault UInt32 := do
  assertThat (0 ≤ x)
  return UInt32.ofInt x

/-! ## Registers and memory -/

/-- `REG_SP`. -/
def regSp : Fin 16 := 15

def CPU.sp (cpu : CPU) : UInt32 := cpu.regs[regSp]

/-- `_reg(idx)`: which register it is. -/
def reg (idx : Int) : Except Fault (Fin 16) :=
  if h : 0 ≤ idx ∧ idx < 16 then .ok ⟨idx.toNat, by omega⟩ else .error .assertFail

def getReg (idx : Int) : CpuM UInt32 := do
  let r ← Prog.lift (reg idx)
  return (← get).regs[r]

def setReg (idx : Int) (v : UInt32) : CpuM Unit := do
  let r ← Prog.lift (reg idx)
  modify fun cpu => { cpu with regs := cpu.regs.set r v }

/-- The four bytes from the address on, as a number. -/
def word (ram : Vector UInt8 1024) (addr : Nat) : UInt32 :=
  UInt32.ofNat (Wire.leNat (Memory.peek 0 ram addr 4))

/-- The RAM with a number in the four bytes from the address on. -/
def setWord (ram : Vector UInt8 1024) (addr : Nat) (v : UInt32) : Vector UInt8 1024 :=
  Memory.poke ram addr (Wire.leBytes 4 v.toNat)

/-- `_mem(addr)`: an address from 2^31 on is a negative number there, and no address of the RAM. At the
last three addresses the access leaves the RAM. -/
def mem (addr : UInt32) : CpuM (Option Nat) := do
  if 1024 ≤ addr then
    modify fun cpu => { cpu with status := .segv }
    return none
  if 1024 < addr.toNat + 4 then throw .undefined
  return some addr.toNat

def load (ref : Option Nat) : CpuM UInt32 := do
  let cpu ← get
  return ref.elim cpu.guard (word cpu.ram)

def store (ref : Option Nat) (v : UInt32) : CpuM Unit :=
  modify fun cpu => match ref with
    | none => { cpu with guard := v }
    | some addr => { cpu with ram := setWord cpu.ram addr v }

/-! ## Execution -/

/-- `++_pc`. -/
def next : CpuM Unit := modify fun cpu => { cpu with pc := cpu.pc + 1 }

def jump (x : Int) : CpuM Unit := do
  let addr ← Prog.lift (imm x)
  modify fun cpu => { cpu with pc := addr }

def setSp (f : UInt32 → UInt32) : CpuM Unit :=
  modify fun cpu => { cpu with regs := cpu.regs.set regSp (f cpu.sp) }

/-- The branch of `step()` for an instruction. -/
def Op.exec (a0 a1 a2 : Int) : Op → CpuM Unit
  | mov => do
    let v ← getReg a0
    setReg a1 v
    next
  | movi => do
    let v ← Prog.lift (imm a0)
    setReg a1 v
    next
  | ldr => do
    let ref ← mem (← getReg a0)
    let v ← load ref
    setReg a1 v
    next
  | str => do
    let v ← getReg a0
    let ref ← mem (← getReg a1)
    store ref v
    next
  | b => jump a0
  | bz => do
    if (← get).zf ≠ 0 then jump a0 else next
  | bn => do
    if (← get).zf = 0 then jump a0 else next
  | call => do
    setSp (· - 4)
    let ref ← mem (← get).sp
    store ref ((← get).pc + 1)
    jump a0
  | ret => do
    let ref ← mem (← get).sp
    let v ← load ref
    modify fun cpu => { cpu with pc := v }
    setSp (· + 4)
  | sys => do
    let code ← Prog.lift (imm a0)
    modify fun cpu => { cpu with status := if code = 0 then .normalExit else .badIns }
    next
  | data op => do
    let x ← getReg a0
    let y ← getReg a1
    let v ← Prog.lift (op.eval x y)
    setReg a2 v
    modify fun cpu => { cpu with zf := if v = 0 then 1 else 0 }
    next

/-- An operand, 0 if there is none. -/
def Ins.arg (ins : Ins) (i : Nat) : Int := ins.args.getD i 0

def exec (ins : Ins) : CpuM Unit :=
  match Op.ofName ins.name with
  | some op => op.exec (ins.arg 0) (ins.arg 1) (ins.arg 2)
  | none => modify fun cpu => { cpu with status := .badIns }

/-- `step()`: whether the processor is stopped. -/
def step : CpuM Bool := do
  let cpu ← get
  if cpu.pc < 1024 ∨ 2048 ≤ cpu.pc then
    modify fun cpu => { cpu with status := .segv }
    return true
  match cpu.rom.ins[(cpu.pc - 1024).toNat]? with
  | none => throw .undefined
  | some ins =>
    exec ins
    modify fun cpu' => if cpu'.status = .ok then { cpu' with prevPc := cpu.pc } else cpu'
    return decide ((← get).status ≠ .ok)

/-- What the constructor leaves: the other members have no value. -/
structure Constructed (rom : ROM) (cpu : CPU) : Prop where
  rom : cpu.rom = rom
  ram : cpu.ram = Vector.replicate 1024 0
  status : cpu.status = .ok

/-- `init()`. -/
def CPU.init (cpu : CPU) : CPU :=
  { cpu with regs := (Vector.replicate 16 0).set regSp 1024, pc := 1024, prevPc := 0, zf := 0 }

end Mvm0

end Odb
