import Odb.Mess.Arguments
import Odb.Mvm0.Cpu
import Odb.Server.Frame

/-!
# The callbacks of the VM `mvm0` (`mvm0/vm-api.cc`)

The processor is the state of the VM. A callback that ends the process (an `assert` that does not hold,
an access outside an object) throws an error without a text here: of `get_reg` a buffer that is not as
long as the register, of `set_reg` one that is shorter, of `get_code_text` an operand that is no
register.

* `parseIs_symbInfos`, `parseIs_findSymId`: the symbols of a program that the assembler accepts.
* `passive`: the queries do not change the processor.
-/

namespace Odb

namespace Mvm0

/-! ## Registers -/

def regNames : List Bytes :=
  [lit "r0", lit "r1", lit "r2", lit "r3", lit "r4", lit "r5", lit "r6", lit "r7", lit "r8",
    lit "r9", lit "r10", lit "r11", lit "r12", lit "r13", lit "r14", lit "sp", lit "pc", lit "zf"]

/-- `*_reg_ptr(idx)`. -/
def CPU.regAt (cpu : CPU) (idx : Nat) : UInt32 :=
  if h : idx < 16 then cpu.regs[idx] else if idx = 16 then cpu.pc else cpu.zf

def CPU.setRegAt (cpu : CPU) (idx : Nat) (v : UInt32) : CPU :=
  if h : idx < 16 then { cpu with regs := cpu.regs.set idx v }
  else if idx = 16 then { cpu with pc := v } else { cpu with zf := v }

def regKind (idx : VmReg) : RegKind :=
  if idx < 15 then .general else if idx = 15 then .stackPointer
  else if idx = 16 then .programCounter else .flags

/-- `get_reg(idx, infos, val_only)`: without `val_only` the value is left as it is. -/
def CPU.getReg (idx : VmReg) (infos : RegInfos) (valOnly : Bool) (cpu : CPU) :
    Except Bytes RegInfos × CPU :=
  if 18 ≤ idx then (.error (lit "invalid register index"), cpu)
  else if valOnly then
    if infos.val.length = 4 then
      (.ok { infos with val := Wire.leBytes 4 (cpu.regAt idx.toNat).toNat }, cpu)
    else (.error [], cpu)
  else
    (.ok { infos with
      idx := idx, name := regNames.getD idx.toNat [], kind := regKind idx, size := 4 }, cpu)

def CPU.setReg (idx : VmReg) (newVal : Bytes) (cpu : CPU) : Except Bytes Unit × CPU :=
  if 18 ≤ idx then (.error (lit "invalid register index"), cpu)
  else if 4 ≤ newVal.length then
    (.ok (), cpu.setRegAt idx.toNat (UInt32.ofNat (Wire.leNat (newVal.take 4))))
  else (.error [], cpu)

/-- `find_reg_id(name)`: any character is taken for a digit after `r`. -/
def findRegId (name : Bytes) : Except Bytes VmReg :=
  let tail : Except Bytes VmReg :=
    if name = lit "sp" then .ok 15
    else if name = lit "pc" then .ok 16
    else if name = lit "zf" then .ok 17
    else .error (lit "Invalid register name")
  match name with
  | [r, c1] => if r = 114 then .ok (UInt32.ofInt (c1.toInt8.toInt - 48)) else tail
  | [r, c1, c2] =>
    if r = 114 then
      if c1 < 48 ∨ 57 < c1 ∨ c2 < 48 ∨ 52 < c2 then .error (lit "Invalid register name")
      else .ok ((c1 - 48).toUInt32 * 10 + (c2 - 48).toUInt32)
    else tail
  | _ => tail

/-! ## Memory -/

/-- The message of an address that is not below 2048. -/
def outOfRange : Bytes := lit "Memory address out of range (0-2048)"

/-- `addr >= MEM_SIZE || addr + size > MEM_SIZE`. -/
def Outside (addr : VmPtr) (size : VmSize) : Prop := 2048 ≤ addr ∨ 2048 < addr + size

instance (addr : VmPtr) (size : VmSize) : Decidable (Outside addr size) :=
  inferInstanceAs (Decidable (_ ∨ _))

def CPU.readMem (addr : VmPtr) (size : VmSize) (cpu : CPU) :
    Except Bytes (Block size.toNat) × CPU :=
  if Outside addr size then (.error outOfRange, cpu)
  else (.ok ⟨Memory.peek 0 cpu.ram addr.toNat size.toNat, Memory.length_peek⟩, cpu)

def CPU.writeMem (addr : VmPtr) (size : VmSize) (buf : Block size.toNat) (cpu : CPU) :
    Except Bytes Unit × CPU :=
  if Outside addr size then (.error outOfRange, cpu)
  else (.ok (), { cpu with ram := Memory.poke cpu.ram addr.toNat buf.1 })

/-! ## Symbols -/

/-- `get_symbols(addr, size)`: the symbols of the instructions from `addr` on. -/
def CPU.getSymbols (addr : VmPtr) (size : VmSize) (cpu : CPU) : Except Bytes (List VmSym) × CPU :=
  if Outside addr size then (.error outOfRange, cpu)
  else
    let ins := (cpu.rom.ins.take ((addr + size).toNat - 1024)).drop (addr.toNat - 1024)
    (.ok (ins.filterMap fun ins => ins.defSym.map UInt32.ofNat), cpu)

def ROM.symbInfos (rom : ROM) (idx : VmSym) : Except Bytes SymbolInfos :=
  match rom.syms[idx.toNat]?, rom.symDefs[idx.toNat]? with
  | some name, some insIdx => .ok ⟨idx, name, 1024 + UInt64.ofNat insIdx⟩
  | _, _ => .error (lit "Invalid symbol index")

def ROM.findSymId (rom : ROM) (name : Bytes) : Except Bytes VmSym :=
  match rom.smap[name]? with
  | some idx => .ok (UInt32.ofNat idx)
  | none => .error (lit "Invalid symbol name")

/-- Every symbol of a program that was accepted has its infos, and stands in the ROM or at its end. -/
theorem parseIs_symbInfos {text : Bytes} {rom : ROM} (h : parseIs text = .ok rom) {idx : VmSym}
    (hidx : idx.toNat < rom.syms.length) :
    ∃ name insIdx, rom.symbInfos idx = .ok ⟨idx, name, 1024 + UInt64.ofNat insIdx⟩ ∧
      insIdx ≤ rom.ins.length := by
  have hwf := parseIs_wf h
  have hdef : idx.toNat < rom.symDefs.length := hwf.defs ▸ hidx
  refine ⟨rom.syms[idx.toNat], rom.symDefs[idx.toNat], ?_, hwf.addrs _ (List.getElem_mem hdef)⟩
  rw [ROM.symbInfos, List.getElem?_eq_getElem hidx, List.getElem?_eq_getElem hdef]

/-- A name that is found is the name of the symbol, of fewer than 2^32. -/
theorem parseIs_findSymId {text : Bytes} {rom : ROM} (h : parseIs text = .ok rom)
    (hcount : rom.syms.length < 2 ^ 32) {name : Bytes} {idx : VmSym}
    (hfind : rom.findSymId name = .ok idx) :
    ∃ insIdx, rom.symbInfos idx = .ok ⟨idx, name, 1024 + UInt64.ofNat insIdx⟩ := by
  have hwf := parseIs_wf h
  unfold ROM.findSymId at hfind
  rcases hname : rom.smap[name]? with _ | i <;> rw [hname] at hfind
  · cases hfind
  obtain rfl := Except.ok.inj hfind
  have hsym := hwf.names name i hname
  obtain ⟨hlt, -⟩ := List.getElem?_eq_some_iff.mp hsym
  have hi : (UInt32.ofNat i).toNat = i := UInt32.toNat_ofNat_of_lt (by simp only [UInt32.size]; omega)
  have hdef : i < rom.symDefs.length := hwf.defs ▸ hlt
  refine ⟨rom.symDefs[i], ?_⟩
  rw [ROM.symbInfos, hi, hsym, List.getElem?_eq_getElem hdef]

/-! ## Code -/

/-- `reg_names[arg]`. -/
def regName (arg : Int) : Except Fault Bytes :=
  match arg with
  | .ofNat n =>
    match regNames[n]? with
    | some name => .ok name
    | none => .error .undefined
  | .negSucc _ => .error .undefined

/-- `args[i]`. -/
def argAt (ins : Ins) (i : Nat) : Except Fault Int :=
  match ins.args[i]? with
  | some x => .ok x
  | none => .error .undefined

/-- The operand that may be a symbol. -/
def target (ins : Ins) : Except Fault Bytes :=
  match ins.useSym with
  | some sym => .ok (lit "\x7b" ++ dec sym ++ lit "\x7d")
  | none => decInt <$> argAt ins 0

/-- The text of an instruction. -/
def codeText (ins : Ins) : Except Fault Bytes := do
  if ins.name = lit "movi" then
    return lit "movi " ++ (← target ins) ++ lit " " ++ (← regName (← argAt ins 1))
  else if ins.name = lit "b" then return lit "b " ++ (← target ins)
  else if ins.name = lit "bz" then return lit "bz " ++ (← target ins)
  else if ins.name = lit "bn" then return lit "bn " ++ (← target ins)
  else if ins.name = lit "call" then return lit "call " ++ (← target ins)
  else if ins.name = lit "sys" then return lit "sys " ++ decInt (← argAt ins 0)
  else
    let args ← ins.args.mapM fun arg => do return lit " " ++ (← regName arg)
    return ins.name ++ args.flatten

/-- `get_code_text(addr, addr_dist)`: no text where there is no instruction. -/
def ROM.getCodeText (rom : ROM) (addr : VmPtr) : Except Bytes (Bytes × VmSize) :=
  if 2048 ≤ addr then .error outOfRange
  else if addr < 1024 then .ok ([], 1)
  else match rom.ins[addr.toNat - 1024]? with
    | none => .ok ([], 1)
    | some ins =>
      match codeText ins with
      | .ok text => .ok (text, 1)
      | .error _ => .error []

/-! ## The VM -/

def ROM.vmInfos (rom : ROM) : VMInfos where
  name := lit "mvm0"
  regsCount := 18
  regsGeneral := [0, 1, 2, 3, 4, 5, 6, 7, 8, 9, 10, 11, 12, 13, 14]
  regsProgramCounter := [16]
  regsStackPointer := [15]
  regsBasePointer := []
  regsFlags := [17]
  memorySize := 2048
  symbolsCount := UInt32.ofNat rom.syms.length
  pointerSize := 4
  integerSize := 4
  useOpcode := false

/-- What the last instruction did: nothing special, as long as none was executed to its end. -/
def CPU.updateState (cpu : CPU) : UpdateState :=
  if cpu.prevPc = 0 then .ok
  else if cpu.status = .badIns ∨ cpu.status = .segv then .error
  else if cpu.status = .normalExit then .exit
  else match cpu.rom.ins[(cpu.prevPc - 1024).toNat]? with
    | some ins =>
      if ins.name = lit "call" then .callSub else if ins.name = lit "ret" then .retSub else .ok
    | none => .ok

/-- `VMApi`. -/
def api : VMApi CPU where
  getVmInfos cpu := (.ok cpu.rom.vmInfos, cpu)
  getUpdateInfos cpu := (.ok ⟨cpu.updateState, cpu.pc.toUInt64⟩, cpu)
  getReg := CPU.getReg
  setReg := CPU.setReg
  findRegId name cpu := (findRegId name, cpu)
  readMem := CPU.readMem
  writeMem := CPU.writeMem
  getSymbols := CPU.getSymbols
  getSymbInfos idx cpu := (cpu.rom.symbInfos idx, cpu)
  findSymId name cpu := (cpu.rom.findSymId name, cpu)
  getCodeText addr cpu := (cpu.rom.getCodeText addr, cpu)

/-- The queries do not change the processor. -/
theorem passive : api.Passive where
  getVmInfos _ := rfl
  getUpdateInfos _ := rfl
  getReg idx infos valOnly cpu := by
    show (cpu.getReg idx infos valOnly).2 = cpu
    unfold CPU.getReg
    split
    · rfl
    · split
      · split <;> rfl
      · rfl
  findRegId _ _ := rfl
  readMem addr size cpu := by
    show (cpu.readMem addr size).2 = cpu
    unfold CPU.readMem
    split <;> rfl
  getSymbols addr size cpu := by
    show (cpu.getSymbols addr size).2 = cpu
    unfold CPU.getSymbols
    split <;> rfl
  getSymbInfos _ _ := rfl
  findSymId _ _ := rfl
  getCodeText _ _ := rfl

end Mvm0

end Odb
