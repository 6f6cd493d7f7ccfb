import Odb.Lib.Prog
import Odb.Server.Control
import Odb.Utils.RangeMap

/-!
# `Debugger` (`server/debugger.cc`)

The debugging logic: it follows the program by the update after every instruction (`DbControl`), and
caches what it asks the VM about registers and symbols. A member function is a program on the
debugger, whose member `_vm` is the state of the VM. A `std::map::emplace` is `insertIfNew`.
-/

namespace Odb

/-- The members of `Debugger` that hold the symbols loaded so far. -/
structure SymCache where
  mapSyms : Std.TreeMap VmSym SymbolInfos
  smapSyms : Std.TreeMap Bytes VmSym
  symsRanges : Option (RangeMap Int)
  symsPos : Std.TreeMap VmPtr VmSym

structure Debugger (V : Type) extends DbControl, SymCache where
  vm : V
  mapRegs : Std.TreeMap VmReg RegInfos
  smapRegs : Std.TreeMap Bytes VmReg

/-- A program on the debugger. -/
abbrev DbM (V : Type) := Prog Fault (Debugger V)

namespace Debugger

/-- `VMInfos _infos;` before `on_init`. -/
def noInfos : VMInfos := ⟨[], 0, [], [], [], [], [], 0, 0, 0, 0, false⟩

/-- `SYM_LOAD_SIZE`. -/
def symLoadSize : VmPtr := 256

/-- The constructor `Debugger(vm)`. -/
def new {V : Type} (vm : V) (uninit : VmPtr) : Debugger V where
  vm := vm
  infos := noInfos
  state := .notStarted
  callStack := []
  insAddr := uninit
  mapRegs := ∅
  smapRegs := ∅
  mapSyms := ∅
  smapSyms := ∅
  symsRanges := none
  symsPos := ∅
  breakpts := ∅
  stepOverDepth := uninit.toNat
  uninit := uninit

variable {V : Type} (api : VMApi V)

/-- A call of a VM callback: a `VMApi::Error` passes through. -/
def callVM {α : Type} (f : V → Except Bytes α × V) : DbM V α := Prog.of fun db =>
  ((f db.vm).1.mapError .vmError, { db with vm := (f db.vm).2 })

/-- `on_init()`. -/
def onInit : DbM V Unit := do
  Prog.lift (assertThat ((← get).state = .notStarted))
  -- 1) get general VM infos
  modify fun db => { db with state := .runningToFinish }
  let infos ← callVM api.getVmInfos
  modify fun db =>
    { db with infos := infos, symsRanges := some (RangeMap.new 0 (infos.memorySize - 1) 0) }
  -- 3) Get entry point and init stack frame
  let upd ← callVM api.getUpdateInfos
  Prog.lift (assertThat (upd.state = .ok))
  modify fun db =>
    { db with insAddr := upd.actAddr, callStack := db.callStack ++ [⟨upd.actAddr, db.uninit⟩] }

/-- A member function that only touches `DbControl`. -/
def onControl (f : DbControl → Except Fault DbControl) : DbM V Unit := do
  let c ← Prog.lift (f (← get).toDbControl)
  modify fun db => { db with toDbControl := c }

/-- `on_update()`. -/
def onUpdate : DbM V Unit := do
  Prog.lift (assertThat (DbControl.isRunning (← get).state))
  let udp ← callVM api.getUpdateInfos
  onControl (·.applyUpdate udp)

/-! ## Registers -/

/-- `_load_reg(id)`. -/
def loadReg (id : VmReg) : DbM V Unit := do
  if id ∈ (← get).mapRegs then return
  let infos ← callVM (api.getReg id ⟨0, [], 0, .general, []⟩ false)
  let val ← Prog.lift (resize maxBytes infos.val infos.size.toNat 0)
  let infos := { infos with val := val }
  modify fun db =>
    { db with mapRegs := db.mapRegs.insertIfNew id infos
              smapRegs := db.smapRegs.insertIfNew infos.name id }

/-- `_map_regs.find(idx)->second`. -/
def findReg (idx : VmReg) : DbM V RegInfos := do
  match (← get).mapRegs[idx]? with
  | some infos => return infos
  | none => throw .undefined

/-- `get_reg(idx, val)`: the bytes it writes at `val`. -/
def getReg (idx : VmReg) : DbM V Bytes := do
  loadReg api idx
  let infos ← findReg idx
  let infos ← callVM (api.getReg idx infos true)
  modify fun db => { db with mapRegs := db.mapRegs.insert idx infos }
  if infos.size.toNat ≤ infos.val.length then return infos.val.take infos.size.toNat
  throw .undefined

/-- `set_reg(idx, new_val)`. -/
def setReg (idx : VmReg) (newVal : Bytes) : DbM V Unit := callVM (api.setReg idx newVal)

/-- `get_reg_infos(idx)`. -/
def getRegInfos (idx : VmReg) : DbM V RegInfos := do
  loadReg api idx
  findReg idx

/-- `find_reg_id(name)`. -/
def findRegId (name : Bytes) : DbM V VmReg := do
  if let some id := (← get).smapRegs[name]? then return id
  let id ← callVM (api.findRegId name)
  loadReg api id
  return id

/-! ## Memory -/

/-- `read_mem(addr, size, out_buf)`: the bytes it writes at `out_buf`. -/
def readMem (addr : VmPtr) (size : VmSize) : DbM V (Block size.toNat) :=
  callVM (api.readMem addr size)

/-- `write_mem(addr, size, buf)`: the VM reads `size` bytes at `buf`. -/
def writeMem (addr : VmPtr) (size : VmSize) (buf : Bytes) : DbM V Unit :=
  if h : size.toNat ≤ buf.length then
    callVM (api.writeMem addr size ⟨buf.take size.toNat, by simp [h]⟩)
  else throw .undefined

/-! ## Symbols -/

/-- `_load_symbol(id)`. -/
def loadSymbol (id : VmSym) : DbM V Unit := do
  if id ∈ (← get).mapSyms then return
  let infos ← callVM (api.getSymbInfos id)
  modify fun db =>
    { db with mapSyms := db.mapSyms.insertIfNew id infos
              smapSyms := db.smapSyms.insertIfNew infos.name id
              symsPos := db.symsPos.insertIfNew infos.addr id }

/-- `*_syms_ranges`. -/
def symsRangesRef : DbM V (RangeMap Int) := do
  match (← get).symsRanges with
  | some m => return m
  | none => throw .undefined

/-- The part of `[addr, end]` that `_preload_symbols` still has to load: `none` where it returns
without a call. -/
def trimLoaded (ranges : RangeMap Int) (addr last : VmPtr) :
    Except Fault (Option (VmPtr × VmPtr)) := do
  let lowRange ← ranges.rangeOf addr
  let addr := if lowRange.val = 1 then lowRange.high + 1 else addr
  if lowRange.val = 1 ∧ (addr = 0 ∨ last < addr) then return none -- everything already loaded
  let highRange ← ranges.rangeOf last
  let last := if highRange.val = 1 then highRange.low - 1 else last
  if highRange.val = 1 ∧ (highRange.low = 0 ∨ last < addr) then return none
  return some (addr, last)

/-- The end of `_preload_symbols`: asks the VM for the symbols in `[addr, last]`. -/
def loadWindow (ranges : RangeMap Int) (addr last : VmPtr) : DbM V Unit := do
  let syms ← callVM (api.getSymbols addr (last - addr + 1))
  let ranges ← Prog.lift (ranges.set addr last 1)
  modify fun db => { db with symsRanges := some ranges }
  syms.forM (loadSymbol api)

/-- `_preload_symbols(addr, size)`. -/
def preloadSymbols (addr : VmPtr) (size : VmSize) : DbM V Unit := do
  let size := max size symLoadSize
  let last := min (addr + size - 1) ((← get).infos.memorySize - 1)
  let ranges ← symsRangesRef
  match ← Prog.lift (trimLoaded ranges addr last) with
  | none => return
  | some (addr, last) => loadWindow api ranges addr last

/-- `_preload_symbols(addr)`. -/
def preloadSymbolsAround (addr : VmPtr) : DbM V Unit :=
  preloadSymbols api (if addr < symLoadSize / 2 then 0 else addr - symLoadSize / 2) symLoadSize

/-- `get_symbol_at(addr)`. -/
def getSymbolAt (addr : VmPtr) : DbM V VmSym := do
  preloadSymbolsAround api addr
  return (← get).symsPos[addr]?.getD vmSymNull

/-- The loop of `get_symbols`, from `_syms_pos.lower_bound(addr)` while the key is below `end`. -/
def symsIn (pos : Std.TreeMap VmPtr VmSym) (addr last : VmPtr) : List VmSym :=
  ((pos.toList.dropWhile fun p => p.1 < addr).takeWhile fun p => p.1 < last).map Prod.snd

/-- `get_symbols(addr, size)`. -/
def getSymbols (addr : VmPtr) (size : VmSize) : DbM V (List VmSym) := do
  preloadSymbols api addr size
  return symsIn (← get).symsPos addr (addr + size)

/-- `get_symbol_infos(idx)`. -/
def getSymbolInfos (idx : VmSym) : DbM V SymbolInfos := do
  loadSymbol api idx
  match (← get).mapSyms[idx]? with
  | some infos => return infos
  | none => throw .assertFail

/-- `find_sym_id(name)`. -/
def findSymId (name : Bytes) : DbM V VmSym := do
  let id ← callVM (api.findSymId name)
  loadSymbol api id
  return id

/-- `get_code_text(addr, addr_dist)`: the text and `addr_dist`. -/
def getCodeText (addr : VmPtr) : DbM V (Bytes × VmSize) := callVM (api.getCodeText addr)

/-! ## Breakpoints and execution -/

def addBreakpoint (addr : VmPtr) : DbM V Unit := onControl (·.addBreakpoint addr)

def hasBreakpoint (addr : VmPtr) : DbM V Bool := do
  Prog.lift ((← get).toDbControl.hasBreakpoint addr)

def delBreakpoint (addr : VmPtr) : DbM V Unit := onControl (·.delBreakpoint addr)

def resume (type : ResumeType) : DbM V Unit := onControl (·.resume type)

def stop : DbM V Unit := onControl DbControl.stop

end Debugger

end Odb
