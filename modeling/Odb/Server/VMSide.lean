import Odb.Mess.DBClientImpl
import Odb.Mess.Serial
import Odb.Server.Debugger

/-!
# `DBClientImplVMSide` (`server/db-client-impl-vmside.cc`)

The client implementation in the process of the debugger: it calls the debugger directly.
-/

namespace Odb

namespace VMSide

variable {V : Type} (api : VMApi V)

/-- `is_running(db)`. -/
def isRunning : DbState → Bool
  | .runningToFinish | .runningBkp | .runningStep | .runningStepOver | .runningStepOut => true
  | _ => false

def checkStopped (udp : DBClientUpdate) : DbM V DBClientUpdate := do
  let db ← get
  if isRunning db.state then return { udp with stopped := false }
  let vmState ← match db.state with
    | .notStarted | .stopped => pure StoppedState.ready
    | .error => pure StoppedState.error
    | .exit => pure StoppedState.exit
    | _ => throw .assertFail
  return ⟨vmState, true, db.insAddr, db.callStack⟩

/-- An update that says that the program stopped says where. -/
theorem checkStopped_ok {udp udp' : DBClientUpdate} {db db' : Debugger V}
    (h : (checkStopped udp).on db = (.ok udp', db')) :
    db' = db ∧ udp'.stopped = !isRunning db.state ∧
      (udp'.stopped = true → udp'.addr = db.insAddr ∧ udp'.stack = db.callStack) := by
  unfold checkStopped at h
  rw [Prog.on_bind_ok (Prog.on_get db)] at h
  cases hs : db.state <;> rw [hs] at h <;> cases h <;> simp [isRunning]

def connect (udp : DBClientUpdate) : DbM V (VMInfos × DBClientUpdate) := do
  let infos := (← get).infos
  return (infos, ← checkStopped udp)

/-- So does the one that comes with a connection. -/
theorem connect_ok {udp : DBClientUpdate} {r : VMInfos × DBClientUpdate} {db db' : Debugger V}
    (h : (connect udp).on db = (.ok r, db')) :
    db' = db ∧ r.2.stopped = !isRunning db.state ∧
      (r.2.stopped = true → r.2.addr = db.insAddr ∧ r.2.stack = db.callStack) := by
  unfold connect at h
  rw [Prog.on_bind_ok (Prog.on_get db)] at h
  obtain ⟨udp', db₁, hcheck, h⟩ := Prog.bind_eq_ok.mp h
  cases h
  exact checkStopped_ok hcheck

def stop : DbM V Unit := Debugger.stop

/-- Writes `bytes` at `buf`. -/
def overwrite (buf bytes : Bytes) : Except Fault Bytes :=
  if bytes.length ≤ buf.length then .ok (bytes ++ buf.drop bytes.length) else .error .undefined

/-- `out[i] = f(xs[i])` for every `i`. -/
def fill {α β : Type} (xs : List α) (out : List β) (f : α → DbM V β) : DbM V (List β) := do
  let _ ← Prog.lift (itemsAt out xs.length)
  let items ← xs.mapM f
  return items ++ out.drop xs.length

def getRegs (ids : List VmReg) (outBufs : List Bytes) : DbM V (List Bytes) := do
  let bufs ← Prog.lift (itemsAt outBufs ids.length)
  fill (ids.zip bufs) outBufs fun (id, buf) => do
    let val ← Debugger.getReg api id
    Prog.lift (overwrite buf val)

def setRegs (ids : List VmReg) (inBufs : List Bytes) : DbM V Unit := do
  let bufs ← Prog.lift (itemsAt inBufs ids.length)
  (ids.zip bufs).forM fun (id, buf) => Debugger.setReg api id buf

def getRegsInfos (ids : List VmReg) (outInfos : List RegInfos) : DbM V (List RegInfos) :=
  fill ids outInfos (Debugger.getRegInfos api)

def findRegsIds (regNames : List CStr) (outIds : List VmReg) : DbM V (List VmReg) :=
  fill regNames outIds fun name => Debugger.findRegId api name.1

/-- `xs[i]`. -/
def itemAt {α : Type} (xs : List α) (i : Nat) : Except Fault α :=
  match xs[i]? with
  | some x => .ok x
  | none => .error .undefined

/-- A round of the loop of `read_mem`, which looks up the size of its block only now. -/
def readRow (bufsSizes : List VmSize) (i : Nat) (addr : VmPtr) (buf : Bytes) : DbM V Bytes := do
  let len ← Prog.lift (itemAt bufsSizes i)
  let block ← Debugger.readMem api addr len
  Prog.lift (overwrite buf block.1)

def readMem (srcAddrs : List VmPtr) (bufsSizes : List VmSize) (outBufs : List Bytes) :
    DbM V (List Bytes) := do
  let bufs ← Prog.lift (itemsAt outBufs srcAddrs.length)
  fill (srcAddrs.zip bufs).zipIdx outBufs fun ((addr, buf), i) => readRow api bufsSizes i addr buf

/-- A round of the loop of `write_mem`. -/
def writeRow (bufsSizes : List VmSize) (i : Nat) (addr : VmPtr) (buf : Bytes) : DbM V Unit := do
  let len ← Prog.lift (itemAt bufsSizes i)
  Debugger.writeMem api addr len buf

def writeMem (dstAddrs : List VmPtr) (bufsSizes : List VmSize) (inBufs : List Bytes) :
    DbM V Unit := do
  let bufs ← Prog.lift (itemsAt inBufs dstAddrs.length)
  (dstAddrs.zip bufs).zipIdx.forM fun ((addr, buf), i) => writeRow api bufsSizes i addr buf

def getSymbolsByIds (ids : List VmSym) (outInfos : List SymbolInfos) : DbM V (List SymbolInfos) :=
  fill ids outInfos (Debugger.getSymbolInfos api)

def getSymbolsByAddr (addr : VmPtr) (size : VmSize) : DbM V (List SymbolInfos) := do
  let ids ← Debugger.getSymbols api addr size
  let outInfos ← Prog.lift (resize (maxBytes / Serial.sizeof SymbolInfos) [] ids.length Serial.blank)
  getSymbolsByIds api ids outInfos

def getSymbolsByNames (names : List CStr) (outInfos : List SymbolInfos) :
    DbM V (List SymbolInfos) :=
  fill names outInfos fun name => do
    let id ← Debugger.findSymId api name.1
    Debugger.getSymbolInfos api id

/-- The loop of `get_code_text`: the texts and sizes of `n` instructions from `addr` on. -/
def codeTexts : Nat → VmPtr → DbM V (List (Bytes × VmSize))
  | 0, _ => return []
  | n + 1, addr => do
    let (text, dist) ← Debugger.getCodeText api addr
    return (text, dist) :: (← codeTexts n (addr + dist))

def getCodeText (addr : VmPtr) (nins : VmSize) : DbM V (List Bytes × List VmSize) := do
  let _ ← Prog.lift (resize (maxBytes / Serial.sizeof Bytes) [] nins.toNat ([] : Bytes))
  let _ ← Prog.lift (resize (maxBytes / Serial.sizeof VmSize) [] nins.toNat (0 : VmSize))
  let texts ← codeTexts api nins.toNat addr
  return texts.unzip

def addBreakpoints (addrs : List VmPtr) : DbM V Unit := addrs.forM Debugger.addBreakpoint

def delBreakpoints (addrs : List VmPtr) : DbM V Unit := addrs.forM Debugger.delBreakpoint

def resume (type : ResumeType) : DbM V Unit := Debugger.resume type

/-- The class `DBClientImplVMSide`. -/
def impl : DBClientImpl (Debugger V)
  | _, .connect udp => connect udp
  | _, .stop => stop
  | _, .checkStopped udp => checkStopped udp
  | _, .getRegs ids outBufs _ => getRegs api ids outBufs
  | _, .setRegs ids inBufs _ => setRegs api ids inBufs
  | _, .getRegsInfos ids outInfos => getRegsInfos api ids outInfos
  | _, .findRegsIds regNames outIds => findRegsIds api regNames outIds
  | _, .readMem srcAddrs bufsSizes outBufs => readMem api srcAddrs bufsSizes outBufs
  | _, .writeMem dstAddrs bufsSizes inBufs => writeMem api dstAddrs bufsSizes inBufs
  | _, .getSymbolsByIds ids outInfos => getSymbolsByIds api ids outInfos
  | _, .getSymbolsByAddr addr size => getSymbolsByAddr api addr size
  | _, .getSymbolsByNames names outInfos => getSymbolsByNames api names outInfos
  | _, .getCodeText addr nins => getCodeText api addr nins
  | _, .addBreakpoints addrs => addBreakpoints addrs
  | _, .delBreakpoints addrs => delBreakpoints addrs
  | _, .resume type => resume type

end VMSide

end Odb
