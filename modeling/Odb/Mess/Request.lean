import Odb.Mess.RequestHandler

/-!
# The requests (`mess/request.hh`, `mess/request.cc`)

`Req ty` is the structure of the requests of type `ty`, `prepareRequest` its description. Requests
with the same fields share a structure; each keeps its own description.
-/

namespace Odb

open Serial

inductive ReqType where
  | connect
  | stop
  | checkStopped
  | getRegs
  | getRegsVar
  | setRegs
  | setRegsVar
  | getRegsInfos
  | findRegsIds
  | readMem
  | readMemVar
  | writeMem
  | writeMemVar
  | getSymsByIds
  | getSymsByAddr
  | getSymsByNames
  | getCodeText
  | addBkps
  | delBkps
  | resume
  | err
  | other (code : {c : UInt8 // 20 ≤ c ∧ c ≠ 100})
deriving DecidableEq, Repr

namespace ReqType

/-- `static_cast<std::int8_t>(ty)`, as a byte. -/
def toByte : ReqType → UInt8
  | connect => 0
  | stop => 1
  | checkStopped => 2
  | getRegs => 3
  | getRegsVar => 4
  | setRegs => 5
  | setRegsVar => 6
  | getRegsInfos => 7
  | findRegsIds => 8
  | readMem => 9
  | readMemVar => 10
  | writeMem => 11
  | writeMemVar => 12
  | getSymsByIds => 13
  | getSymsByAddr => 14
  | getSymsByNames => 15
  | getCodeText => 16
  | addBkps => 17
  | delBkps => 18
  | resume => 19
  | err => 100
  | other c => c.1

/-- The enumerators below `ERR`, by their value. -/
def enumerators : List ReqType :=
  [connect, stop, checkStopped, getRegs, getRegsVar, setRegs, setRegsVar, getRegsInfos, findRegsIds,
    readMem, readMemVar, writeMem, writeMemVar, getSymsByIds, getSymsByAddr, getSymsByNames,
    getCodeText, addBkps, delBkps, resume]

/-- `static_cast<ReqType>`. -/
def ofByte (c : UInt8) : ReqType :=
  if h : 20 ≤ c ∧ c ≠ 100 then .other ⟨c, h⟩ else enumerators.getD c.toNat .err

theorem ofByte_toByte (ty : ReqType) : ofByte ty.toByte = ty := by
  cases ty with
  | other c => exact dif_pos c.2
  | _ => decide

end ReqType

instance : Serial ReqType := enumSerial ReqType.toByte ReqType.ofByte
instance : LawfulSerial ReqType := enumLawful ReqType.ofByte_toByte

/-! ## The structures -/

structure ReqConnect where
  outInfos : VMInfos
  outUdp : DBClientUpdate

/-- Its field `tag` is never read. -/
structure ReqStop where

structure ReqCheckStopped where
  outUdp : DBClientUpdate

/-- `ReqGetRegs`, `ReqSetRegs`, `ReqReadMem`, `ReqWriteMem`: `n` buffers of one size. -/
structure ReqFixed (K : Type) where
  n : UInt16
  size : VmSize
  ids : List K
  bufs : List Bytes

/-- `ReqGetRegsVar`, `ReqSetRegsVar`, `ReqReadMemVar`, `ReqWriteMemVar`: `n` buffers, each of its
own size. -/
structure ReqVar (K : Type) where
  n : UInt16
  ids : List K
  sizes : List VmSize
  bufs : List Bytes

/-- `ReqGetRegsInfos`, `ReqGetSymsByIds`. -/
structure ReqByIds (K I : Type) where
  n : UInt16
  ids : List K
  outs : List I

/-- `ReqFindRegsIds`, `ReqGetSymsByNames`. -/
structure ReqByNames (I : Type) where
  n : UInt16
  names : List CStr
  outs : List I

structure ReqGetSymsByAddr where
  addr : VmPtr
  size : VmSize
  outInfos : List SymbolInfos

structure ReqGetCodeText where
  addr : VmPtr
  nins : VmSize
  outText : List Bytes
  outSizes : List VmSize

/-- `ReqAddBkps`, `ReqDelBkps`. -/
structure ReqBkps where
  size : UInt16
  inAddrs : List VmPtr

structure ReqResume where
  type : ResumeType

structure ReqErr where
  msg : Bytes

/-- The requests of a type. -/
@[reducible]
def Req : ReqType → Type
  | .connect => ReqConnect
  | .stop => ReqStop
  | .checkStopped => ReqCheckStopped
  | .getRegs | .setRegs => ReqFixed VmReg
  | .getRegsVar | .setRegsVar => ReqVar VmReg
  | .getRegsInfos => ReqByIds VmReg RegInfos
  | .findRegsIds => ReqByNames VmReg
  | .readMem | .writeMem => ReqFixed VmPtr
  | .readMemVar | .writeMemVar => ReqVar VmPtr
  | .getSymsByIds => ReqByIds VmSym SymbolInfos
  | .getSymsByAddr => ReqGetSymsByAddr
  | .getSymsByNames => ReqByNames SymbolInfos
  | .getCodeText => ReqGetCodeText
  | .addBkps | .delBkps => ReqBkps
  | .resume => ReqResume
  | .err => ReqErr
  | .other _ => Empty

/-! ## `prepare_request` -/

section Prepare

variable (m : Mode)

def ReqConnect.prepare (r : ReqConnect) : BuffM ReqConnect := do
  let outInfos ← objectOut m r.outInfos
  let outUdp ← objectOut m r.outUdp
  return ⟨outInfos, outUdp⟩

def ReqCheckStopped.prepare (r : ReqCheckStopped) : BuffM ReqCheckStopped := do
  let outUdp ← objectOut m r.outUdp
  return ⟨outUdp⟩

variable {K I : Type} [Serial K] [Serial I]

/-- `bufs` is `buffer_2d_in` or `buffer_2d_out`. -/
def ReqFixed.prepare
    (bufs : Mode → List Bytes → VmSize → VmSize → BuffM (List Bytes)) (r : ReqFixed K) :
    BuffM (ReqFixed K) := do
  let n ← objectIn m r.n
  let size ← objectIn m r.size
  let ids ← bufferIn m r.ids n.toUInt64
  let bufs ← bufs m r.bufs n.toUInt64 size
  return ⟨n, size, ids, bufs⟩

/-- `bufs` is `buffer_2dvar_in` or `buffer_2dvar_out`. -/
def ReqVar.prepare
    (bufs : Mode → List Bytes → VmSize → List VmSize → BuffM (List Bytes)) (r : ReqVar K) :
    BuffM (ReqVar K) := do
  let n ← objectIn m r.n
  let ids ← bufferIn m r.ids n.toUInt64
  let sizes ← bufferIn m r.sizes n.toUInt64
  let bufs ← bufs m r.bufs n.toUInt64 sizes
  return ⟨n, ids, sizes, bufs⟩

def ReqByIds.prepare (r : ReqByIds K I) : BuffM (ReqByIds K I) := do
  let n ← objectIn m r.n
  let ids ← bufferIn m r.ids n.toUInt64
  let outs ← bufferOut m r.outs n.toUInt64
  return ⟨n, ids, outs⟩

def ReqByNames.prepare (r : ReqByNames I) : BuffM (ReqByNames I) := do
  let n ← objectIn m r.n
  let names ← buffer2dInCstr m r.names n.toUInt64
  let outs ← bufferOut m r.outs n.toUInt64
  return ⟨n, names, outs⟩

def ReqGetSymsByAddr.prepare (r : ReqGetSymsByAddr) : BuffM ReqGetSymsByAddr := do
  let addr ← objectIn m r.addr
  let size ← objectIn m r.size
  let outInfos ← objectOut m r.outInfos
  return ⟨addr, size, outInfos⟩

def ReqGetCodeText.prepare (r : ReqGetCodeText) : BuffM ReqGetCodeText := do
  let addr ← objectIn m r.addr
  let nins ← objectIn m r.nins
  let outText ← objectOut m r.outText
  let outSizes ← objectOut m r.outSizes
  return ⟨addr, nins, outText, outSizes⟩

def ReqBkps.prepare (r : ReqBkps) : BuffM ReqBkps := do
  let size ← objectIn m r.size
  let inAddrs ← bufferIn m r.inAddrs size.toUInt64
  return ⟨size, inAddrs⟩

def ReqResume.prepare (r : ReqResume) : BuffM ReqResume := do
  let type ← objectIn m r.type
  return ⟨type⟩

def ReqErr.prepare (r : ReqErr) : BuffM ReqErr := do
  let msg ← objectOut m r.msg
  return ⟨msg⟩

def prepareRequest : {ty : ReqType} → Req ty → BuffM (Req ty)
  | .connect, r => r.prepare m
  | .stop, r => return r
  | .checkStopped, r => r.prepare m
  | .getRegs, r => r.prepare m buffer2dOut
  | .getRegsVar, r => r.prepare m buffer2dvarOut
  | .setRegs, r => r.prepare m buffer2dIn
  | .setRegsVar, r => r.prepare m buffer2dvarIn
  | .getRegsInfos, r => r.prepare m
  | .findRegsIds, r => r.prepare m
  | .readMem, r => r.prepare m buffer2dOut
  | .readMemVar, r => r.prepare m buffer2dvarOut
  | .writeMem, r => r.prepare m buffer2dIn
  | .writeMemVar, r => r.prepare m buffer2dvarIn
  | .getSymsByIds, r => r.prepare m
  | .getSymsByAddr, r => r.prepare m
  | .getSymsByNames, r => r.prepare m
  | .getCodeText, r => r.prepare m
  | .addBkps, r => r.prepare m
  | .delBkps, r => r.prepare m
  | .resume, r => r.prepare m
  | .err, r => r.prepare m

end Prepare

/-! ## `RequestHandler` -/

/-- `RequestHandler`: its member `_server`. -/
structure RequestHandler where
  server : Bool

namespace RequestHandler

variable (rh : RequestHandler) {ty : ReqType}

/-- `client_write_request`. -/
def clientWriteRequest (r : Req ty) : BuffM (Req ty) := do
  Prog.lift (assertThat ¬rh.server)
  prepareRequest .cliSend r

/-- `client_read_response`. -/
def clientReadResponse (r : Req ty) : BuffM (Req ty) := do
  Prog.lift (assertThat ¬rh.server)
  prepareRequest .cliRecv r

/-- `server_read_request`. -/
def serverReadRequest (r : Req ty) : BuffM (Req ty) := do
  Prog.lift (assertThat rh.server)
  prepareRequest .servRecv r

/-- `server_write_response`. -/
def serverWriteResponse (r : Req ty) : BuffM (Req ty) := do
  Prog.lift (assertThat rh.server)
  prepareRequest .servSend r

end RequestHandler

end Odb
