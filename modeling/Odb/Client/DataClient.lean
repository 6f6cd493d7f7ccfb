import Odb.Mess.DBClientImpl
import Odb.Mess.Request

/-!
# `DBClientImplData` (`client/db-client-impl-data.cc`)

The client implementation in another process: every call is a request that goes through a data
client, which sends its bytes and receives those of the response. The data client connects and
transmits without failing (`connect`, `send_data` and `recv_data` return true).
-/

namespace Odb

open Serial

/-- The bytes that a program writes to an empty buffer. -/
def written {α : Type} (c : BuffM α) : Except Fault Bytes := (c.on []).1.map fun _ => (c.on []).2

/-- What a program reads from a buffer. -/
def readFrom {α : Type} (bytes : Bytes) (c : BuffM α) : Except Fault α := (c.on bytes).1

namespace DataClient

/-- `RequestHandler _rh(false)`. -/
abbrev rh : RequestHandler := ⟨false⟩

/-- The first half of `send_req`: the bytes of the request. -/
def request {ty : ReqType} (req : Req ty) : Except Fault Bytes := written do
  serialize ty
  rh.clientWriteRequest req

/-- `handle_err()`. -/
def handleErr {α : Type} : BuffM α := do
  let err ← @RequestHandler.clientReadResponse rh .err ⟨[]⟩
  throw (.vmError err.msg)

/-- The second half of `send_req`: what the response gives for the request. -/
def response {ty : ReqType} (req : Req ty) (bytes : Bytes) : Except Fault (Req ty) :=
  readFrom bytes do
    let resTy ← unserialize ReqType.connect
    if resTy = .err then handleErr
    else
      Prog.lift (assertThat (resTy = ty))
      rh.clientReadResponse req

variable {σ : Type} (exchange : Bytes → Prog Fault σ Bytes)

/-- `send_req(req)`, where `exchange` sends the request and receives the response. -/
def sendReq {ty : ReqType} (req : Req ty) : Prog Fault σ (Req ty) := do
  let os ← Prog.lift (request req)
  let is ← exchange os
  Prog.lift (response req is)

/-- `regs_size[i]`. -/
def sizeAt (regsSize : List VmSize) (i : Nat) : Except Fault VmSize :=
  match regsSize[i]? with
  | some size => .ok size
  | none => .error .undefined

/-- Whether `get_regs` and `set_regs` send one size for all registers. -/
def oneSize (regsSize : List VmSize) (nregs : Nat) : Except Fault Bool :=
  if nregs < 2 then .ok true else (sizeAt regsSize 1).map (· = 0)

def connect : Prog Fault σ (VMInfos × DBClientUpdate) := do
  let req ← @sendReq _ exchange .connect ⟨blank, blank⟩
  return (req.outInfos, req.outUdp)

def stop : Prog Fault σ Unit := do
  let _ ← @sendReq _ exchange .stop ⟨⟩

def checkStopped : Prog Fault σ DBClientUpdate := do
  let req ← @sendReq _ exchange .checkStopped ⟨blank⟩
  return req.outUdp

def getRegs (ids : List VmReg) (outBufs : List Bytes) (regsSize : List VmSize) :
    Prog Fault σ (List Bytes) := do
  if ids.length = 0 then return outBufs
  if ← Prog.lift (oneSize regsSize ids.length) then
    let size ← Prog.lift (sizeAt regsSize 0)
    let req ← @sendReq _ exchange .getRegs ⟨ids.length.toUInt16, size, ids, outBufs⟩
    return req.bufs
  else
    let req ← @sendReq _ exchange .getRegsVar ⟨ids.length.toUInt16, ids, regsSize, outBufs⟩
    return req.bufs

def setRegs (ids : List VmReg) (inBufs : List Bytes) (regsSize : List VmSize) :
    Prog Fault σ Unit := do
  if ids.length = 0 then return
  if ← Prog.lift (oneSize regsSize ids.length) then
    let size ← Prog.lift (sizeAt regsSize 0)
    let _ ← @sendReq _ exchange .setRegs ⟨ids.length.toUInt16, size, ids, inBufs⟩
  else
    let _ ← @sendReq _ exchange .setRegsVar ⟨ids.length.toUInt16, ids, regsSize, inBufs⟩

def getRegsInfos (ids : List VmReg) (outInfos : List RegInfos) : Prog Fault σ (List RegInfos) := do
  let req ← @sendReq _ exchange .getRegsInfos ⟨ids.length.toUInt16, ids, outInfos⟩
  return req.outs

def findRegsIds (regNames : List CStr) (outIds : List VmReg) : Prog Fault σ (List VmReg) := do
  let req ← @sendReq _ exchange .findRegsIds ⟨regNames.length.toUInt16, regNames, outIds⟩
  return req.outs

def readMem (srcAddrs : List VmPtr) (bufsSizes : List VmSize) (outBufs : List Bytes) :
    Prog Fault σ (List Bytes) := do
  if srcAddrs.length = 0 then return outBufs
  let req ← @sendReq _ exchange .readMemVar ⟨srcAddrs.length.toUInt16, srcAddrs, bufsSizes, outBufs⟩
  return req.bufs

def writeMem (dstAddrs : List VmPtr) (bufsSizes : List VmSize) (inBufs : List Bytes) :
    Prog Fault σ Unit := do
  if dstAddrs.length = 0 then return
  let _ ← @sendReq _ exchange .writeMemVar ⟨dstAddrs.length.toUInt16, dstAddrs, bufsSizes, inBufs⟩

def getSymbolsByIds (ids : List VmSym) (outInfos : List SymbolInfos) :
    Prog Fault σ (List SymbolInfos) := do
  let req ← @sendReq _ exchange .getSymsByIds ⟨ids.length.toUInt16, ids, outInfos⟩
  return req.outs

def getSymbolsByAddr (addr : VmPtr) (size : VmSize) : Prog Fault σ (List SymbolInfos) := do
  let req ← @sendReq _ exchange .getSymsByAddr ⟨addr, size, []⟩
  return req.outInfos

def getSymbolsByNames (names : List CStr) (outInfos : List SymbolInfos) :
    Prog Fault σ (List SymbolInfos) := do
  let req ← @sendReq _ exchange .getSymsByNames ⟨names.length.toUInt16, names, outInfos⟩
  return req.outs

def getCodeText (addr : VmPtr) (nins : VmSize) : Prog Fault σ (List Bytes × List VmSize) := do
  let req ← @sendReq _ exchange .getCodeText ⟨addr, nins, [], []⟩
  return (req.outText, req.outSizes)

def addBreakpoints (addrs : List VmPtr) : Prog Fault σ Unit := do
  let _ ← @sendReq _ exchange .addBkps ⟨addrs.length.toUInt16, addrs⟩

def delBreakpoints (addrs : List VmPtr) : Prog Fault σ Unit := do
  let _ ← @sendReq _ exchange .delBkps ⟨addrs.length.toUInt16, addrs⟩

def resume (type : ResumeType) : Prog Fault σ Unit := do
  let _ ← @sendReq _ exchange .resume ⟨type⟩

/-- The class `DBClientImplData`. -/
def impl : DBClientImpl σ
  | _, .connect _ => connect exchange
  | _, .stop => stop exchange
  | _, .checkStopped _ => checkStopped exchange
  | _, .getRegs ids outBufs regsSize => getRegs exchange ids outBufs regsSize
  | _, .setRegs ids inBufs regsSize => setRegs exchange ids inBufs regsSize
  | _, .getRegsInfos ids outInfos => getRegsInfos exchange ids outInfos
  | _, .findRegsIds regNames outIds => findRegsIds exchange regNames outIds
  | _, .readMem srcAddrs bufsSizes outBufs => readMem exchange srcAddrs bufsSizes outBufs
  | _, .writeMem dstAddrs bufsSizes inBufs => writeMem exchange dstAddrs bufsSizes inBufs
  | _, .getSymbolsByIds ids outInfos => getSymbolsByIds exchange ids outInfos
  | _, .getSymbolsByAddr addr size => getSymbolsByAddr exchange addr size
  | _, .getSymbolsByNames names outInfos => getSymbolsByNames exchange names outInfos
  | _, .getCodeText addr nins => getCodeText exchange addr nins
  | _, .addBreakpoints addrs => addBreakpoints exchange addrs
  | _, .delBreakpoints addrs => delBreakpoints exchange addrs
  | _, .resume type => resume exchange type

end DataClient

end Odb
