import Odb.Mess.Request
import Odb.Server.VMSide

/-!
# `DataClientHandler` (`server/data-client-handler.cc`)

How the server handles one request: it runs on the debugger, the request left to read, and the
response written so far. What a failing command wrote before it failed stays in the response.
-/

namespace Odb

open Serial

/-- `e.what()`: the message up to its first NUL. -/
def what (msg : Bytes) : Bytes := msg.takeWhile (· ≠ 0)

namespace DataClientHandler

/-- What `run_command` and `check_stopped` work on: the debugger, `_in` and `_out`. -/
structure Session (V : Type) where
  db : Debugger V
  is : Bytes
  os : Bytes

section Parts

variable {V α : Type}

def onDb (c : DbM V α) : Prog Fault (Session V) α :=
  .zoom Session.db (fun db s => { s with db := db }) c

def onIs (c : BuffM α) : Prog Fault (Session V) α :=
  .zoom Session.is (fun is s => { s with is := is }) c

def onOs (c : BuffM α) : Prog Fault (Session V) α :=
  .zoom Session.os (fun os s => { s with os := os }) c

variable {s : Session V} {r : Except Fault α}

theorem onDb_on {c : DbM V α} {db : Debugger V} (h : c.on s.db = (r, db)) :
    (onDb c).on s = (r, { s with db := db }) := Prog.on_zoom h

theorem onIs_on {c : BuffM α} {is : Bytes} (h : c.on s.is = (r, is)) :
    (onIs c).on s = (r, { s with is := is }) := Prog.on_zoom h

theorem onOs_on {c : BuffM α} {os : Bytes} (h : c.on s.os = (r, os)) :
    (onOs c).on s = (r, { s with os := os }) := Prog.on_zoom h

end Parts

/-- `RequestHandler _rh(true)`. -/
abbrev rh : RequestHandler := ⟨true⟩

variable {V : Type} (api : VMApi V)

/-- The request that each case of the switch declares: `udp` is what an uninitialized
`DBClientUpdate` holds besides its vector, every other member without a value is overwritten when
the request is read. The other types are the `default` case. -/
def fresh (udp : DBClientUpdate) : (ty : ReqType) → Option (Req ty)
  | .connect => some ⟨blank, { udp with stack := [] }⟩
  | .stop => some ⟨⟩
  | .checkStopped => some ⟨{ udp with stack := [] }⟩
  | .getRegs | .setRegs | .readMem | .writeMem => some ⟨0, 0, [], []⟩
  | .getRegsVar | .setRegsVar | .readMemVar | .writeMemVar => some ⟨0, [], [], []⟩
  | .getRegsInfos | .getSymsByIds | .findRegsIds | .getSymsByNames => some ⟨0, [], []⟩
  | .getSymsByAddr => some ⟨0, 0, []⟩
  | .getCodeText => some ⟨0, 0, [], []⟩
  | .addBkps | .delBkps => some ⟨0, []⟩
  | .resume => some ⟨.toFinish⟩
  | .err | .other _ => none

/-- The call of `dc` in each case of the switch, which writes the outputs of the request. -/
def serve : {ty : ReqType} → Req ty → DbM V (Req ty)
  | .connect, req => do
    let (outInfos, outUdp) ← VMSide.connect req.outUdp
    return ⟨outInfos, outUdp⟩
  | .stop, req => do
    VMSide.stop
    return req
  | .checkStopped, req => do
    let outUdp ← VMSide.checkStopped req.outUdp
    return ⟨outUdp⟩
  | .getRegs, req => do
    let bufs ← VMSide.getRegs api req.ids req.bufs
    return { req with bufs }
  | .getRegsVar, req => do
    let bufs ← VMSide.getRegs api req.ids req.bufs
    return { req with bufs }
  | .setRegs, req => do
    VMSide.setRegs api req.ids req.bufs
    return req
  | .setRegsVar, req => do
    VMSide.setRegs api req.ids req.bufs
    return req
  | .getRegsInfos, req => do
    let outs ← VMSide.getRegsInfos api req.ids req.outs
    return { req with outs }
  | .findRegsIds, req => do
    let outs ← VMSide.findRegsIds api req.names req.outs
    return { req with outs }
  | .readMem, req => do
    let bufs ← VMSide.readMem api req.ids [req.size, 0] req.bufs
    return { req with bufs }
  | .readMemVar, req => do
    let bufs ← VMSide.readMem api req.ids req.sizes req.bufs
    return { req with bufs }
  | .writeMem, req => do
    VMSide.writeMem api req.ids [req.size, 0] req.bufs
    return req
  | .writeMemVar, req => do
    VMSide.writeMem api req.ids req.sizes req.bufs
    return req
  | .getSymsByIds, req => do
    let outs ← VMSide.getSymbolsByIds api req.ids req.outs
    return { req with outs }
  | .getSymsByAddr, req => do
    let outInfos ← VMSide.getSymbolsByAddr api req.addr req.size
    return { req with outInfos }
  | .getSymsByNames, req => do
    let outs ← VMSide.getSymbolsByNames api req.names req.outs
    return { req with outs }
  | .getCodeText, req => do
    let (outText, outSizes) ← VMSide.getCodeText api req.addr req.nins
    return { req with outText, outSizes }
  | .addBkps, req => do
    VMSide.addBreakpoints req.inAddrs
    return req
  | .delBkps, req => do
    VMSide.delBreakpoints req.inAddrs
    return req
  | .resume, req => do
    VMSide.resume req.type
    return req
  | .err, req => return req -- no case of the switch

/-- A case of the switch. -/
def reply {ty : ReqType} (req : Req ty) : Prog Fault (Session V) Unit := do
  let req ← onIs (rh.serverReadRequest req)
  let req ← onDb (serve api req)
  onOs (serialize ty)
  let _ ← onOs (rh.serverWriteResponse req)

/-- What `run_command` and `check_stopped` do around their switch. -/
def answer (switch : ReqType → Prog Fault (Session V) Unit) : Prog Fault (Session V) Unit := do
  modify fun s => { s with os := [] }
  let ty ← onIs (unserialize ReqType.connect)
  (switch ty).handle fun
    | .vmError msg => do
      onOs (serialize ReqType.err)
      let _ ← onOs (@RequestHandler.serverWriteResponse rh .err ⟨what msg⟩)
    | e => throw e

/-- The switch of `run_command`. -/
def runSwitch (udp : DBClientUpdate) : ReqType → Prog Fault (Session V) Unit
  | .stop => throw (.vmError (lit "Cannot stop already stopped program\n"))
  | ty => match fresh udp ty with
    | some req => reply api req
    | none => throw (.vmError (lit "Bad API request"))

/-- The switch of `check_stopped`. -/
def checkSwitch (udp : DBClientUpdate) : ReqType → Prog Fault (Session V) Unit
  | .stop => @reply _ api .stop ⟨⟩
  | .checkStopped => @reply _ api .checkStopped ⟨{ udp with stack := [] }⟩
  | _ => throw (.vmError (lit "Only stop and check stopped request can be sent while VM running"))

/-- `run_command()`, with a request received. -/
def runCommand (udp : DBClientUpdate) : Prog Fault (Session V) Unit := answer (runSwitch api udp)

/-- `check_stopped()`, with a request received. -/
def checkStopped (udp : DBClientUpdate) : Prog Fault (Session V) Unit :=
  answer (checkSwitch api udp)

end DataClientHandler

end Odb
