import Odb.Mess.RoundTrip

/-!
# Writing a response never fails

Every value can be written, whether or not it can be read back: what fails is only an array that is
shorter than announced.

* `TotalSerial`: the types whose values can all be written.
* `Req.writes`: a response whose output arrays are as long as announced can be written.
* `Req.appends`: what a request writes comes after what was written before.
-/

namespace Odb

open Prog Serial

class TotalSerial (T : Type) [Serial T] : Prop where
  total (x : T) : Total (serialize x)

export TotalSerial (total)

theorem total_write (data : Bytes) : Total (SerialOutBuff.write data) := .modify _

instance : TotalSerial UInt8 := ⟨fun _ => total_write _⟩
instance : TotalSerial UInt16 := ⟨fun _ => total_write _⟩
instance : TotalSerial UInt32 := ⟨fun _ => total_write _⟩
instance : TotalSerial UInt64 := ⟨fun _ => total_write _⟩
instance : TotalSerial Bool := ⟨fun _ => total_write _⟩
instance : TotalSerial RegKind := ⟨fun _ => total_write _⟩
instance : TotalSerial StoppedState := ⟨fun _ => total_write _⟩
instance : TotalSerial ReqType := ⟨fun _ => total_write _⟩

instance : TotalSerial Bytes := ⟨fun s => .bind (total_write _) fun _ => total_write s⟩

instance {T : Type} [Serial T] [TotalSerial T] : TotalSerial (List T) :=
  ⟨fun v => .bind (total_write _) fun _ => .forM total v⟩

instance : TotalSerial CallInfos :=
  ⟨fun ci => .bind (total ci.callerStartAddr) fun _ => total ci.callAddr⟩

instance : TotalSerial DBClientUpdate :=
  ⟨fun udp => .bind (total udp.vmState) fun _ => .bind (total udp.stopped) fun _ =>
    .bind (total udp.addr) fun _ => total udp.stack⟩

instance : TotalSerial SymbolInfos :=
  ⟨fun sym => .bind (total sym.idx) fun _ => .bind (total sym.name) fun _ => total sym.addr⟩

instance : TotalSerial RegInfos :=
  ⟨fun reg => .bind (total reg.idx) fun _ => .bind (total reg.name) fun _ =>
    .bind (total reg.size) fun _ => total reg.kind⟩

instance : TotalSerial VMInfos :=
  ⟨fun infos => .bind (total infos.name) fun _ => .bind (total infos.regsCount) fun _ =>
    .bind (total infos.regsGeneral) fun _ => .bind (total infos.regsProgramCounter) fun _ =>
    .bind (total infos.regsStackPointer) fun _ => .bind (total infos.regsBasePointer) fun _ =>
    .bind (total infos.regsFlags) fun _ => .bind (total infos.memorySize) fun _ =>
    .bind (total infos.symbolsCount) fun _ => .bind (total infos.pointerSize) fun _ =>
    .bind (total infos.integerSize) fun _ => total infos.useOpcode⟩

section Calls

variable {T : Type} [Serial T] [TotalSerial T]

theorem total_objectOut (x : T) : Total (objectOut .servSend x) :=
  .bind (total x) fun _ => .ret x

theorem total_bufferOut {ptr : List T} {size : VmSize} (h : ptr.length = size.toNat) :
    Total (bufferOut .servSend ptr size) := by
  show Total (writeBuf ptr size.toNat >>= fun _ => pure ptr)
  rw [← h, writeBuf_self]
  exact .bind (.forM total ptr) fun _ => .ret ptr

theorem total_bufferRowsOut {ptr : List (List T)} {total : VmSize} {sizes : Except Fault (List Nat)}
    (h : sizes = .ok (ptr.map List.length)) : Total (bufferRowsOut .servSend ptr total sizes) := by
  show Total (Prog.lift sizes >>= fun sizes => writeBuf2d ptr sizes >>= fun _ => pure ptr)
  rw [h, lift_ok, pure_bind, writeBuf2d_self]
  exact .bind (.forM (fun row => .forM TotalSerial.total row) ptr) fun _ => .ret ptr

end Calls

/-! ## Responses -/

/-- The output arrays have the announced lengths. -/
def Req.Filled : {ty : ReqType} → Req ty → Prop
  | .getRegs, r | .readMem, r => ReqFixed.Shaped r
  | .getRegsVar, r | .readMemVar, r => ReqVar.Shaped r
  | .getRegsInfos, r | .getSymsByIds, r => r.outs.length = r.n.toNat
  | .findRegsIds, r | .getSymsByNames, r => r.outs.length = r.n.toNat
  | .connect, _ | .stop, _ | .checkStopped, _ | .setRegs, _ | .setRegsVar, _ | .writeMem, _
  | .writeMemVar, _ | .getSymsByAddr, _ | .getCodeText, _ | .addBkps, _ | .delBkps, _
  | .resume, _ | .err, _ => True

section Responses

variable {K I : Type} [Serial K] [Serial I]

/-! Of an input nothing is written in a response. -/

theorem ReqFixed.writes {op : Mode → List Bytes → VmSize → VmSize → BuffM (List Bytes)}
    {r : ReqFixed K} (h : Total (op .servSend r.bufs r.n.toUInt64 r.size)) :
    Total (r.prepare .servSend op) :=
  show Total (op .servSend r.bufs r.n.toUInt64 r.size >>= fun bufs =>
    (pure { r with bufs } : BuffM (ReqFixed K))) from h.bind fun _ => .ret _

theorem ReqVar.writes {op : Mode → List Bytes → VmSize → List VmSize → BuffM (List Bytes)}
    {r : ReqVar K} (h : Total (op .servSend r.bufs r.n.toUInt64 r.sizes)) :
    Total (r.prepare .servSend op) :=
  show Total (op .servSend r.bufs r.n.toUInt64 r.sizes >>= fun bufs =>
    (pure { r with bufs } : BuffM (ReqVar K))) from h.bind fun _ => .ret _

theorem ReqByIds.writes [TotalSerial I] {r : ReqByIds K I} (h : r.outs.length = r.n.toNat) :
    Total (r.prepare .servSend) :=
  show Total (bufferOut .servSend r.outs r.n.toUInt64 >>= fun outs =>
    (pure { r with outs } : BuffM (ReqByIds K I))) from
    .bind (total_bufferOut (h.trans (toNat_count _).symm)) fun _ => .ret _

theorem ReqByNames.writes [TotalSerial I] {r : ReqByNames I} (h : r.outs.length = r.n.toNat) :
    Total (r.prepare .servSend) :=
  show Total (bufferOut .servSend r.outs r.n.toUInt64 >>= fun outs =>
    (pure { r with outs } : BuffM (ReqByNames I))) from
    .bind (total_bufferOut (h.trans (toNat_count _).symm)) fun _ => .ret _

/-- A response with filled output arrays can be written. -/
theorem Req.writes : {ty : ReqType} → (r : Req ty) → r.Filled → Total (prepareRequest .servSend r)
  | .connect, r, _ =>
    .bind (total_objectOut r.outInfos) fun _ => .bind (total_objectOut r.outUdp) fun _ => .ret _
  | .stop, _, _ => .ret _
  | .checkStopped, r, _ => .bind (total_objectOut r.outUdp) fun _ => .ret _
  | .getRegs, _, h | .readMem, _, h =>
    ReqFixed.writes (total_bufferRowsOut (congrArg _ h.rowSizes))
  | .getRegsVar, _, h | .readMemVar, _, h =>
    ReqVar.writes (total_bufferRowsOut (by rw [h.rowSizes, h.rows]))
  | .setRegs, _, _ | .writeMem, _, _ => ReqFixed.writes (.ret _)
  | .setRegsVar, _, _ | .writeMemVar, _, _ => ReqVar.writes (.ret _)
  | .getRegsInfos, _, h | .getSymsByIds, _, h => ReqByIds.writes h
  | .findRegsIds, _, h | .getSymsByNames, _, h => ReqByNames.writes h
  | .getSymsByAddr, r, _ =>
    .bind (.ret _) fun _ => .bind (.ret _) fun _ => .bind (total_objectOut r.outInfos) fun _ =>
      .ret _
  | .getCodeText, r, _ =>
    .bind (.ret _) fun _ => .bind (.ret _) fun _ => .bind (total_objectOut r.outText) fun _ =>
      .bind (total_objectOut r.outSizes) fun _ => .ret _
  | .addBkps, _, _ | .delBkps, _, _ => .bind (.ret _) fun _ => .bind (.ret _) fun _ => .ret _
  | .resume, _, _ => .bind (.ret _) fun _ => .ret _
  | .err, r, _ => .bind (total_objectOut r.msg) fun _ => .ret _

end Responses

/-! ## Requests -/

section Requests

/-- `c` leaves what was written before it. -/
abbrev Appends {α : Type} (c : BuffM α) : Prop := Moves (· <+: ·) (fun _ => True) c

theorem Appends.isPrefix {α : Type} {c : BuffM α} (hc : Appends c) {out out' : Bytes} {a : α}
    (h : c.on out = (.ok a, out')) : out <+: out' := by
  have hsteps : Relation.ReflTransGen (· <+: ·) out out' := by
    have := hc out
    rwa [h] at this
  clear h
  induction hsteps with
  | refl => exact List.prefix_rfl
  | tail _ hst ih => exact ih.trans hst

theorem appends_write (data : Bytes) : Appends (SerialOutBuff.write data) :=
  .of_step fun _ => ⟨data, rfl⟩

class AppendSerial (T : Type) [Serial T] : Prop where
  appends (x : T) : Appends (serialize x)

export AppendSerial (appends)

instance : AppendSerial UInt8 := ⟨fun _ => appends_write _⟩
instance : AppendSerial UInt16 := ⟨fun _ => appends_write _⟩
instance : AppendSerial UInt32 := ⟨fun _ => appends_write _⟩
instance : AppendSerial UInt64 := ⟨fun _ => appends_write _⟩
instance : AppendSerial ResumeType := ⟨fun _ => appends_write _⟩

variable {T : Type} [Serial T] [AppendSerial T]

theorem appends_ret {α : Type} (a : α) : Appends (pure a) := .of_keeps (.ret a)

theorem appends_objectIn (x : T) : Appends (objectIn .cliSend x) :=
  .bind (appends x) fun _ => appends_ret _

theorem appends_writeBuf (ptr : List T) (n : Nat) : Appends (writeBuf ptr n) :=
  .bind (.of_keeps (.lift _)) fun items => .forM items appends

theorem appends_bufferIn (ptr : List T) (size : VmSize) : Appends (bufferIn .cliSend ptr size) :=
  .bind (appends_writeBuf ptr _) fun _ => appends_ret _

theorem appends_bufferRowsIn (ptr : List (List T)) (total : VmSize)
    (sizes : Except Fault (List Nat)) : Appends (bufferRowsIn .cliSend ptr total sizes) :=
  .bind (.of_keeps (.lift _)) fun _ => .bind (.bind (.of_keeps (.lift _)) fun _ =>
    .forM _ fun p => appends_writeBuf p.1 p.2) fun _ => appends_ret _

theorem appends_cstrs (ptr : List CStr) (size : VmSize) :
    Appends (buffer2dInCstr .cliSend ptr size) :=
  .bind (.of_keeps (.lift _)) fun strs => .bind (appends (T := UInt16) _) fun _ =>
    .bind (.forM strs fun _ => appends_write _) fun _ => appends_ret _

variable {K I : Type} [Serial K] [AppendSerial K] [Serial I]

theorem ReqFixed.appends {op : Mode → List Bytes → VmSize → VmSize → BuffM (List Bytes)}
    (hop : ∀ bufs n size, Appends (op .cliSend bufs n size)) (r : ReqFixed K) :
    Appends (r.prepare .cliSend op) :=
  .bind (appends_objectIn r.n) fun _ => .bind (appends_objectIn r.size) fun _ =>
    .bind (appends_bufferIn r.ids _) fun _ => .bind (hop _ _ _) fun _ => appends_ret _

theorem ReqVar.appends {op : Mode → List Bytes → VmSize → List VmSize → BuffM (List Bytes)}
    (hop : ∀ bufs n sizes, Appends (op .cliSend bufs n sizes)) (r : ReqVar K) :
    Appends (r.prepare .cliSend op) :=
  .bind (appends_objectIn r.n) fun _ => .bind (appends_bufferIn r.ids _) fun _ =>
    .bind (appends_bufferIn r.sizes _) fun _ => .bind (hop _ _ _) fun _ => appends_ret _

theorem ReqByIds.appends (r : ReqByIds K I) : Appends (r.prepare .cliSend) :=
  .bind (appends_objectIn r.n) fun _ => .bind (appends_bufferIn r.ids _) fun _ =>
    .bind (appends_ret _) fun _ => appends_ret _

theorem ReqByNames.appends (r : ReqByNames I) : Appends (r.prepare .cliSend) :=
  .bind (appends_objectIn r.n) fun _ => .bind (appends_cstrs r.names _) fun _ =>
    .bind (appends_ret _) fun _ => appends_ret _

theorem Req.appends : {ty : ReqType} → (r : Req ty) → Appends (prepareRequest .cliSend r)
  | .connect, _ => .bind (appends_ret _) fun _ => .bind (appends_ret _) fun _ => appends_ret _
  | .stop, _ => appends_ret _
  | .checkStopped, _ | .err, _ => .bind (appends_ret _) fun _ => appends_ret _
  | .getRegs, r | .readMem, r => ReqFixed.appends (fun _ _ _ => appends_ret _) r
  | .getRegsVar, r | .readMemVar, r => ReqVar.appends (fun _ _ _ => appends_ret _) r
  | .setRegs, r | .writeMem, r => ReqFixed.appends (fun _ _ _ => appends_bufferRowsIn _ _ _) r
  | .setRegsVar, r | .writeMemVar, r => ReqVar.appends (fun _ _ _ => appends_bufferRowsIn _ _ _) r
  | .getRegsInfos, r | .getSymsByIds, r => ReqByIds.appends r
  | .findRegsIds, r | .getSymsByNames, r => ReqByNames.appends r
  | .getSymsByAddr, r =>
    .bind (appends_objectIn r.addr) fun _ => .bind (appends_objectIn r.size) fun _ =>
      .bind (appends_ret _) fun _ => appends_ret _
  | .getCodeText, r =>
    .bind (appends_objectIn r.addr) fun _ => .bind (appends_objectIn r.nins) fun _ =>
      .bind (appends_ret _) fun _ => .bind (appends_ret _) fun _ => appends_ret _
  | .addBkps, r | .delBkps, r =>
    .bind (appends_objectIn r.size) fun _ => .bind (appends_bufferIn r.inAddrs _) fun _ =>
      appends_ret _
  | .resume, r => .bind (appends_objectIn r.type) fun _ => appends_ret _

end Requests

end Odb
