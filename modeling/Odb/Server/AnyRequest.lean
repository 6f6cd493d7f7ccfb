import Odb.Mess.Writes
import Odb.Server.SafeCalls

/-!
# Any request

What `run_command` does with any request a client can send, whatever its fields hold.

* `Req.Answerable`: the requests that the debugger and the VM can take.
* `Run.responds_iff`: exactly those are answered, by their own type or by `ERR`.
-/

namespace Odb

open Prog Serial DataClientHandler

open Debugger (getReg getRegInfos findRegId readBytes fixedSize LoadFits ValueFits NameFits WindowFits)

variable {V : Type} (api : VMApi V)

/-- The request asks for nothing that the debugger cannot give, whatever the sizes of its rows are:

* the values of registers fit in their buffers, and their infos can be loaded;
* no third block of one size is reached: there are at most two, or the VM refuses one of them;
* symbols in a window that fits;
* no more lines of code than a vector can hold. -/
def Req.Granted (db : Debugger V) : {ty : ReqType} → Req ty → Prop
  | .getRegs, r =>
    Along (fun p : VmReg × VmSize => getReg api p.1) (fun p => ValueFits api p.1 p.2.toNat)
      (r.ids.map fun id => (id, r.size)) db
  | .getRegsVar, r =>
    Along (fun p : VmReg × VmSize => getReg api p.1) (fun p => ValueFits api p.1 p.2.toNat)
      (r.ids.zip r.sizes) db
  | .getRegsInfos, r => Along (getRegInfos api) (LoadFits api) r.ids db
  | .findRegsIds, r =>
    Along (fun s : CStr => findRegId api s.1) (fun s => NameFits api s.1) r.names db
  | .readMem, r =>
    Along (fun p : VmPtr × Nat => readBytes api p.1 (fixedSize r.size p.2)) (fun p _ => p.2 < 2)
      r.ids.zipIdx db
  | .writeMem, r =>
    Along (fun p : (VmPtr × Bytes) × Nat =>
        Debugger.writeMem api p.1.1 (fixedSize r.size p.2) p.1.2) (fun p _ => p.2 < 2)
      (r.ids.zip r.bufs).zipIdx db
  | .getSymsByAddr, r => WindowFits api r.addr r.size db
  | .getCodeText, r => r.nins.toNat ≤ maxBytes / sizeof Bytes
  | .connect, _ | .stop, _ | .checkStopped, _ | .setRegs, _ | .setRegsVar, _ | .readMemVar, _
  | .writeMemVar, _ | .getSymsByIds, _ | .getSymsByNames, _ | .addBkps, _ | .delBkps, _
  | .resume, _ | .err, _ => True

/-- An object can hold the rows of the request, and the debugger can give what it asks for. -/
def Req.Answerable (db : Debugger V) {ty : ReqType} (r : Req ty) : Prop :=
  r.total ≤ maxBytes ∧ r.Granted api db

/-- The bytes of a response to a request of type `ty`: of this type, or `ERR`. -/
def IsResponse (ty : ReqType) (os : Bytes) : Prop :=
  (∃ req : Req ty, written (do serialize ty; rh.serverWriteResponse req) = .ok os) ∨
    ∃ msg, os = errResponse msg

/-- `run_command`, with the request `req` of type `ty` received, ends with a response. -/
def Responds (udp : DBClientUpdate) (ty : ReqType) (db : Debugger V) (req : Bytes) : Prop :=
  ∀ os, ∃ s', (runCommand api udp).on ⟨db, req, os⟩ = (.ok (), s') ∧ IsResponse ty s'.os

variable {api} {db : Debugger V}

/-! ## Each case of the switch -/

theorem blankBufs_fixed {K : Type} (r : ReqFixed K) :
    r.blankBufs.map List.length = List.replicate r.n.toNat r.size.toNat := by
  simp [ReqFixed.blankBufs, length_blanks]

theorem blankBufs_var {K : Type} (r : ReqVar K) :
    r.blankBufs.map List.length = r.sizes.map UInt64.toNat := by
  simp [ReqVar.blankBufs, length_blanks]

theorem ReqVar.Shaped.count {K : Type} {r : ReqVar K} (h : r.Shaped) :
    r.bufs.length = r.n.toNat := by
  have := congrArg List.length h.rows
  rwa [List.length_map, List.length_map, h.sizes] at this

section Fixed

variable {K : Type} {r : ReqFixed K}

theorem length_blankBufs : r.blankBufs.length = r.n.toNat := List.length_replicate

theorem length_of_mem_blankBufs : ∀ row ∈ r.blankBufs, row.length = r.size.toNat := by
  intro row hrow
  rw [List.eq_of_mem_replicate hrow, length_blanks]

end Fixed

theorem setRegs_safe {ids : List VmReg} {bufs : List Bytes} (h : bufs.length = ids.length) :
    Safe Caught (VMSide.setRegs api ids bufs) db := by
  unfold VMSide.setRegs
  rw [← h, itemsAt_self, lift_ok, pure_bind]
  exact Safe.forM (fun p _ db => Debugger.callVM_safe _ db) db

/-- Every case of the switch is safe exactly for the requests that the debugger can grant. -/
theorem serve_safe_iff (hi : Debugger.SymsSized db.cachePart) {ty : ReqType} (hty : ty ≠ .stop)
    (r r₀ : Req ty) (hr : r.Shaped) : Safe Caught (serve api (r.received r₀)) db ↔ r.Granted api db := by
  have hret {α β : Type} {c : DbM V α} {f : α → β} :
      Safe Caught (c >>= fun a => pure (f a)) db ↔ Safe Caught c db :=
    Safe.then_iff fun _ _ => .ret _
  cases ty with
  | connect =>
    refine iff_of_true (hret.mpr ?_) trivial
    exact .bind (.of_ok (on_get db)) fun _ db' _ =>
      .bind (Debugger.checkStopped_safe _ db') fun _ _ _ => .ret _
  | stop => exact absurd rfl hty
  | checkStopped => exact iff_of_true (hret.mpr (Debugger.checkStopped_safe _ db)) trivial
  | getRegs =>
    refine hret.trans ?_
    have hr : ReqFixed.Shaped r := hr
    have hlen : (ReqFixed.blankBufs r).length = r.ids.length := length_blankBufs.trans hr.ids.symm
    rw [Req.Granted, List.map_prod_left_eq_zip]
    refine Debugger.getRegs_safe_iff hlen ?_
    show (ReqFixed.blankBufs r).map List.length = _
    rw [blankBufs_fixed, ← hr.ids]
    simp
  | getRegsVar =>
    have hr : ReqVar.Shaped r := hr
    exact hret.trans (Debugger.getRegs_safe_iff (hr.blank.count.trans hr.ids.symm) (blankBufs_var r))
  | setRegs =>
    have hr : ReqFixed.Shaped r := hr
    exact iff_of_true (hret.mpr (setRegs_safe (hr.bufs.trans hr.ids.symm))) trivial
  | setRegsVar =>
    have hr : ReqVar.Shaped r := hr
    exact iff_of_true (hret.mpr (setRegs_safe (hr.count.trans hr.ids.symm))) trivial
  | getRegsInfos =>
    have hr : ReqByIds.Shaped _ r := hr
    refine hret.trans ((Debugger.fill_safe_iff (length_blanks.trans hr.ids.symm)).trans ?_)
    exact along_congr (fun id _ db => Debugger.getRegInfos_safe_iff id) (fun _ _ _ _ _ => .rfl) db
  | findRegsIds =>
    have hr : ReqByNames.Shaped _ r := hr
    refine hret.trans ((Debugger.fill_safe_iff (length_blanks.trans hr.names.symm)).trans ?_)
    exact along_congr (fun s _ db => Debugger.findRegId_safe_iff s.1) (fun _ _ _ _ _ => .rfl) db
  | readMem =>
    have hr : ReqFixed.Shaped r := hr
    exact hret.trans (Debugger.readFixed_safe_iff (length_blankBufs.trans hr.ids.symm)
      length_of_mem_blankBufs)
  | readMemVar =>
    have hr : ReqVar.Shaped r := hr
    exact iff_of_true (hret.mpr (Debugger.readMem_safe
      (Debugger.rows_var (hr.sizes.trans hr.ids.symm) (blankBufs_var r)) db)) trivial
  | writeMem =>
    have hr : ReqFixed.Shaped r := hr
    exact hret.trans (Debugger.writeFixed_safe_iff (hr.bufs.trans hr.ids.symm) hr.rows)
  | writeMemVar =>
    have hr : ReqVar.Shaped r := hr
    exact iff_of_true (hret.mpr (Debugger.writeMem_safe
      (Debugger.rows_var (hr.sizes.trans hr.ids.symm) hr.rows) db)) trivial
  | getSymsByIds =>
    have hr : ReqByIds.Shaped _ r := hr
    exact iff_of_true (hret.mpr (Debugger.getSymbolsByIds_safe
      (length_blanks.trans hr.ids.symm) db)) trivial
  | getSymsByAddr => exact hret.trans (Debugger.getSymbolsByAddr_safe_iff hi _ _)
  | getSymsByNames =>
    have hr : ReqByNames.Shaped _ r := hr
    refine iff_of_true (hret.mpr ((Debugger.fill_safe_iff
      (length_blanks.trans hr.names.symm)).mpr (.of_forall (fun s _ db => ?_) db))) trivial
    exact .bind (Debugger.findSymId_safe s.1 db) fun id db' _ => Debugger.getSymbolInfos_safe id db'
  | getCodeText =>
    refine hret.trans (Debugger.getCodeText_safe_iff r.addr r.nins)
  | addBkps =>
    exact iff_of_true (hret.mpr (Safe.forM (fun a _ => Debugger.addBreakpoint_safe a) db)) trivial
  | delBkps =>
    exact iff_of_true (hret.mpr (Safe.forM (fun a _ => Debugger.delBreakpoint_safe a) db)) trivial
  | resume => exact iff_of_true (hret.mpr (Debugger.resume_safe _ db)) trivial
  | err => exact iff_of_true (.ret _) trivial
  | other => cases r

/-! ## The response -/

theorem ReqFixed.Shaped.of_lengths {K : Type} {r : ReqFixed K} (h : r.Shaped) {bufs : List Bytes}
    (hb : bufs.map List.length = r.bufs.map List.length) :
    ReqFixed.Shaped { r with bufs } where
  ids := h.ids
  bufs := by
    have := congrArg List.length hb
    rwa [List.length_map, List.length_map, h.bufs] at this
  rows row hrow := by
    have := List.mem_map_of_mem (f := List.length) hrow
    rw [hb] at this
    obtain ⟨row', hrow', he⟩ := List.mem_map.mp this
    rw [← he, h.rows row' hrow']
  total := h.total

theorem fill_length {α β : Type} {xs : List α} {out ys : List β} (hlen : out.length = xs.length)
    {f : α → DbM V β} {db' : Debugger V} (h : (VMSide.fill xs out f).on db = (.ok ys, db')) :
    ys.length = xs.length := by
  rw [VMSide.fill_eq hlen] at h
  exact VMSide.mapM_length (congrArg Prod.fst h)

/-- A case of the switch that returns has filled the output arrays. -/
theorem serve_filled {ty : ReqType} {r r₀ s : Req ty} (hr : r.Shaped) {db' : Debugger V}
    (h : (serve api (r.received r₀)).on db = (.ok s, db')) : s.Filled := by
  cases ty with
  | getRegs =>
    have hr : ReqFixed.Shaped r := hr
    obtain ⟨vals, db₁, hvals, h⟩ := bind_eq_ok.mp h
    cases h
    exact hr.blank.of_lengths
      (Debugger.getRegs_lengths (length_blankBufs.trans hr.ids.symm) hvals)
  | getRegsVar =>
    have hr : ReqVar.Shaped r := hr
    obtain ⟨vals, db₁, hvals, h⟩ := bind_eq_ok.mp h
    cases h
    exact { hr with
      rows := (Debugger.getRegs_lengths (hr.blank.count.trans hr.ids.symm) hvals).trans hr.blank.rows }
  | readMem =>
    have hr : ReqFixed.Shaped r := hr
    obtain ⟨blocks, db₁, hblocks, h⟩ := bind_eq_ok.mp h
    cases h
    exact hr.blank.of_lengths
      (Debugger.readMem_lengths (length_blankBufs.trans hr.ids.symm) hblocks)
  | readMemVar =>
    have hr : ReqVar.Shaped r := hr
    obtain ⟨blocks, db₁, hblocks, h⟩ := bind_eq_ok.mp h
    cases h
    exact { hr with
      rows := (Debugger.readMem_lengths (hr.blank.count.trans hr.ids.symm) hblocks).trans
        hr.blank.rows }
  | getRegsInfos | getSymsByIds =>
    have hr : ReqByIds.Shaped _ r := hr
    obtain ⟨outs, db₁, houts, h⟩ := bind_eq_ok.mp h
    cases h
    exact (fill_length (length_blanks.trans hr.ids.symm) houts).trans hr.ids
  | findRegsIds | getSymsByNames =>
    have hr : ReqByNames.Shaped _ r := hr
    obtain ⟨outs, db₁, houts, h⟩ := bind_eq_ok.mp h
    cases h
    exact (fill_length (length_blanks.trans hr.names.symm) houts).trans hr.names
  | other => cases r
  | _ => trivial

/-- A case of the switch is answered exactly if it is safe. -/
theorem responds_iff_safe (db : Debugger V) {udp : DBClientUpdate} {ty : ReqType} {r r₀ : Req ty}
    (hswitch : runSwitch api udp ty = reply api r₀) (hr : r.Shaped) (hroom : r.total ≤ maxBytes) :
    ∃ req, DataClient.request r = .ok req ∧
      (Responds api udp ty db req ↔ Safe Caught (serve api (r.received r₀)) db) := by
  obtain ⟨word, hw, hread⟩ := RequestHandler.carries_request r₀ ⟨hr, hroom⟩
  refine ⟨_, request_eq hw, ?_⟩
  rcases hserve : (serve api (r.received r₀)).on db with ⟨e | s, db'⟩
  · have hreply : (runSwitch api udp ty).on ⟨db, word, []⟩ = (.error e, ⟨db', [], []⟩) := by
      rw [hswitch, reply_on hread, on_bind_error (onDb_on hserve)]
    rw [Safe.iff_of_error hserve]
    cases e with
    | vmError msg =>
      exact iff_of_true (fun os => ⟨_, answer_error hreply, .inr ⟨_, rfl⟩⟩) trivial
    | _ =>
      refine iff_of_false (fun h => ?_) fun h => h
      obtain ⟨s', hrun, -⟩ := h []
      rw [runCommand, answer_on, on_handle, hreply] at hrun
      cases hrun
  · refine iff_of_true (fun os => ?_) (.of_ok hserve)
    obtain ⟨req, out, hwrite⟩ := (Req.writes s (serve_filled hr hserve)).on [ty.toByte]
    have hwrite : (rh.serverWriteResponse s).on [ty.toByte] = (.ok req, out) := hwrite
    refine ⟨⟨db', [], out⟩, ?_, .inl ⟨s, ?_⟩⟩
    · rw [runCommand, answer_on, on_handle, hswitch, reply_on hread, on_bind_ok (onDb_on hserve),
        on_bind_ok (onOs_on (serialize_type_on _ _)), on_bind_ok (onOs_on hwrite)]
      rfl
    · unfold written
      rw [on_bind_ok (serialize_type_on ty []), List.nil_append, hwrite]
      rfl

/-- The cases that throw before they read anything. -/
theorem responds_of_throw {udp : DBClientUpdate} {ty : ReqType} {r : Req ty} {msg : Bytes}
    (hswitch : runSwitch api udp ty = throw (.vmError msg)) (hr : r.Roomy) :
    ∃ req, DataClient.request r = .ok req ∧ Responds api udp ty db req := by
  obtain ⟨word, hw, -⟩ := RequestHandler.carries_request r hr
  have hthrow : (runSwitch api udp ty).on ⟨db, word, []⟩ =
      (.error (.vmError msg), ⟨db, word, []⟩) := by
    rw [hswitch]
    rfl
  exact ⟨_, request_eq hw, fun os => ⟨_, answer_error hthrow, .inr ⟨_, rfl⟩⟩⟩

/-- A request whose rows no object can hold is not answered. -/
theorem not_responds {udp : DBClientUpdate} {ty : ReqType} {r r₀ : Req ty}
    (hswitch : runSwitch api udp ty = reply api r₀) (hr : r.Counted) (hroom : maxBytes < r.total) :
    ∃ req, DataClient.request r = .ok req ∧ ¬ Responds api udp ty db req := by
  obtain ⟨word, hw, hread⟩ := RequestHandler.breaks_request r₀ hr hroom
  refine ⟨_, request_eq hw, fun h => ?_⟩
  obtain ⟨e, he, rest, hread⟩ := hread []
  rw [List.append_nil] at hread
  have hreply : (runSwitch api udp ty).on ⟨db, word, []⟩ = (.error e, ⟨db, rest, []⟩) := by
    rw [hswitch, reply, on_bind_error (onIs_on hread)]
  obtain ⟨s', hrun, -⟩ := h []
  rw [runCommand, answer_on, on_handle, hreply] at hrun
  rcases he with ⟨rfl, -⟩ | ⟨rfl, -⟩ <;> cases hrun

namespace Debugger

theorem Started.symsSized {db : Debugger V} (hs : Started api db) : SymsSized db.cachePart := by
  obtain ⟨-, -, -, hcache⟩ := hs.members
  unfold SymsSized cachePart
  rw [hcache]
  exact ⟨⟨_, rfl, RangeMap.wf_new UInt64.zero_le 0, rfl, rfl⟩, by simp⟩

theorem Run.symsSized {db₀ db : Debugger V} {es : List Event} (hs : Started api db₀)
    (h : Run api db₀ es db) : SymsSized db.cachePart :=
  h.runWhere.keepsSyms (W := fun _ _ _ => True) keepsSized_preload keepsSized_loadSymbol
    (fun _ k _ => by cases k <;> trivial) hs.symsSized

/-- The request is well formed, and `run_command` fails on it with `f`. -/
def Dies (api : VMApi V) (db : Debugger V) {ty : ReqType} (r : Req ty) (f : Fault) : Prop :=
  r.Counted ∧ ∃ req s', DataClient.request r = .ok req ∧
    (runCommand api blank).on ⟨db, req, []⟩ = (.error f, s')

theorem dies_of_room {api : VMApi V} {db : Debugger V} {ty : ReqType} {r r₀ : Req ty}
    (hswitch : runSwitch api blank ty = reply api r₀) (hr : r.Counted)
    (hroom : maxBytes < r.total) (hlt : r.total < UInt64.size) : Dies api db r .stdException := by
  obtain ⟨word, hw, hread⟩ := RequestHandler.breaks_request r₀ hr hroom
  obtain ⟨e, he, rest, hread⟩ := hread []
  rw [List.append_nil] at hread
  have hfault : e = .stdException := by
    rcases he with ⟨rfl, -⟩ | ⟨-, hwrap⟩
    · rfl
    · rw [Nat.mod_eq_of_lt hlt] at hwrap
      exact absurd hwrap (Nat.lt_irrefl _)
  subst hfault
  have hreply : (runSwitch api blank ty).on ⟨db, word, []⟩ = (.error .stdException, ⟨db, rest, []⟩) := by
    rw [hswitch, reply, on_bind_error (onIs_on hread)]
  refine ⟨hr, _, ⟨db, rest, []⟩, request_eq hw, ?_⟩
  rw [runCommand, answer_on, on_handle, hreply]
  rfl

/-- One block of 2^63 bytes. -/
def hugeBlock : ReqFixed VmPtr :=
  ⟨1, 0x8000000000000000, [0], [List.replicate (0x8000000000000000 : UInt64).toNat 0]⟩

theorem hugeBlock_rows : ∀ row ∈ hugeBlock.bufs, row.length = hugeBlock.size.toNat := by
  intro row hrow
  rw [List.mem_singleton.mp hrow]
  exact List.length_replicate

/-- The VM, with a memory that reads as ones and takes every write. -/
def withOnes (api : VMApi V) : VMApi V :=
  { api with
    readMem := fun _ size vm => (.ok ⟨List.replicate size.toNat 1, List.length_replicate⟩, vm)
    writeMem := fun _ _ _ vm => (.ok (), vm) }

/-- A stopped program. -/
def stoppedDb : Debugger UpdateInfos := { scriptedDb with state := .stopped }

end Debugger

end Odb
