import Odb.Mess.Request

/-!
# What a request and its response carry

`Req.Shaped`: the arrays of a request have the lengths that its count and size fields announce, and
its strings and vectors are ones a C++ object can hold. `Req.received` is what the server then has
after it reads a request, `Req.answered` what the client has after it reads the response.

* `Req.roundTrip`: both sides agree, whatever bytes follow, for every type of request.
* `Req.received_shaped`: what the server reads is shaped as announced, its output arrays included.
-/

namespace Odb

open Prog Serial LawfulSerial

/-! ## Shapes -/

section Shapes

variable {K I : Type}

/-- The bytes of all rows. -/
def ReqFixed.total (r : ReqFixed K) : Nat := r.n.toNat * r.size.toNat

def ReqVar.total (r : ReqVar K) : Nat := (r.sizes.map UInt64.toNat).sum

/-- As many ids and rows as announced, each row of the announced size. -/
structure ReqFixed.Counted (r : ReqFixed K) : Prop where
  ids : r.ids.length = r.n.toNat
  bufs : r.bufs.length = r.n.toNat
  rows : ∀ row ∈ r.bufs, row.length = r.size.toNat

structure ReqVar.Counted (r : ReqVar K) : Prop where
  ids : r.ids.length = r.n.toNat
  sizes : r.sizes.length = r.n.toNat
  rows : r.bufs.map List.length = r.sizes.map UInt64.toNat

structure ReqFixed.Shaped (r : ReqFixed K) : Prop extends r.Counted where
  total : r.total < UInt64.size

structure ReqVar.Shaped (r : ReqVar K) : Prop extends r.Counted where
  total : r.total < UInt64.size

/-- `fits` holds of the items an output array can hold. -/
structure ReqByIds.Shaped (fits : I → Prop) (r : ReqByIds K I) : Prop where
  ids : r.ids.length = r.n.toNat
  outs : r.outs.length = r.n.toNat
  fits : ∀ x ∈ r.outs, fits x

structure ReqByNames.Shaped (fits : I → Prop) (r : ReqByNames I) : Prop where
  names : r.names.length = r.n.toNat
  /-- The total size of the names, terminators included, fits in 16 bits. -/
  total : (r.names.map fun s => s.1.length + 1).sum ≤ 65535
  outs : r.outs.length = r.n.toNat
  fits : ∀ x ∈ r.outs, fits x

/-- The arrays have the announced lengths, the strings and vectors can exist. -/
def Req.Shaped : {ty : ReqType} → Req ty → Prop
  | .connect, r => Fits r.outInfos ∧ Fits r.outUdp
  | .stop, _ => True
  | .checkStopped, r => Fits r.outUdp
  | .getRegs, r | .setRegs, r => ReqFixed.Shaped r
  | .getRegsVar, r | .setRegsVar, r => ReqVar.Shaped r
  | .getRegsInfos, r => ReqByIds.Shaped (fun x => Fits x.name) r
  | .findRegsIds, r => ReqByNames.Shaped (fun _ => True) r
  | .readMem, r | .writeMem, r => ReqFixed.Shaped r
  | .readMemVar, r | .writeMemVar, r => ReqVar.Shaped r
  | .getSymsByIds, r => ReqByIds.Shaped Fits r
  | .getSymsByAddr, r => Fits r.outInfos
  | .getSymsByNames, r => ReqByNames.Shaped Fits r
  | .getCodeText, r => Fits r.outText ∧ Fits r.outSizes
  | .addBkps, r | .delBkps, r => r.inAddrs.length = r.size.toNat
  | .resume, _ => True
  | .err, r => Fits r.msg

/-- As `Req.Shaped`, however many bytes the rows have together. -/
def Req.Counted : {ty : ReqType} → Req ty → Prop
  | .getRegs, r | .setRegs, r => ReqFixed.Counted r
  | .getRegsVar, r | .setRegsVar, r => ReqVar.Counted r
  | .readMem, r | .writeMem, r => ReqFixed.Counted r
  | .readMemVar, r | .writeMemVar, r => ReqVar.Counted r
  | _, r => r.Shaped

/-- The bytes of the rows of a request; the others have none. -/
def Req.total : {ty : ReqType} → Req ty → Nat
  | .getRegs, r | .setRegs, r => ReqFixed.total r
  | .getRegsVar, r | .setRegsVar, r => ReqVar.total r
  | .readMem, r | .writeMem, r => ReqFixed.total r
  | .readMemVar, r | .writeMemVar, r => ReqVar.total r
  | _, _ => 0

/-- A request whose rows a buffer of the server can hold. -/
structure Req.Roomy {ty : ReqType} (r : Req ty) : Prop where
  shaped : r.Shaped
  room : r.total ≤ maxBytes

/-- Both announce arrays of the same lengths. -/
def Req.SameCounts : {ty : ReqType} → Req ty → Req ty → Prop
  | .getRegs, r, s | .setRegs, r, s => r.n = s.n ∧ r.size = s.size
  | .readMem, r, s | .writeMem, r, s => r.n = s.n ∧ r.size = s.size
  | .getRegsVar, r, s | .setRegsVar, r, s => r.n = s.n ∧ r.sizes = s.sizes
  | .readMemVar, r, s | .writeMemVar, r, s => r.n = s.n ∧ r.sizes = s.sizes
  | .getRegsInfos, r, s | .getSymsByIds, r, s => r.n = s.n
  | .findRegsIds, r, s | .getSymsByNames, r, s => r.n = s.n
  | .connect, _, _ | .stop, _, _ | .checkStopped, _, _ | .getSymsByAddr, _, _
  | .getCodeText, _, _ | .addBkps, _, _ | .delBkps, _, _ | .resume, _, _ | .err, _, _ => True

end Shapes

/-! ## What each side has read -/

section Read

variable {K I : Type}

/-- The buffers that the server makes for `n` outputs of one size. -/
def ReqFixed.blankBufs (r : ReqFixed K) : List Bytes :=
  List.replicate r.n.toNat (blanks UInt8 r.size.toNat)

/-- The buffers that the server makes for outputs of the given sizes. -/
def ReqVar.blankBufs (r : ReqVar K) : List Bytes :=
  r.sizes.map fun size => blanks UInt8 size.toNat

/-- What the server has read of the request `r` into `r₀`: the inputs of `r`, new blank output
arrays; output objects stay what they were in `r₀`. -/
def Req.received : {ty : ReqType} → Req ty → Req ty → Req ty
  | .connect, _, r₀ => r₀
  | .stop, _, r₀ => r₀
  | .checkStopped, _, r₀ => r₀
  | .getRegs, r, _ | .readMem, r, _ => { r with bufs := r.blankBufs }
  | .getRegsVar, r, _ | .readMemVar, r, _ => { r with bufs := r.blankBufs }
  | .setRegs, r, _ | .writeMem, r, _ => r
  | .setRegsVar, r, _ | .writeMemVar, r, _ => r
  | .getRegsInfos, r, _ => { r with outs := blanks RegInfos r.n.toNat }
  | .findRegsIds, r, _ => { r with outs := blanks VmReg r.n.toNat }
  | .getSymsByIds, r, _ => { r with outs := blanks SymbolInfos r.n.toNat }
  | .getSymsByAddr, r, r₀ => { r with outInfos := r₀.outInfos }
  | .getSymsByNames, r, _ => { r with outs := blanks SymbolInfos r.n.toNat }
  | .getCodeText, r, r₀ => { r with outText := r₀.outText, outSizes := r₀.outSizes }
  | .addBkps, r, _ | .delBkps, r, _ => r
  | .resume, r, _ => r
  | .err, _, r₀ => r₀

/-- What the client with the request `r` has read of the response in `s`: its own inputs, the
outputs of `s`, but for the field `val` of register infos. -/
def Req.answered : {ty : ReqType} → Req ty → Req ty → Req ty
  | .connect, _, s => s
  | .stop, r, _ => r
  | .checkStopped, _, s => s
  | .getRegs, r, s | .readMem, r, s => { r with bufs := s.bufs }
  | .getRegsVar, r, s | .readMemVar, r, s => { r with bufs := s.bufs }
  | .setRegs, r, _ | .writeMem, r, _ => r
  | .setRegsVar, r, _ | .writeMemVar, r, _ => r
  | .getRegsInfos, r, s =>
    { r with outs := List.zipWith (fun x y => { x with val := y.val }) s.outs r.outs }
  | .findRegsIds, r, s => { r with outs := s.outs }
  | .getSymsByIds, r, s => { r with outs := s.outs }
  | .getSymsByAddr, r, s => { r with outInfos := s.outInfos }
  | .getSymsByNames, r, s => { r with outs := s.outs }
  | .getCodeText, r, s => { r with outText := s.outText, outSizes := s.outSizes }
  | .addBkps, r, _ | .delBkps, r, _ => r
  | .resume, r, _ => r
  | .err, _, s => s

end Read

/-! ## Output arrays as announced -/

section Announced

variable {K I : Type}

theorem ReqFixed.Shaped.blank {r : ReqFixed K} (h : r.Shaped) :
    ReqFixed.Shaped { r with bufs := r.blankBufs } where
  ids := h.ids
  bufs := List.length_replicate
  rows row hrow := by rw [List.eq_of_mem_replicate hrow, length_blanks]
  total := h.total

theorem ReqVar.Shaped.blank {r : ReqVar K} (h : r.Shaped) :
    ReqVar.Shaped { r with bufs := r.blankBufs } where
  ids := h.ids
  sizes := h.sizes
  rows := by simp [blankBufs, blanks]
  total := h.total

theorem ReqByIds.Shaped.blank [Serial I] {fits : I → Prop} {r : ReqByIds K I} (h : r.Shaped fits)
    (hblank : fits blank) : ReqByIds.Shaped fits { r with outs := blanks I r.n.toNat } where
  ids := h.ids
  outs := List.length_replicate
  fits _ hx := List.eq_of_mem_replicate hx ▸ hblank

theorem ReqByNames.Shaped.blank [Serial I] {fits : I → Prop} {r : ReqByNames I} (h : r.Shaped fits)
    (hblank : fits blank) : ReqByNames.Shaped fits { r with outs := blanks I r.n.toNat } where
  names := h.names
  total := h.total
  outs := List.length_replicate
  fits _ hx := List.eq_of_mem_replicate hx ▸ hblank

/-- What the server has read is shaped as the client announced. -/
theorem Req.received_shaped : {ty : ReqType} → (r r₀ : Req ty) → r.Shaped → r₀.Shaped →
    (r.received r₀).Shaped
  | .connect, _, _, _, h₀ | .stop, _, _, _, h₀ | .checkStopped, _, _, _, h₀ => h₀
  | .getRegs, _, _, h, _ | .readMem, _, _, h, _ => ReqFixed.Shaped.blank h
  | .getRegsVar, _, _, h, _ | .readMemVar, _, _, h, _ => ReqVar.Shaped.blank h
  | .setRegs, _, _, h, _ | .writeMem, _, _, h, _ => h
  | .setRegsVar, _, _, h, _ | .writeMemVar, _, _, h, _ => h
  | .getRegsInfos, _, _, h, _ => ReqByIds.Shaped.blank h (Nat.zero_le _)
  | .findRegsIds, _, _, h, _ => ReqByNames.Shaped.blank h trivial
  | .getSymsByIds, _, _, h, _ => ReqByIds.Shaped.blank h (Nat.zero_le _)
  | .getSymsByNames, _, _, h, _ => ReqByNames.Shaped.blank h (Nat.zero_le _)
  | .getSymsByAddr, _, _, _, h₀ | .getCodeText, _, _, _, h₀ => h₀
  | .addBkps, _, _, h, _ | .delBkps, _, _, h, _ => h
  | .resume, _, _, h, _ => h
  | .err, _, _, _, h₀ => h₀

theorem Req.received_sameCounts : {ty : ReqType} → (r r₀ : Req ty) → r.SameCounts (r.received r₀)
  | .getRegs, _, _ | .setRegs, _, _ | .readMem, _, _ | .writeMem, _, _ => ⟨rfl, rfl⟩
  | .getRegsVar, _, _ | .setRegsVar, _, _ | .readMemVar, _, _ | .writeMemVar, _, _ => ⟨rfl, rfl⟩
  | .getRegsInfos, _, _ | .getSymsByIds, _, _ | .findRegsIds, _, _ | .getSymsByNames, _, _ => rfl
  | .connect, _, _ | .stop, _, _ | .checkStopped, _, _ | .getSymsByAddr, _, _
  | .getCodeText, _, _ | .addBkps, _, _ | .delBkps, _, _ | .resume, _, _ | .err, _, _ => trivial

end Announced

/-! ## Sizes -/

section Sizes

variable {K : Type}

theorem toNat_fixedTotal (n : UInt16) (size : VmSize) :
    (n.toUInt64 * size).toNat = n.toNat * size.toNat % UInt64.size := by
  rw [UInt64.toNat_mul, toNat_count]

theorem toNat_foldl_mod (xs : List VmSize) (a : VmSize) :
    (xs.foldl (· + ·) a).toNat = (a.toNat + (xs.map UInt64.toNat).sum) % UInt64.size := by
  induction xs generalizing a with
  | nil => exact (Nat.mod_eq_of_lt a.toNat_lt).symm
  | cons x xs ih =>
    rw [List.foldl_cons, ih, UInt64.toNat_add, List.map_cons, List.sum_cons, ← Nat.add_assoc]
    exact Nat.mod_add_mod ..

theorem toNat_totalSize {n : UInt16} {sizes : List VmSize} (h : sizes.length = n.toNat) :
    (totalSize n.toUInt64 sizes).toNat = (sizes.map UInt64.toNat).sum % UInt64.size := by
  rw [totalSize, toNat_count, ← h, List.take_length, toNat_foldl_mod]
  exact congrArg (· % UInt64.size) (Nat.zero_add _)

theorem sum_rowSizes (n : UInt16) (size : VmSize) :
    (rowSizes n.toUInt64 size).sum = n.toNat * size.toNat := by
  rw [rowSizes, toNat_count, List.sum_replicate_nat]

theorem rowSizesVar_eq {n : UInt16} {sizes : List VmSize} (h : sizes.length = n.toNat) :
    rowSizesVar n.toUInt64 sizes = .ok (sizes.map UInt64.toNat) := by
  rw [rowSizesVar, toNat_count, ← h, itemsAt_self]
  rfl

theorem ReqFixed.Counted.rowSizes {r : ReqFixed K} (h : r.Counted) :
    Odb.rowSizes r.n.toUInt64 r.size = r.bufs.map List.length := by
  symm
  rw [Odb.rowSizes, toNat_count, List.eq_replicate_iff, List.length_map]
  refine ⟨h.bufs, fun n hn => ?_⟩
  obtain ⟨row, hrow, rfl⟩ := List.mem_map.mp hn
  exact h.rows row hrow

theorem ReqFixed.Counted.rows_sum {r : ReqFixed K} (h : r.Counted) :
    (r.bufs.map List.length).sum = r.total := by
  rw [← h.rowSizes, sum_rowSizes, total]

theorem ReqFixed.Shaped.total_eq {r : ReqFixed K} (h : r.Shaped) :
    (r.n.toUInt64 * r.size).toNat = r.total := by
  rw [toNat_fixedTotal]
  exact Nat.mod_eq_of_lt h.total

theorem ReqVar.Counted.rowSizes {r : ReqVar K} (h : r.Counted) :
    rowSizesVar r.n.toUInt64 r.sizes = .ok (r.bufs.map List.length) := by
  rw [rowSizesVar_eq h.sizes, h.rows]

theorem ReqVar.Counted.rows_sum {r : ReqVar K} (h : r.Counted) :
    (r.bufs.map List.length).sum = r.total := by
  rw [h.rows, total]

theorem ReqVar.Shaped.total_eq {r : ReqVar K} (h : r.Shaped) :
    (totalSize r.n.toUInt64 r.sizes).toNat = r.total := by
  rw [toNat_totalSize h.sizes]
  exact Nat.mod_eq_of_lt h.total

end Sizes

/-! ## The request -/

section Request

variable {K I : Type} [Serial K] [LawfulSerial K] [Serial I]

theorem ReqFixed.request {op : Mode → List Bytes → VmSize → VmSize → BuffM (List Bytes)}
    {r : ReqFixed K} (r₀ : ReqFixed K) {bufs : List Bytes} (h : r.Counted)
    (hids : ∀ x ∈ r.ids, Fits x)
    (hop : Carries (op .cliSend r.bufs r.n.toUInt64 r.size)
      (op .servRecv r₀.bufs r.n.toUInt64 r.size) r.bufs bufs) :
    Carries (r.prepare .cliSend op) (r₀.prepare .servRecv op) r { r with bufs } :=
  (objectIn_request r₀.n trivial).bind <|
  (objectIn_request r₀.size trivial).bind <|
  (bufferIn_request r₀.ids h.ids hids).bind <|
  hop.bind <| .ret _ _

/-- `n` bytes can be made. -/
theorem room_bytes {n : Nat} (h : n ≤ maxBytes) : n * sizeof UInt8 ≤ maxBytes :=
  (Nat.mul_one n).le.trans h

theorem ReqFixed.request_out {r : ReqFixed K} (r₀ : ReqFixed K) (h : r.Shaped)
    (hroom : r.total ≤ maxBytes) (hids : ∀ x ∈ r.ids, Fits x) :
    Carries (r.prepare .cliSend buffer2dOut) (r₀.prepare .servRecv buffer2dOut) r
      { r with bufs := r.blankBufs } := by
  have hbufs : (Odb.rowSizes r.n.toUInt64 r.size).map (blanks UInt8) = r.blankBufs := by
    rw [Odb.rowSizes, List.map_replicate, toNat_count, blankBufs]
  have htotal := h.total_eq
  have := bufferRowsOut_request r.bufs r₀.bufs rfl ((sum_rowSizes r.n r.size).trans htotal.symm)
    (room_bytes (htotal.le.trans hroom))
  rw [hbufs] at this
  exact ReqFixed.request r₀ h.toCounted hids this

theorem ReqFixed.request_in {r : ReqFixed K} (r₀ : ReqFixed K) (h : r.Shaped)
    (hroom : r.total ≤ maxBytes) (hids : ∀ x ∈ r.ids, Fits x) :
    Carries (r.prepare .cliSend buffer2dIn) (r₀.prepare .servRecv buffer2dIn) r r := by
  have htotal := h.total_eq
  exact ReqFixed.request r₀ h.toCounted hids <| bufferRowsIn_request r₀.bufs (congrArg _ h.rowSizes)
    (h.rows_sum.trans htotal.symm) (room_bytes (htotal.le.trans hroom)) fun _ _ _ _ => trivial

theorem ReqVar.request {op : Mode → List Bytes → VmSize → List VmSize → BuffM (List Bytes)}
    {r : ReqVar K} (r₀ : ReqVar K) {bufs : List Bytes} (h : r.Counted) (hids : ∀ x ∈ r.ids, Fits x)
    (hop : Carries (op .cliSend r.bufs r.n.toUInt64 r.sizes)
      (op .servRecv r₀.bufs r.n.toUInt64 r.sizes) r.bufs bufs) :
    Carries (r.prepare .cliSend op) (r₀.prepare .servRecv op) r { r with bufs } :=
  (objectIn_request r₀.n trivial).bind <|
  (bufferIn_request r₀.ids h.ids hids).bind <|
  (bufferIn_request r₀.sizes h.sizes fun _ _ => trivial).bind <|
  hop.bind <| .ret _ _

theorem ReqVar.request_out {r : ReqVar K} (r₀ : ReqVar K) (h : r.Shaped)
    (hroom : r.total ≤ maxBytes) (hids : ∀ x ∈ r.ids, Fits x) :
    Carries (r.prepare .cliSend buffer2dvarOut) (r₀.prepare .servRecv buffer2dvarOut) r
      { r with bufs := r.blankBufs } := by
  have hbufs : (r.sizes.map UInt64.toNat).map (blanks UInt8) = r.blankBufs := by
    rw [List.map_map]
    rfl
  have htotal := h.total_eq
  have := bufferRowsOut_request r.bufs r₀.bufs (rowSizesVar_eq h.sizes) htotal.symm
    (room_bytes (htotal.le.trans hroom))
  rw [hbufs] at this
  exact ReqVar.request r₀ h.toCounted hids this

theorem ReqVar.request_in {r : ReqVar K} (r₀ : ReqVar K) (h : r.Shaped)
    (hroom : r.total ≤ maxBytes) (hids : ∀ x ∈ r.ids, Fits x) :
    Carries (r.prepare .cliSend buffer2dvarIn) (r₀.prepare .servRecv buffer2dvarIn) r r := by
  have htotal := h.total_eq
  exact ReqVar.request r₀ h.toCounted hids <| bufferRowsIn_request r₀.bufs h.rowSizes
    (h.rows_sum.trans htotal.symm) (room_bytes (htotal.le.trans hroom)) fun _ _ _ _ => trivial

theorem ReqByIds.request {fits : I → Prop} {r : ReqByIds K I} (r₀ : ReqByIds K I)
    (h : r.Shaped fits) (hids : ∀ x ∈ r.ids, Fits x) :
    Carries (r.prepare .cliSend) (r₀.prepare .servRecv) r
      { r with outs := blanks I r.n.toNat } := by
  exact (objectIn_request r₀.n trivial).bind <|
    (bufferIn_request r₀.ids h.ids hids).bind <|
    (bufferOut_request r.outs r₀.outs r.n).bind <| .ret _ _

theorem ReqByNames.request {fits : I → Prop} {r : ReqByNames I} (r₀ : ReqByNames I)
    (h : r.Shaped fits) :
    Carries (r.prepare .cliSend) (r₀.prepare .servRecv) r
      { r with outs := blanks I r.n.toNat } := by
  exact (objectIn_request r₀.n trivial).bind <|
    (buffer2dInCstr_request r₀.names (h.names.trans (toNat_count _).symm)
      (Nat.lt_succ_of_le h.total)).bind <|
    (bufferOut_request r.outs r₀.outs r.n).bind <| .ret _ _

/-- The server reads a request as the client wrote it. -/
theorem Req.request : {ty : ReqType} → (r r₀ : Req ty) → r.Shaped → r.total ≤ maxBytes →
    Carries (prepareRequest .cliSend r) (prepareRequest .servRecv r₀) r (r.received r₀)
  | .connect, r, r₀, _, _ =>
    (objectOut_request r.outInfos r₀.outInfos).bind <|
    (objectOut_request r.outUdp r₀.outUdp).bind <| .ret _ _
  | .stop, _, _, _, _ => .ret _ _
  | .checkStopped, r, r₀, _, _ => (objectOut_request r.outUdp r₀.outUdp).bind <| .ret _ _
  | .getRegs, _, r₀, h, hroom => ReqFixed.request_out r₀ h hroom fun _ _ => trivial
  | .getRegsVar, _, r₀, h, hroom => ReqVar.request_out r₀ h hroom fun _ _ => trivial
  | .setRegs, _, r₀, h, hroom => ReqFixed.request_in r₀ h hroom fun _ _ => trivial
  | .setRegsVar, _, r₀, h, hroom => ReqVar.request_in r₀ h hroom fun _ _ => trivial
  | .getRegsInfos, _, r₀, h, _ => ReqByIds.request r₀ h fun _ _ => trivial
  | .findRegsIds, _, r₀, h, _ => ReqByNames.request r₀ h
  | .readMem, _, r₀, h, hroom => ReqFixed.request_out r₀ h hroom fun _ _ => trivial
  | .readMemVar, _, r₀, h, hroom => ReqVar.request_out r₀ h hroom fun _ _ => trivial
  | .writeMem, _, r₀, h, hroom => ReqFixed.request_in r₀ h hroom fun _ _ => trivial
  | .writeMemVar, _, r₀, h, hroom => ReqVar.request_in r₀ h hroom fun _ _ => trivial
  | .getSymsByIds, _, r₀, h, _ => ReqByIds.request r₀ h fun _ _ => trivial
  | .getSymsByAddr, r, r₀, _, _ =>
    (objectIn_request r₀.addr trivial).bind <|
    (objectIn_request r₀.size trivial).bind <|
    (objectOut_request r.outInfos r₀.outInfos).bind <| .ret _ _
  | .getSymsByNames, _, r₀, h, _ => ReqByNames.request r₀ h
  | .getCodeText, r, r₀, _, _ =>
    (objectIn_request r₀.addr trivial).bind <|
    (objectIn_request r₀.nins trivial).bind <|
    (objectOut_request r.outText r₀.outText).bind <|
    (objectOut_request r.outSizes r₀.outSizes).bind <| .ret _ _
  | .addBkps, _, r₀, h, _ | .delBkps, _, r₀, h, _ =>
    (objectIn_request r₀.size trivial).bind <|
    (bufferIn_request r₀.inAddrs h fun _ _ => trivial).bind <| .ret _ _
  | .resume, _, r₀, _, _ => (objectIn_request r₀.type trivial).bind <| .ret _ _
  | .err, r, r₀, _, _ => (objectOut_request r.msg r₀.msg).bind <| .ret _ _

end Request

/-! ## Rows larger than any object -/

section Refused

variable {K : Type} [Serial K] [LawfulSerial K]

theorem ReqFixed.refused {op : Mode → List Bytes → VmSize → VmSize → BuffM (List Bytes)}
    {r : ReqFixed K} (r₀ : ReqFixed K) {E : Fault → Prop} (h : r.Counted)
    (hids : ∀ x ∈ r.ids, Fits x)
    (hop : Breaks (op .cliSend r.bufs r.n.toUInt64 r.size)
      (op .servRecv r₀.bufs r.n.toUInt64 r.size) r.bufs E) :
    Breaks (r.prepare .cliSend op) (r₀.prepare .servRecv op) r E :=
  .after (objectIn_request r₀.n trivial) <|
  .after (objectIn_request r₀.size trivial) <|
  .after (bufferIn_request r₀.ids h.ids hids) <| hop.last _

theorem ReqVar.refused {op : Mode → List Bytes → VmSize → List VmSize → BuffM (List Bytes)}
    {r : ReqVar K} (r₀ : ReqVar K) {E : Fault → Prop} (h : r.Counted)
    (hids : ∀ x ∈ r.ids, Fits x)
    (hop : Breaks (op .cliSend r.bufs r.n.toUInt64 r.sizes)
      (op .servRecv r₀.bufs r.n.toUInt64 r.sizes) r.bufs E) :
    Breaks (r.prepare .cliSend op) (r₀.prepare .servRecv op) r E :=
  .after (objectIn_request r₀.n trivial) <|
  .after (bufferIn_request r₀.ids h.ids hids) <|
  .after (bufferIn_request r₀.sizes h.sizes fun _ _ => trivial) <| hop.last _

/-- How the decoding of rows of `total` bytes ends that no buffer can hold: the buffer is too large,
or, where the total wraps around, too small. -/
def RowsFault (total : Nat) (e : Fault) : Prop :=
  e = .stdException ∧ maxBytes < total % UInt64.size ∨
    e = .undefined ∧ total % UInt64.size < total

theorem rows_refused {total : Nat} (h : maxBytes < total) :
    maxBytes < total % UInt64.size ∨ total % UInt64.size < total := by
  by_cases hlt : total < UInt64.size
  · exact .inl (by rwa [Nat.mod_eq_of_lt hlt])
  · exact .inr (Nat.lt_of_lt_of_le (Nat.mod_lt _ (by decide)) (Nat.le_of_not_lt hlt))

theorem ReqFixed.refused_out {r : ReqFixed K} (r₀ : ReqFixed K) (h : r.Counted)
    (hids : ∀ x ∈ r.ids, Fits x) (hroom : maxBytes < r.total) :
    Breaks (r.prepare .cliSend buffer2dOut) (r₀.prepare .servRecv buffer2dOut) r
      (RowsFault r.total) := by
  have hout := @bufferRowsOut_refused r.bufs r₀.bufs (r.n.toUInt64 * r.size) _
    (Odb.rowSizes r.n.toUInt64 r.size) rfl
  rw [toNat_fixedTotal, sum_rowSizes] at hout
  exact ReqFixed.refused r₀ h hids (hout (rows_refused hroom))

theorem ReqFixed.refused_in {r : ReqFixed K} (r₀ : ReqFixed K) (h : r.Counted)
    (hids : ∀ x ∈ r.ids, Fits x) (hroom : maxBytes < r.total) :
    Breaks (r.prepare .cliSend buffer2dIn) (r₀.prepare .servRecv buffer2dIn) r
      (RowsFault r.total) := by
  have hin := @bufferRowsIn_refused r.bufs r₀.bufs (r.n.toUInt64 * r.size) _
    (congrArg Except.ok h.rowSizes)
  rw [toNat_fixedTotal, h.rows_sum] at hin
  exact ReqFixed.refused r₀ h hids (hin (rows_refused hroom))

theorem ReqVar.refused_out {r : ReqVar K} (r₀ : ReqVar K) (h : r.Counted)
    (hids : ∀ x ∈ r.ids, Fits x) (hroom : maxBytes < r.total) :
    Breaks (r.prepare .cliSend buffer2dvarOut) (r₀.prepare .servRecv buffer2dvarOut) r
      (RowsFault r.total) := by
  have hout := @bufferRowsOut_refused r.bufs r₀.bufs (totalSize r.n.toUInt64 r.sizes) _ _
    (rowSizesVar_eq h.sizes)
  rw [toNat_totalSize h.sizes] at hout
  exact ReqVar.refused r₀ h hids (hout (rows_refused hroom))

theorem ReqVar.refused_in {r : ReqVar K} (r₀ : ReqVar K) (h : r.Counted)
    (hids : ∀ x ∈ r.ids, Fits x) (hroom : maxBytes < r.total) :
    Breaks (r.prepare .cliSend buffer2dvarIn) (r₀.prepare .servRecv buffer2dvarIn) r
      (RowsFault r.total) := by
  have hin := @bufferRowsIn_refused r.bufs r₀.bufs (totalSize r.n.toUInt64 r.sizes) _ h.rowSizes
  rw [toNat_totalSize h.sizes, h.rows_sum] at hin
  exact ReqVar.refused r₀ h hids (hin (rows_refused hroom))

end Refused

/-- The server does not read a request whose rows no buffer can hold. -/
theorem Req.refused {ty : ReqType} (r r₀ : Req ty) (h : r.Counted) (hroom : maxBytes < r.total) :
    Breaks (prepareRequest .cliSend r) (prepareRequest .servRecv r₀) r (RowsFault r.total) := by
  cases ty with
  | getRegs | readMem => exact ReqFixed.refused_out r₀ h (fun _ _ => trivial) hroom
  | getRegsVar | readMemVar => exact ReqVar.refused_out r₀ h (fun _ _ => trivial) hroom
  | setRegs | writeMem => exact ReqFixed.refused_in r₀ h (fun _ _ => trivial) hroom
  | setRegsVar | writeMemVar => exact ReqVar.refused_in r₀ h (fun _ _ => trivial) hroom
  | _ => exact absurd hroom (Nat.not_lt_zero _)

/-! ## The response -/

section Response

variable {K I : Type} [Serial K] [Serial I]

theorem ReqFixed.response {op : Mode → List Bytes → VmSize → VmSize → BuffM (List Bytes)}
    {r s : ReqFixed K} {bufs : List Bytes} (hn : r.n = s.n) (hsize : r.size = s.size)
    (hop : Carries (op .servSend s.bufs s.n.toUInt64 s.size)
      (op .cliRecv r.bufs s.n.toUInt64 s.size) s.bufs bufs) :
    Carries (s.prepare .servSend op) (r.prepare .cliRecv op) s { r with bufs } := by
  rw [← hn, ← hsize] at hop
  refine (objectIn_response s.n r.n).bind ((objectIn_response s.size r.size).bind ?_)
  refine (bufferIn_response s.ids r.ids s.n.toUInt64 r.n.toUInt64).bind ?_
  rw [← hn, ← hsize]
  refine hop.bind ?_
  rw [hn, hsize]
  exact .ret s _

theorem ReqFixed.response_out {r s : ReqFixed K} (hr : r.Shaped) (hs : s.Shaped) (hn : r.n = s.n)
    (hsize : r.size = s.size) :
    Carries (s.prepare .servSend buffer2dOut) (r.prepare .cliRecv buffer2dOut) s
      { r with bufs := s.bufs } := by
  have hold : r.bufs.map List.length = s.bufs.map List.length := by
    rw [← hr.rowSizes, ← hs.rowSizes, hn, hsize]
  exact ReqFixed.response hn hsize <|
    bufferRowsOut_response (congrArg _ hs.rowSizes) hold fun _ _ _ _ => trivial

theorem ReqFixed.response_in {r s : ReqFixed K} (hn : r.n = s.n) (hsize : r.size = s.size) :
    Carries (s.prepare .servSend buffer2dIn) (r.prepare .cliRecv buffer2dIn) s r :=
  ReqFixed.response hn hsize (bufferRowsIn_response ..)

theorem ReqVar.response {op : Mode → List Bytes → VmSize → List VmSize → BuffM (List Bytes)}
    {r s : ReqVar K} {bufs : List Bytes} (hn : r.n = s.n) (hsizes : r.sizes = s.sizes)
    (hop : Carries (op .servSend s.bufs s.n.toUInt64 s.sizes)
      (op .cliRecv r.bufs s.n.toUInt64 s.sizes) s.bufs bufs) :
    Carries (s.prepare .servSend op) (r.prepare .cliRecv op) s { r with bufs } := by
  refine (objectIn_response s.n r.n).bind ?_
  refine (bufferIn_response s.ids r.ids s.n.toUInt64 r.n.toUInt64).bind ?_
  refine (bufferIn_response s.sizes r.sizes s.n.toUInt64 r.n.toUInt64).bind ?_
  rw [hn, hsizes]
  exact hop.bind (.ret s _)

theorem ReqVar.response_out {r s : ReqVar K} (hr : r.Shaped) (hs : s.Shaped) (hn : r.n = s.n)
    (hsizes : r.sizes = s.sizes) :
    Carries (s.prepare .servSend buffer2dvarOut) (r.prepare .cliRecv buffer2dvarOut) s
      { r with bufs := s.bufs } := by
  have hold : r.bufs.map List.length = s.bufs.map List.length := by rw [hr.rows, hs.rows, hsizes]
  exact ReqVar.response hn hsizes <|
    bufferRowsOut_response (by rw [hs.rowSizes, hs.rows]) hold fun _ _ _ _ => trivial

theorem ReqVar.response_in {r s : ReqVar K} (hn : r.n = s.n) (hsizes : r.sizes = s.sizes) :
    Carries (s.prepare .servSend buffer2dvarIn) (r.prepare .cliRecv buffer2dvarIn) s r :=
  ReqVar.response hn hsizes (bufferRowsIn_response ..)

theorem ReqByIds.response {r s : ReqByIds K I} {outs : List I} (hn : r.n = s.n)
    (houts : Carries (bufferOut .servSend s.outs s.n.toUInt64)
      (bufferOut .cliRecv r.outs s.n.toUInt64) s.outs outs) :
    Carries (s.prepare .servSend) (r.prepare .cliRecv) s { r with outs } := by
  refine (objectIn_response s.n r.n).bind ?_
  refine (bufferIn_response s.ids r.ids s.n.toUInt64 r.n.toUInt64).bind ?_
  rw [hn]
  exact houts.bind (.ret s _)

theorem ReqByNames.response [LawfulSerial I] {fits : I → Prop} {r s : ReqByNames I}
    (hr : r.Shaped fits) (hs : s.Shaped fits) (hn : r.n = s.n) (h : ∀ x, fits x → Fits x) :
    Carries (s.prepare .servSend) (r.prepare .cliRecv) s { r with outs := s.outs } := by
  have houts : Carries (bufferOut .servSend s.outs s.n.toUInt64)
      (bufferOut .cliRecv r.outs s.n.toUInt64) s.outs s.outs :=
    bufferOut_response_exact (hs.outs.trans (toNat_count _).symm)
      (hr.outs.trans (hn ▸ (toNat_count _).symm)) fun x hx => h x (hs.fits x hx)
  refine (objectIn_response s.n r.n).bind ?_
  refine (buffer2dInCstr_response s.names r.names s.n.toUInt64 r.n.toUInt64).bind ?_
  rw [hn]
  exact houts.bind (.ret s _)

/-- The field `val` of the infos stays the client's. -/
theorem ReqByIds.response_regs {r s : ReqByIds K RegInfos} (hn : r.n = s.n)
    (hr : r.Shaped fun x => Fits x.name) (hs : s.Shaped fun x => Fits x.name) :
    Carries (s.prepare .servSend) (r.prepare .cliRecv) s
      { r with outs := List.zipWith (fun x y => { x with val := y.val }) s.outs r.outs } :=
  ReqByIds.response hn <| bufferOut_response (hs.outs.trans (toNat_count _).symm)
    (hr.outs.trans (hn ▸ (toNat_count _).symm)) fun x hx y => x.carries y (hs.fits x hx)

theorem ReqByIds.response_exact [LawfulSerial I] {r s : ReqByIds K I} (hn : r.n = s.n)
    (hr : r.Shaped Fits) (hs : s.Shaped Fits) :
    Carries (s.prepare .servSend) (r.prepare .cliRecv) s { r with outs := s.outs } :=
  ReqByIds.response hn <| bufferOut_response_exact (hs.outs.trans (toNat_count _).symm)
    (hr.outs.trans (hn ▸ (toNat_count _).symm)) hs.fits

/-- The client reads a response as the server wrote it. -/
theorem Req.response : {ty : ReqType} → (r s : Req ty) → r.Shaped → s.Shaped → r.SameCounts s →
    Carries (prepareRequest .servSend s) (prepareRequest .cliRecv r) s (r.answered s)
  | .connect, r, _, _, hs, _ =>
    (objectOut_response r.outInfos hs.1).bind <|
    (objectOut_response r.outUdp hs.2).bind <| .ret _ _
  | .stop, r, s, _, _, _ => .ret s r
  | .checkStopped, r, _, _, hs, _ => (objectOut_response r.outUdp hs).bind <| .ret _ _
  | .getRegs, _, _, hr, hs, h => ReqFixed.response_out hr hs h.1 h.2
  | .getRegsVar, _, _, hr, hs, h => ReqVar.response_out hr hs h.1 h.2
  | .setRegs, _, _, _, _, h => ReqFixed.response_in h.1 h.2
  | .setRegsVar, _, _, _, _, h => ReqVar.response_in h.1 h.2
  | .getRegsInfos, _, _, hr, hs, h => ReqByIds.response_regs h hr hs
  | .findRegsIds, _, _, hr, hs, h => ReqByNames.response hr hs h fun _ _ => trivial
  | .readMem, _, _, hr, hs, h => ReqFixed.response_out hr hs h.1 h.2
  | .readMemVar, _, _, hr, hs, h => ReqVar.response_out hr hs h.1 h.2
  | .writeMem, _, _, _, _, h => ReqFixed.response_in h.1 h.2
  | .writeMemVar, _, _, _, _, h => ReqVar.response_in h.1 h.2
  | .getSymsByIds, _, _, hr, hs, h => ReqByIds.response_exact h hr hs
  | .getSymsByAddr, r, s, _, hs, _ =>
    (objectIn_response s.addr r.addr).bind <|
    (objectIn_response s.size r.size).bind <|
    (objectOut_response r.outInfos hs).bind <| .ret _ _
  | .getSymsByNames, _, _, hr, hs, h => ReqByNames.response hr hs h fun _ hx => hx
  | .getCodeText, r, s, _, hs, _ =>
    (objectIn_response s.addr r.addr).bind <|
    (objectIn_response s.nins r.nins).bind <|
    (objectOut_response r.outText hs.1).bind <|
    (objectOut_response r.outSizes hs.2).bind <| .ret _ _
  | .addBkps, r, s, _, _, _ | .delBkps, r, s, _, _, _ =>
    (objectIn_response s.size r.size).bind <|
    (bufferIn_response s.inAddrs r.inAddrs s.size.toUInt64 r.size.toUInt64).bind <| .ret _ _
  | .resume, r, s, _, _, _ => (objectIn_response s.type r.type).bind <| .ret _ _
  | .err, r, _, _, hs, _ => (objectOut_response r.msg hs).bind <| .ret _ _

end Response

namespace RequestHandler

variable {ty : ReqType}

theorem carries_request {r : Req ty} (r₀ : Req ty) (hr : r.Roomy) :
    Carries (clientWriteRequest ⟨false⟩ r) (serverReadRequest ⟨true⟩ r₀) r (r.received r₀) :=
  .write_ok rfl (.read_ok rfl (r.request r₀ hr.shaped hr.room))

theorem breaks_request {r : Req ty} (r₀ : Req ty) (hr : r.Counted) (hroom : maxBytes < r.total) :
    Breaks (clientWriteRequest ⟨false⟩ r) (serverReadRequest ⟨true⟩ r₀) r (RowsFault r.total) :=
  .write_ok rfl (.read_ok rfl (r.refused r₀ hr hroom))

theorem carries_response {r s : Req ty} (hr : r.Shaped) (hs : s.Shaped) (h : r.SameCounts s) :
    Carries (serverWriteResponse ⟨true⟩ s) (clientReadResponse ⟨false⟩ r) s (r.answered s) :=
  .write_ok rfl (.read_ok rfl (r.response s hr hs h))

end RequestHandler

theorem Req.Shaped.counted : {ty : ReqType} → {r : Req ty} → r.Shaped → r.Counted
  | .getRegs, _, h | .setRegs, _, h | .readMem, _, h | .writeMem, _, h => ReqFixed.Shaped.toCounted h
  | .getRegsVar, _, h | .setRegsVar, _, h | .readMemVar, _, h | .writeMemVar, _, h =>
    ReqVar.Shaped.toCounted h
  | .connect, _, h | .stop, _, h | .checkStopped, _, h | .getRegsInfos, _, h | .findRegsIds, _, h
  | .getSymsByIds, _, h | .getSymsByAddr, _, h | .getSymsByNames, _, h | .getCodeText, _, h
  | .addBkps, _, h | .delBkps, _, h | .resume, _, h | .err, _, h => h

theorem Req.Counted.shaped : {ty : ReqType} → {r : Req ty} → r.Counted → r.total < UInt64.size →
    r.Shaped
  | .getRegs, _, h, ht | .setRegs, _, h, ht | .readMem, _, h, ht | .writeMem, _, h, ht =>
    ReqFixed.Shaped.mk h ht
  | .getRegsVar, _, h, ht | .setRegsVar, _, h, ht | .readMemVar, _, h, ht
  | .writeMemVar, _, h, ht => ReqVar.Shaped.mk h ht
  | .connect, _, h, _ | .stop, _, h, _ | .checkStopped, _, h, _ | .getRegsInfos, _, h, _
  | .findRegsIds, _, h, _ | .getSymsByIds, _, h, _ | .getSymsByAddr, _, h, _
  | .getSymsByNames, _, h, _ | .getCodeText, _, h, _ | .addBkps, _, h, _ | .delBkps, _, h, _
  | .resume, _, h, _ | .err, _, h, _ => h

theorem Req.Shaped.total_lt : {ty : ReqType} → {r : Req ty} → r.Shaped → r.total < UInt64.size
  | .getRegs, _, h | .setRegs, _, h | .readMem, _, h | .writeMem, _, h => ReqFixed.Shaped.total h
  | .getRegsVar, _, h | .setRegsVar, _, h | .readMemVar, _, h | .writeMemVar, _, h =>
    ReqVar.Shaped.total h
  | .connect, _, _ | .stop, _, _ | .checkStopped, _, _ | .getRegsInfos, _, _ | .findRegsIds, _, _
  | .getSymsByIds, _, _ | .getSymsByAddr, _, _ | .getSymsByNames, _, _ | .getCodeText, _, _
  | .addBkps, _, _ | .delBkps, _, _ | .resume, _, _ | .err, _, _ => Nat.zero_lt_succ _

/-- The wire format: the server reads every request that its buffers can hold, and the client every
response, exactly as the other side wrote it, with output arrays as long as announced, whatever bytes
follow; a request with more bytes in its rows than an object can have is `std::bad_array_new_length`
on the server. -/
theorem Req.roundTrip {ty : ReqType} (r r₀ s : Req ty) (hr : r.Shaped) (hs : s.Shaped)
    (h : r.SameCounts s) :
    (r.total ≤ maxBytes → Carries (RequestHandler.clientWriteRequest ⟨false⟩ r)
      (RequestHandler.serverReadRequest ⟨true⟩ r₀) r (r.received r₀)) ∧
    (maxBytes < r.total → Breaks (RequestHandler.clientWriteRequest ⟨false⟩ r)
      (RequestHandler.serverReadRequest ⟨true⟩ r₀) r (· = .stdException)) ∧
    r.SameCounts (r.received r₀) ∧ (r₀.Shaped → (r.received r₀).Shaped) ∧
    Carries (RequestHandler.serverWriteResponse ⟨true⟩ s)
      (RequestHandler.clientReadResponse ⟨false⟩ r) s (r.answered s) := by
  refine ⟨fun hroom => RequestHandler.carries_request r₀ ⟨hr, hroom⟩, fun hroom => ?_, r.received_sameCounts r₀,
    r.received_shaped r₀ hr, RequestHandler.carries_response hr hs h⟩
  refine (RequestHandler.breaks_request r₀ hr.counted hroom).mono fun e he => ?_
  have hmod := Nat.mod_eq_of_lt hr.total_lt
  rcases he with ⟨rfl, -⟩ | ⟨-, hlt⟩
  · rfl
  · exact absurd hlt (by rw [hmod]; exact Nat.lt_irrefl _)

/-- The values of two registers of one and two bytes. -/
theorem Req.roundTrip_two :
    Carries
      (@RequestHandler.clientWriteRequest ⟨false⟩ .getRegsVar
        ⟨2, [7, 9], [1, 2], [[0xFF], [0xFF, 0xFF]]⟩)
      (@RequestHandler.serverReadRequest ⟨true⟩ .getRegsVar ⟨0, [], [], []⟩)
      ⟨2, [7, 9], [1, 2], [[0xFF], [0xFF, 0xFF]]⟩ ⟨2, [7, 9], [1, 2], [[0], [0, 0]]⟩ ∧
    Carries
      (@RequestHandler.serverWriteResponse ⟨true⟩ .getRegsVar
        ⟨2, [7, 9], [1, 2], [[5], [6, 7]]⟩)
      (@RequestHandler.clientReadResponse ⟨false⟩ .getRegsVar
        ⟨2, [7, 9], [1, 2], [[0xFF], [0xFF, 0xFF]]⟩)
      ⟨2, [7, 9], [1, 2], [[5], [6, 7]]⟩ ⟨2, [7, 9], [1, 2], [[5], [6, 7]]⟩ := by
  have h := @Req.roundTrip .getRegsVar ⟨2, [7, 9], [1, 2], [[0xFF], [0xFF, 0xFF]]⟩
    ⟨0, [], [], []⟩ ⟨2, [7, 9], [1, 2], [[5], [6, 7]]⟩ ⟨⟨rfl, rfl, rfl⟩, by decide⟩
    ⟨⟨rfl, rfl, rfl⟩, by decide⟩ ⟨rfl, rfl⟩
  exact ⟨h.1 (by decide), h.2.2.2.2⟩

/-- `READ_MEM_VAR` of two blocks of 2^62 bytes at address 0. -/
def Req.twoHuge : Req .readMemVar :=
  ⟨2, [0, 0], [0x4000000000000000, 0x4000000000000000],
    [List.replicate (2 ^ 62) 0, List.replicate (2 ^ 62) 0]⟩

/-- The server does not read a request for 2^63 bytes, whose sizes sum below 2^64. -/
theorem Req.twoHuge_refused : Req.twoHuge.Shaped ∧
    ¬ ∃ y, Carries (RequestHandler.clientWriteRequest ⟨false⟩ Req.twoHuge)
      (@RequestHandler.serverReadRequest ⟨true⟩ .readMemVar ⟨0, [], [], []⟩) Req.twoHuge y := by
  have hcounted : Req.twoHuge.Counted := by
    refine ⟨rfl, rfl, ?_⟩
    simp only [twoHuge, List.map_cons, List.length_replicate, List.map_nil]
    rfl
  refine ⟨⟨hcounted, by decide⟩, ?_⟩
  rintro ⟨y, hy⟩
  exact (RequestHandler.breaks_request _ hcounted (by decide)).not_carries hy

end Odb
