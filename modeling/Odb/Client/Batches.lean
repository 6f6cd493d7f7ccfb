import Odb.Client.Cut
import Odb.Mess.Malformed

/-!
# Batches of any length

A batch of `n` elements is sent as the one of its first `n % 65536`, and a block of names as the one
of its first bytes.

* `ImplCall.Batch`: the ten calls on batches, with the arrays that a caller owes them.
* `ImplCall.each`: what the call asks the debugger for, one element after the other.
* `ImplCall.Transmitted`, `ImplCall.Whole`: the server reads the elements of the call, exactly as
  given, and the call does what they do; or it throws.
* `ImplCall.Request.transmitted_iff`, `ImplCall.Request.undefined`: which batches are.
-/

namespace Odb

open Prog Serial Wire DataClientHandler

/-! ## Batches -/

/-- One element of a batch. -/
inductive Elem where
  | reg (id : VmReg) (size : VmSize)
  | regVal (id : VmReg) (val : Bytes)
  | regInfos (id : VmReg)
  | regName (name : CStr)
  | block (addr : VmPtr) (size : VmSize)
  | blockVal (addr : VmPtr) (val : Bytes)
  | sym (id : VmSym)
  | symName (name : CStr)
  | addBkp (addr : VmPtr)
  | delBkp (addr : VmPtr)

/-- The elements that a request asks the server for. -/
def Req.elements : {ty : ReqType} → Req ty → List Elem
  | .getRegs, r => r.ids.map fun id => .reg id r.size
  | .getRegsVar, r => List.zipWith .reg r.ids r.sizes
  | .setRegs, r => List.zipWith .regVal r.ids r.bufs
  | .setRegsVar, r => List.zipWith .regVal r.ids r.bufs
  | .getRegsInfos, r => r.ids.map .regInfos
  | .findRegsIds, r => r.names.map .regName
  | .readMem, r => r.ids.map fun addr => .block addr r.size
  | .readMemVar, r => List.zipWith .block r.ids r.sizes
  | .writeMem, r => List.zipWith .blockVal r.ids r.bufs
  | .writeMemVar, r => List.zipWith .blockVal r.ids r.bufs
  | .getSymsByIds, r => r.ids.map .sym
  | .getSymsByNames, r => r.names.map .symName
  | .addBkps, r => r.inAddrs.map .addBkp
  | .delBkps, r => r.inAddrs.map .delBkp
  | .connect, _ | .stop, _ | .checkStopped, _ | .getSymsByAddr, _ | .getCodeText, _ | .resume, _
  | .err, _ => []

/-- The sizes of `n` registers that a caller declares by `regs_size`: the first is the size of all
where there is no other, or 0 follows it. -/
def declaredSizes (n : Nat) (regsSize : List VmSize) : List VmSize :=
  if n < 2 ∨ regsSize[1]? = some 0 then List.replicate n (regsSize.headD 0) else regsSize

namespace ImplCall

/-- The elements of a call. -/
def elements : {α : Type} → ImplCall α → List Elem
  | _, .getRegs ids _ regsSize => List.zipWith .reg ids (declaredSizes ids.length regsSize)
  | _, .setRegs ids inBufs _ => List.zipWith .regVal ids inBufs
  | _, .getRegsInfos ids _ => ids.map .regInfos
  | _, .findRegsIds regNames _ => regNames.map .regName
  | _, .readMem srcAddrs bufsSizes _ => List.zipWith .block srcAddrs bufsSizes
  | _, .writeMem dstAddrs _ inBufs => List.zipWith .blockVal dstAddrs inBufs
  | _, .getSymbolsByIds ids _ => ids.map .sym
  | _, .getSymbolsByNames names _ => names.map .symName
  | _, .addBreakpoints addrs => addrs.map .addBkp
  | _, .delBreakpoints addrs => addrs.map .delBkp
  | _, .connect _ | _, .stop | _, .checkStopped _ | _, .getSymbolsByAddr _ _ | _, .getCodeText _ _
  | _, .resume _ => []

/-- The names of a call. -/
def names : {α : Type} → ImplCall α → List CStr
  | _, .findRegsIds regNames _ => regNames
  | _, .getSymbolsByNames names _ => names
  | _, _ => []

end ImplCall

/-- The buffers of a batch are as long as declared. -/
structure BatchBufs (n : Nat) (sizes : List VmSize) (bufs : List Bytes) : Prop where
  len : sizes.length = n
  bufs : bufs.map List.length = sizes.map UInt64.toNat

/-- An output for every element, which an object can hold. -/
structure BatchOuts {I : Type} (fits : I → Prop) (n : Nat) (outs : List I) : Prop where
  len : outs.length = n
  fits : ∀ x ∈ outs, fits x

namespace ImplCall

/-- The ten calls on a batch, of any length: the arrays are as long as the count that is passed. -/
def Batch : {α : Type} → ImplCall α → Prop
  | _, .getRegs ids outBufs regsSize =>
    (ids ≠ [] → regsSize ≠ []) ∧ BatchBufs ids.length (declaredSizes ids.length regsSize) outBufs
  | _, .setRegs ids inBufs regsSize =>
    (ids ≠ [] → regsSize ≠ []) ∧ BatchBufs ids.length (declaredSizes ids.length regsSize) inBufs
  | _, .getRegsInfos ids outInfos =>
    BatchOuts (fun x => LawfulSerial.Fits x.name) ids.length outInfos
  | _, .findRegsIds regNames outIds => BatchOuts (fun _ => True) regNames.length outIds
  | _, .readMem srcAddrs bufsSizes outBufs => BatchBufs srcAddrs.length bufsSizes outBufs
  | _, .writeMem dstAddrs bufsSizes inBufs => BatchBufs dstAddrs.length bufsSizes inBufs
  | _, .getSymbolsByIds ids outInfos => BatchOuts LawfulSerial.Fits ids.length outInfos
  | _, .getSymbolsByNames names outInfos => BatchOuts LawfulSerial.Fits names.length outInfos
  | _, .addBreakpoints _ | _, .delBreakpoints _ => True
  | _, .connect _ | _, .stop | _, .checkStopped _ | _, .getSymbolsByAddr _ _ | _, .getCodeText _ _
  | _, .resume _ => False

/-- The bytes of all buffers of a call. -/
def total : {α : Type} → ImplCall α → Nat
  | _, .getRegs ids _ regsSize | _, .setRegs ids _ regsSize =>
    ((declaredSizes ids.length regsSize).map UInt64.toNat).sum
  | _, .readMem _ bufsSizes _ | _, .writeMem _ bufsSizes _ => (bufsSizes.map UInt64.toNat).sum
  | _, _ => 0

/-- The value of a register in a buffer of the size that the caller declares. -/
def readReg {V : Type} (api : VMApi V) (id : VmReg) (size : VmSize) : DbM V Bytes := do
  let val ← Debugger.getReg api id
  Prog.lift (VMSide.overwrite (blanks UInt8 size.toNat) val)

/-- What the elements of a batch ask the debugger for, one after the other, exactly as given. -/
def each {V : Type} (api : VMApi V) : {α : Type} → ImplCall α → DbM V α
  | _, .getRegs ids _ regsSize =>
    (ids.zip (declaredSizes ids.length regsSize)).mapM fun p => readReg api p.1 p.2
  | _, .setRegs ids inBufs _ => (ids.zip inBufs).forM fun p => Debugger.setReg api p.1 p.2
  | _, .getRegsInfos ids _ => ids.mapM (Debugger.getRegInfos api)
  | _, .findRegsIds regNames _ => regNames.mapM fun name => Debugger.findRegId api name.1
  | _, .readMem srcAddrs bufsSizes _ => (srcAddrs.zip bufsSizes).mapM fun p => do
    let block ← Debugger.readMem api p.1 p.2
    return block.1
  | _, .writeMem dstAddrs bufsSizes inBufs => ((dstAddrs.zip inBufs).zip bufsSizes).forM fun p =>
    Debugger.writeMem api p.1.1 p.2 p.1.2
  | _, .getSymbolsByIds ids _ => ids.mapM (Debugger.getSymbolInfos api)
  | _, .getSymbolsByNames names _ => names.mapM fun name => do
    Debugger.getSymbolInfos api (← Debugger.findSymId api name.1)
  | _, .addBreakpoints addrs => addrs.forM Debugger.addBreakpoint
  | _, .delBreakpoints addrs => addrs.forM Debugger.delBreakpoint
  -- the other calls are no batches
  | _, _ => throw .undefined

/-- What a call hands to the data client. -/
def sends {α : Type} (call : ImplCall α) : List Bytes :=
  ((DataClient.impl (fun req => modify (· ++ [req]) >>= fun _ => throw .stdException) call).on []).2

/-- The server reads the elements of the call, exactly as given. -/
def Transmitted {α : Type} (udp : DBClientUpdate) (call : ImplCall α) : Prop :=
  call.elements = [] ∨ ∃ ty word, ∃ r₀ r : Req ty, ∃ rest,
    call.sends = [ty.toByte :: word] ∧ fresh udp ty = some r₀ ∧
      (rh.serverReadRequest r₀).on word = (.ok r, rest) ∧ r.elements = call.elements

/-- Whatever the VM, the debugger and the buffers are: the call throws a `VMApi::Error`, or the
server reads all of its elements and the call does and returns what they do, one after the other. -/
def Whole {α : Type} (call : ImplCall α) : Prop :=
  ∀ (V : Type) (api : VMApi V) (udp : DBClientUpdate) (s : Remote V),
    (∃ msg, ((Remote.impl api udp call).on s).1 = .error (.vmError msg)) ∨
      call.Transmitted udp ∧
        Remote.Refines call.Fits call.sent (call.each api) (Remote.impl api udp call) s.db

/-- As many bytes as the names take in their block. -/
def blockSize (names : List CStr) : Nat := (names.map fun s => s.1.length + 1).sum

/-- The count, and the length of the block of names, fit in 16 bits. -/
def Fits16 {α : Type} (call : ImplCall α) : Prop :=
  call.elements.length < 65536 ∧ blockSize call.names < 65536

/-- Addresses that no debugger accepts as breakpoints: one is named twice, or outside of every
memory. -/
def Unacceptable (addrs : List VmPtr) : Prop :=
  ¬ addrs.Nodup ∨ UInt64.ofNat (2 ^ 64 - 1) ∈ addrs

/-- Breakpoints of which those that the count reaches are refused. -/
def Refused : {α : Type} → ImplCall α → Prop
  | _, .addBreakpoints addrs | _, .delBreakpoints addrs =>
    Unacceptable (addrs.take (addrs.length % 65536))
  | _, _ => False

end ImplCall

/-! ## The request of a batch -/

namespace Req

variable {ty : ReqType}

/-- Its count of elements. -/
def count : {ty : ReqType} → Req ty → Nat
  | .getRegs, r | .setRegs, r | .readMem, r | .writeMem, r => r.n.toNat
  | .getRegsVar, r | .setRegsVar, r | .readMemVar, r | .writeMemVar, r => r.n.toNat
  | .getRegsInfos, r | .getSymsByIds, r => r.n.toNat
  | .findRegsIds, r | .getSymsByNames, r => r.n.toNat
  | .addBkps, r | .delBkps, r => r.size.toNat
  | .connect, _ | .stop, _ | .checkStopped, _ | .getSymsByAddr, _ | .getCodeText, _ | .resume, _
  | .err, _ => 0

def sentNames : {ty : ReqType} → Req ty → List CStr
  | .findRegsIds, r => ReqByNames.names r
  | .getSymsByNames, r => ReqByNames.names r
  | _, _ => []

def Refused : {ty : ReqType} → Req ty → Prop
  | .addBkps, r => ImplCall.Unacceptable r.inAddrs
  | .delBkps, r => ImplCall.Unacceptable r.inAddrs
  | _, _ => False

theorem cut_elements (r : Req ty) : r.cut.elements = r.elements.take r.count := by
  cases ty with
  | getRegs | readMem | getRegsInfos | findRegsIds | getSymsByIds | getSymsByNames | addBkps
  | delBkps => exact List.map_take
  | getRegsVar | setRegs | setRegsVar | readMemVar | writeMem | writeMemVar =>
    exact List.take_zipWith.symm
  | connect | stop | checkStopped | getSymsByAddr | getCodeText | resume | err => rfl
  | other => exact r.elim

/-- The server asks for what it has read. -/
theorem received_elements (r r₀ : Req ty) : (r.received r₀).elements = r.elements := by
  cases ty with
  | other => exact r.elim
  | _ => rfl

end Req

/-- The call sends the request `r`. -/
structure ImplCall.Request {α : Type} (call : ImplCall α) {ty : ReqType} (r : Req ty) : Prop where
  impl : ∃ out : Req ty → α, ∀ (σ : Type) (exchange : Bytes → Prog Fault σ Bytes),
    DataClient.impl exchange call = DataClient.sendReq exchange r >>= fun req => pure (out req)
  elements : r.elements = call.elements
  names : r.sentNames = call.names
  count : r.count = call.elements.length % 65536
  counted : ImplCall.blockSize r.cut.sentNames < 65536 → r.cut.Counted
  total : call.elements.length < 65536 → r.cut.total = call.total
  refused : call.Refused ↔ r.cut.Refused
  handled : ty ≠ .stop ∧ ty ≠ .readMem ∧ ty ≠ .writeMem
  fresh : ∀ udp, ∃ r₀, fresh udp ty = some r₀

namespace ImplCall

theorem toNat_narrow (n : Nat) : n.toUInt16.toNat = n % 65536 := UInt16.toNat_ofNat'

section Shaped

variable {K I : Type} {ids : List K} {sizes : List VmSize} {bufs : List Bytes} {fits : I → Prop}

theorem BatchBufs.take {n : Nat} (h : BatchBufs n sizes bufs) (k : Nat) :
    (bufs.take k).map List.length = (sizes.take k).map UInt64.toNat := by
  rw [List.map_take, h.bufs, List.map_take]

theorem fixed_cut_counted {s : VmSize}
    (h : BatchBufs ids.length (List.replicate ids.length s) bufs) :
    (ReqFixed.cut ⟨ids.length.toUInt16, s, ids, bufs⟩).Counted := by
  have hle : ids.length % 65536 ≤ ids.length := Nat.mod_le ..
  have hbufs := BatchBufs.take h (ids.length % 65536)
  rw [List.take_replicate, Nat.min_eq_left hle, List.map_replicate] at hbufs
  refine ⟨?_, ?_, fun row hrow => ?_⟩
  all_goals simp only [ReqFixed.cut, toNat_narrow] at *
  · exact List.length_take_of_le hle
  · simpa using congrArg List.length hbufs
  · have : row.length ∈ List.replicate (ids.length % 65536) s.toNat :=
      hbufs ▸ List.mem_map_of_mem hrow
    exact List.eq_of_mem_replicate this

theorem fixed_cut_total {s : VmSize} (h : ids.length < 65536) :
    (ReqFixed.cut ⟨ids.length.toUInt16, s, ids, bufs⟩).total =
      ((List.replicate ids.length s).map UInt64.toNat).sum := by
  simp only [ReqFixed.cut, ReqFixed.total, toNat_narrow]
  rw [Nat.mod_eq_of_lt h, List.map_replicate, List.sum_replicate_nat]

theorem var_cut_counted (h : BatchBufs ids.length sizes bufs) :
    (ReqVar.cut ⟨ids.length.toUInt16, ids, sizes, bufs⟩).Counted := by
  have hle : ids.length % 65536 ≤ ids.length := Nat.mod_le ..
  have hbufs := BatchBufs.take h (ids.length % 65536)
  refine ⟨?_, ?_, ?_⟩
  all_goals simp only [ReqVar.cut, toNat_narrow]
  · exact List.length_take_of_le hle
  · exact List.length_take_of_le (h.len ▸ hle)
  · exact hbufs

theorem var_cut_total (hlen : sizes.length = ids.length) (h : ids.length < 65536) :
    (ReqVar.cut ⟨ids.length.toUInt16, ids, sizes, bufs⟩).total = (sizes.map UInt64.toNat).sum := by
  simp only [ReqVar.cut, ReqVar.total, toNat_narrow]
  rw [Nat.mod_eq_of_lt h, ← hlen, List.take_length]

theorem byIds_cut_shaped {outs : List I} (h : BatchOuts fits ids.length outs) :
    (ReqByIds.cut ⟨ids.length.toUInt16, ids, outs⟩).Shaped fits := by
  have hle : ids.length % 65536 ≤ ids.length := Nat.mod_le ..
  refine ⟨?_, ?_, fun x hx => h.fits x (List.mem_of_mem_take hx)⟩
  all_goals simp only [ReqByIds.cut, toNat_narrow]
  · exact List.length_take_of_le hle
  · exact List.length_take_of_le (h.len ▸ hle)

theorem byNames_cut_shaped {names : List CStr} {outs : List I}
    (h : BatchOuts fits names.length outs)
    (htotal : blockSize (names.take (names.length % 65536)) < 65536) :
    (ReqByNames.cut ⟨names.length.toUInt16, names, outs⟩).Shaped fits := by
  have hle : names.length % 65536 ≤ names.length := Nat.mod_le ..
  refine ⟨?_, ?_, ?_, fun x hx => h.fits x (List.mem_of_mem_take hx)⟩
  all_goals simp only [ReqByNames.cut, toNat_narrow]
  · exact List.length_take_of_le hle
  · exact Nat.le_of_lt_succ htotal
  · exact List.length_take_of_le (h.len ▸ hle)

end Shaped

/-- Which request `get_regs` and `set_regs` send for declared sizes. -/
theorem declaredSizes_cases {n : Nat} {regsSize : List VmSize} (hne : regsSize ≠ [])
    (hlen : (declaredSizes n regsSize).length = n) :
    (∃ s, DataClient.oneSize regsSize n = .ok true ∧ DataClient.sizeAt regsSize 0 = .ok s ∧
      declaredSizes n regsSize = List.replicate n s) ∨
    (DataClient.oneSize regsSize n = .ok false ∧ declaredSizes n regsSize = regsSize) := by
  obtain ⟨s, rest, rfl⟩ := List.exists_cons_of_ne_nil hne
  by_cases hone : n < 2 ∨ (s :: rest)[1]? = some 0
  · refine .inl ⟨s, ?_, rfl, if_pos hone⟩
    unfold DataClient.oneSize DataClient.sizeAt
    split
    · rfl
    · rw [hone.resolve_left ‹_›]
      rfl
  · have hsizes : declaredSizes n (s :: rest) = s :: rest := if_neg hone
    rw [not_or] at hone
    rw [hsizes] at hlen
    refine .inr ⟨?_, hsizes⟩
    obtain _ | ⟨t, rest⟩ := rest
    · rw [List.length_singleton] at hlen
      omega
    · have ht : t ≠ 0 := fun h => hone.2 (by rw [h]; rfl)
      unfold DataClient.oneSize DataClient.sizeAt
      rw [if_neg hone.1]
      simp [Except.map, ht]

section Requests

variable {K I : Type} {fits : I → Prop}

theorem length_zipWith_declared {f : K → VmSize → Elem} {ids : List K} {sizes : List VmSize}
    {bufs : List Bytes} (h : BatchBufs ids.length sizes bufs) :
    (List.zipWith f ids sizes).length = ids.length := by
  rw [List.length_zipWith, h.len, Nat.min_self]

theorem length_zipWith_bufs {f : K → Bytes → Elem} {ids : List K} {sizes : List VmSize}
    {bufs : List Bytes} (h : BatchBufs ids.length sizes bufs) :
    (List.zipWith f ids bufs).length = ids.length := by
  have hlen : bufs.length = sizes.length := by simpa using congrArg List.length h.bufs
  rw [List.length_zipWith, hlen, h.len, Nat.min_self]

theorem zipWith_one_size (f : K → VmSize → Elem) (ids : List K) (s : VmSize) :
    ids.map (fun id => f id s) = List.zipWith f ids (List.replicate ids.length s) := by
  induction ids with
  | nil => rfl
  | cons id ids ih => rw [List.map_cons, List.length_cons, List.replicate_succ, List.zipWith, ih]

theorem getRegs_request {ids : List VmReg} {bufs : List Bytes} {regsSize : List VmSize}
    (hids : ids ≠ []) (hsize : regsSize ≠ [])
    (h : BatchBufs ids.length (declaredSizes ids.length regsSize) bufs) :
    ∃ ty, ∃ r : Req ty, (getRegs ids bufs regsSize).Request r := by
  have hne : ids.length ≠ 0 := fun h => hids (List.length_eq_zero_iff.mp h)
  have hcount : (getRegs ids bufs regsSize).elements.length = ids.length :=
    length_zipWith_declared h
  rcases declaredSizes_cases hsize h.len with ⟨s, hone, hat, hs⟩ | ⟨hone, hs⟩
  · refine ⟨.getRegs, ⟨ids.length.toUInt16, s, ids, bufs⟩, ⟨fun req => req.bufs, fun σ exchange => ?_⟩,
      ?_, rfl, ?_, fun _ => fixed_cut_counted (hs ▸ h),
      fun hn => (fixed_cut_total (hcount ▸ hn)).trans (by rw [← hs]; rfl), .rfl,
      ⟨nofun, nofun, nofun⟩, fun _ => ⟨_, rfl⟩⟩
    · show DataClient.getRegs exchange ids bufs regsSize = _
      rw [DataClient.getRegs, if_neg hne, hone, hat]
      rfl
    · exact (zipWith_one_size Elem.reg ids s).trans (congrArg (List.zipWith Elem.reg ids) hs.symm)
    · rw [hcount]
      exact toNat_narrow _
  · rw [hs] at h
    refine ⟨.getRegsVar, ⟨ids.length.toUInt16, ids, regsSize, bufs⟩,
      ⟨fun req => req.bufs, fun σ exchange => ?_⟩, ?_, rfl, ?_, fun _ => var_cut_counted h,
      fun hn => (var_cut_total h.len (hcount ▸ hn)).trans (by rw [total, hs]), .rfl, ⟨nofun, nofun, nofun⟩, fun _ => ⟨_, rfl⟩⟩
    · show DataClient.getRegs exchange ids bufs regsSize = _
      rw [DataClient.getRegs, if_neg hne, hone]
      rfl
    · exact congrArg (List.zipWith Elem.reg ids) hs.symm
    · rw [hcount]
      exact toNat_narrow _

theorem setRegs_request {ids : List VmReg} {bufs : List Bytes} {regsSize : List VmSize}
    (hids : ids ≠ []) (hsize : regsSize ≠ [])
    (h : BatchBufs ids.length (declaredSizes ids.length regsSize) bufs) :
    ∃ ty, ∃ r : Req ty, (setRegs ids bufs regsSize).Request r := by
  have hne : ids.length ≠ 0 := fun h => hids (List.length_eq_zero_iff.mp h)
  have hcount : (setRegs ids bufs regsSize).elements.length = ids.length := length_zipWith_bufs h
  rcases declaredSizes_cases hsize h.len with ⟨s, hone, hat, hs⟩ | ⟨hone, hs⟩
  · refine ⟨.setRegs, ⟨ids.length.toUInt16, s, ids, bufs⟩, ⟨fun _ => (), fun σ exchange => ?_⟩,
      rfl, rfl, ?_, fun _ => fixed_cut_counted (hs ▸ h),
      fun hn => (fixed_cut_total (hcount ▸ hn)).trans (by rw [← hs]; rfl), .rfl,
      ⟨nofun, nofun, nofun⟩, fun _ => ⟨_, rfl⟩⟩
    · show DataClient.setRegs exchange ids bufs regsSize = _
      rw [DataClient.setRegs, if_neg hne, hone, hat]
      rfl
    · rw [hcount]
      exact toNat_narrow _
  · rw [hs] at h
    refine ⟨.setRegsVar, ⟨ids.length.toUInt16, ids, regsSize, bufs⟩,
      ⟨fun _ => (), fun σ exchange => ?_⟩, rfl, rfl, ?_, fun _ => var_cut_counted h,
      fun hn => (var_cut_total h.len (hcount ▸ hn)).trans (by rw [total, hs]), .rfl,
      ⟨nofun, nofun, nofun⟩, fun _ => ⟨_, rfl⟩⟩
    · show DataClient.setRegs exchange ids bufs regsSize = _
      rw [DataClient.setRegs, if_neg hne, hone]
      rfl
    · rw [hcount]
      exact toNat_narrow _

theorem toNat_map_length {β : Type} (f : β → Elem) (xs : List β) :
    xs.length.toUInt16.toNat = (xs.map f).length % 65536 := by
  rw [List.length_map, toNat_narrow]

theorem take_narrow {β : Type} (xs : List β) :
    xs.take xs.length.toUInt16.toNat = xs.take (xs.length % 65536) := by
  rw [toNat_narrow]

theorem addBreakpoints_request (addrs : List VmPtr) :
    @Request _ (addBreakpoints addrs) .addBkps ⟨addrs.length.toUInt16, addrs⟩ where
  impl := ⟨_, fun _ _ => rfl⟩
  elements := rfl
  names := rfl
  count := toNat_map_length _ addrs
  counted _ := List.length_take_of_le (toNat_narrow _ ▸ Nat.mod_le ..)
  total _ := rfl
  refused := iff_of_eq (congrArg Unacceptable (take_narrow addrs).symm)
  handled := ⟨nofun, nofun, nofun⟩
  fresh _ := ⟨_, rfl⟩

/-- A batch with an element sends one request, whose count is narrowed. -/
theorem exists_request {α : Type} {call : ImplCall α} (h : call.Batch) (hne : call.elements ≠ []) :
    ∃ ty, ∃ r : Req ty, call.Request r := by
  cases call with
  | connect | stop | checkStopped | getSymbolsByAddr | getCodeText | resume => exact h.elim
  | getRegs ids bufs regsSize =>
    have hids : ids ≠ [] := by
      rintro rfl
      exact hne rfl
    exact getRegs_request hids (h.1 hids) h.2
  | setRegs ids bufs regsSize =>
    have hids : ids ≠ [] := by
      rintro rfl
      exact hne rfl
    exact setRegs_request hids (h.1 hids) h.2
  | getRegsInfos ids outs =>
    exact ⟨.getRegsInfos, ⟨ids.length.toUInt16, ids, outs⟩, ⟨_, fun _ _ => rfl⟩, rfl, rfl,
      toNat_map_length _ ids, fun _ => byIds_cut_shaped h, fun _ => rfl, .rfl, ⟨nofun, nofun, nofun⟩, fun _ => ⟨_, rfl⟩⟩
  | getSymbolsByIds ids outs =>
    exact ⟨.getSymsByIds, ⟨ids.length.toUInt16, ids, outs⟩, ⟨_, fun _ _ => rfl⟩, rfl, rfl,
      toNat_map_length _ ids, fun _ => byIds_cut_shaped h, fun _ => rfl, .rfl, ⟨nofun, nofun, nofun⟩, fun _ => ⟨_, rfl⟩⟩
  | findRegsIds names outs =>
    exact ⟨.findRegsIds, ⟨names.length.toUInt16, names, outs⟩, ⟨_, fun _ _ => rfl⟩, rfl, rfl,
      toNat_map_length _ names, fun ht => byNames_cut_shaped h (take_narrow names ▸ ht), fun _ => rfl,
      .rfl,
      ⟨nofun, nofun, nofun⟩, fun _ => ⟨_, rfl⟩⟩
  | getSymbolsByNames names outs =>
    exact ⟨.getSymsByNames, ⟨names.length.toUInt16, names, outs⟩, ⟨_, fun _ _ => rfl⟩, rfl, rfl,
      toNat_map_length _ names, fun ht => byNames_cut_shaped h (take_narrow names ▸ ht), fun _ => rfl,
      .rfl,
      ⟨nofun, nofun, nofun⟩, fun _ => ⟨_, rfl⟩⟩
  | readMem addrs sizes bufs =>
    have haddrs : addrs.length ≠ 0 := by
      rintro hz
      obtain rfl := List.length_eq_zero_iff.mp hz
      exact hne rfl
    refine ⟨.readMemVar, ⟨addrs.length.toUInt16, addrs, sizes, bufs⟩,
      ⟨fun req => req.bufs, fun σ exchange => ?_⟩, rfl, rfl, ?_, fun _ => var_cut_counted h,
      fun hn => var_cut_total h.len (length_zipWith_declared h ▸ hn), .rfl, ⟨nofun, nofun, nofun⟩, fun _ => ⟨_, rfl⟩⟩
    · show DataClient.readMem exchange addrs sizes bufs = _
      rw [DataClient.readMem, if_neg haddrs]
    · exact (toNat_narrow _).trans (congrArg (· % 65536) (length_zipWith_declared h).symm)
  | writeMem addrs sizes bufs =>
    have haddrs : addrs.length ≠ 0 := by
      rintro hz
      obtain rfl := List.length_eq_zero_iff.mp hz
      exact hne rfl
    refine ⟨.writeMemVar, ⟨addrs.length.toUInt16, addrs, sizes, bufs⟩,
      ⟨fun _ => (), fun σ exchange => ?_⟩, rfl, rfl, ?_, fun _ => var_cut_counted h,
      fun hn => var_cut_total h.len (length_zipWith_bufs h ▸ hn), .rfl, ⟨nofun, nofun, nofun⟩, fun _ => ⟨_, rfl⟩⟩
    · show DataClient.writeMem exchange addrs sizes bufs = _
      rw [DataClient.writeMem, if_neg haddrs]
    · exact (toNat_narrow _).trans (congrArg (· % 65536) (length_zipWith_bufs h).symm)
  | addBreakpoints addrs => exact ⟨.addBkps, _, addBreakpoints_request addrs⟩
  | delBreakpoints addrs =>
    refine ⟨.delBkps, ⟨addrs.length.toUInt16, addrs⟩, ⟨_, fun _ _ => rfl⟩, rfl, rfl,
      toNat_map_length _ addrs, fun _ => ?_, fun _ => rfl, ?_, ⟨nofun, nofun, nofun⟩,
      fun _ => ⟨_, rfl⟩⟩
    · exact List.length_take_of_le (toNat_narrow _ ▸ Nat.mod_le ..)
    · exact iff_of_eq (congrArg Unacceptable (take_narrow addrs).symm)

end Requests

/-! ## What the server reads -/

section Reads

variable {α : Type} {call : ImplCall α} {ty : ReqType} {r : Req ty}

theorem Request.sends_eq (hr : call.Request r) {os : Bytes} (h : DataClient.request r = .ok os) :
    call.sends = [os] := by
  obtain ⟨out, himpl⟩ := hr.impl
  unfold sends
  rw [himpl]
  unfold DataClient.sendReq
  rw [h]
  rfl

/-- The request is cut where its count ends. -/
theorem request_of_cut {word : Bytes}
    (h : ∀ out, (DataClient.rh.clientWriteRequest r.cut).on out = (.ok r.cut, out ++ word)) :
    DataClient.request r = .ok (ty.toByte :: word) :=
  (DataClient.request_cut r).symm.trans (request_eq h)

theorem names_le (h : call.Batch) : call.names.length ≤ call.elements.length := by
  cases call with
  | findRegsIds | getSymbolsByNames => exact Nat.le_of_eq (List.length_map _).symm
  | _ => exact Nat.zero_le _

theorem cut_names (r : Req ty) : r.cut.sentNames = r.sentNames.take r.count := by
  cases ty with
  | findRegsIds | getSymsByNames => rfl
  | other => exact r.elim
  | _ => exact List.take_nil.symm

theorem blockSize_take (names : List CStr) (n : Nat) : blockSize (names.take n) ≤ blockSize names := by
  have hsplit := congrArg blockSize (List.take_append_drop n names)
  unfold blockSize at hsplit ⊢
  rw [List.map_append, List.sum_append_nat] at hsplit
  omega

/-- What a transmitted call is read from: its only request. -/
theorem Request.read_of_transmitted (hr : call.Request r) (hne : call.elements ≠ []) {word : Bytes}
    (hreq : DataClient.request r = .ok (ty.toByte :: word)) {udp : DBClientUpdate} {r₀ : Req ty}
    (hr₀ : DataClientHandler.fresh udp ty = some r₀) (h : call.Transmitted udp) :
    ∃ r' rest, (rh.serverReadRequest r₀).on word = (.ok r', rest) ∧ r'.elements = call.elements := by
  obtain hnil | ⟨ty', word', r₀', r', rest, hsends, hr₀', hread, helems⟩ := h
  · exact absurd hnil hne
  rw [hr.sends_eq hreq, List.singleton_inj, List.cons.injEq] at hsends
  obtain ⟨hty, rfl⟩ := hsends
  obtain rfl : ty = ty' := by rw [← ReqType.ofByte_toByte ty, hty, ReqType.ofByte_toByte]
  obtain rfl := Option.some.inj (hr₀.symm.trans hr₀')
  exact ⟨r', rest, hread, helems⟩

/-- What the count reaches, where its names fit in their block and its rows in an object. -/
theorem Request.roomy (hr : call.Request r) (hblock : blockSize r.cut.sentNames < 65536)
    (hroom : r.cut.total ≤ maxBytes) : r.cut.Roomy :=
  ⟨(hr.counted hblock).shaped (Remote.lt_of_room hroom), hroom⟩

/-- Where the names that the count reaches fit in their block and the rows in an object, the server
reads the call if its count fits. -/
theorem Request.transmitted_iff (hr : call.Request r) (hcall : call.Batch) (hne : call.elements ≠ [])
    (hblock : blockSize r.cut.sentNames < 65536) (hroom : r.cut.total ≤ maxBytes)
    (udp : DBClientUpdate) : call.Transmitted udp ↔ call.Fits16 := by
  obtain ⟨r₀, hr₀⟩ := hr.fresh udp
  obtain ⟨word, hw, hread⟩ := RequestHandler.carries_request r₀ (hr.roomy hblock hroom)
  have hread := hread []
  rw [List.append_nil] at hread
  have helems : (r.cut.received r₀).elements =
      call.elements.take (call.elements.length % 65536) := by
    rw [Req.received_elements, Req.cut_elements, hr.elements, hr.count]
  have htake : call.elements.take (call.elements.length % 65536) = call.elements ↔
      call.elements.length < 65536 := by
    refine ⟨fun h => ?_, fun h => List.take_of_length_le (Nat.le_of_eq (Nat.mod_eq_of_lt h).symm)⟩
    have hlen := congrArg List.length h
    rw [List.length_take] at hlen
    omega
  constructor
  · intro h
    obtain ⟨r', rest, hread', helems'⟩ := hr.read_of_transmitted hne (request_of_cut hw) hr₀ h
    obtain rfl := Except.ok.inj (congrArg Prod.fst (hread.symm.trans hread'))
    have hlt := htake.mp (helems.symm.trans helems')
    refine ⟨hlt, ?_⟩
    rw [cut_names, hr.names, hr.count, List.take_of_length_le] at hblock
    · exact hblock
    · have := names_le hcall
      omega
  · intro h
    exact .inr ⟨ty, word, r₀, _, [], hr.sends_eq (request_of_cut hw), hr₀, hread,
      helems.trans (htake.mpr h.1)⟩

/-- A block of names from which the end is missing. -/
theorem count_zero_take (names : List CStr) {k : Nat} (hk : k < blockSize names) :
    (((names.map fun s => s.1 ++ [0]).flatten).take k).count 0 < names.length := by
  have hcount (names : List CStr) :
      ((names.map fun s => s.1 ++ [0]).flatten).count 0 = names.length := by
    induction names with
    | nil => rfl
    | cons s names ih =>
      rw [List.map_cons, List.flatten_cons, List.count_append, List.count_append, ih,
        List.count_eq_zero_of_not_mem s.2, List.count_singleton_self, List.length_cons]
      omega
  rcases List.eq_nil_or_concat names with rfl | ⟨init, s, rfl⟩
  · exact absurd hk (Nat.not_lt_zero k)
  rw [List.concat_eq_append] at hk ⊢
  -- the last terminator is the last byte
  have hblock : ((init ++ [s]).map fun s => s.1 ++ [0]).flatten =
      ((init.map fun s => s.1 ++ [0]).flatten ++ s.1) ++ [0] := by simp
  have hlen : blockSize (init ++ [s]) =
      ((init.map fun s => s.1 ++ [0]).flatten ++ s.1).length + 1 := by
    rw [blockSize, List.length_append, List.length_flatten, List.map_append, List.sum_append_nat]
    simp [Function.comp_def, Nat.add_assoc]
  rw [hblock, List.take_append_of_le_length (by omega)]
  refine Nat.lt_of_le_of_lt ((List.take_sublist k _).count_le 0) ?_
  rw [List.count_append, hcount, List.count_eq_zero_of_not_mem s.2, List.length_append,
    List.length_singleton]
  exact Nat.lt_succ_self _

theorem undefined_of_names {I : Type} [Serial I] {r : ReqByNames I}
    (hlen : r.names.length = r.n.toNat) (hlong : 65536 ≤ blockSize r.names) (r₀ : ReqByNames I) :
    ∃ word rest, (∀ out, (r.prepare .cliSend).on out = (.ok r, out ++ word)) ∧
      (r₀.prepare .servRecv).on word = (.error .undefined, rest) := by
  have hitems : itemsAt r.names r.n.toUInt64.toNat = .ok r.names := by
    rw [toNat_count, ← hlen]
    exact itemsAt_self r.names
  have hblock : ((r.names.map fun s => s.1 ++ [0]).flatten).length = blockSize r.names := by
    rw [List.length_flatten, List.map_map, blockSize]
    simp [Function.comp_def]
  obtain ⟨u, hu, hu'⟩ := objectIn_request r₀.n (x := r.n) trivial
  obtain ⟨v, hv, hv'⟩ := LawfulSerial.carries (blockSize r.names).toUInt16 (0 : UInt16) trivial
  have hk : (blockSize r.names).toUInt16.toNat < blockSize r.names := by
    rw [toNat_narrow]
    omega
  refine ⟨u ++ (v ++ (r.names.map fun s => s.1 ++ [0]).flatten),
    ((r.names.map fun s => s.1 ++ [0]).flatten).drop (blockSize r.names).toUInt16.toNat,
    fun out => ?_, ?_⟩
  · unfold ReqByNames.prepare
    rw [on_bind_ok (hu out)]
    simp only [buffer2dInCstr, hitems, lift_ok, pure_bind, bind_assoc]
    rw [← blockSize, on_bind_ok (hv _)]
    simp only [SerialOutBuff.write, forM_put]
    rw [on_bind_ok (on_put _ _), List.append_assoc, List.append_assoc]
    rfl
  · unfold ReqByNames.prepare
    rw [on_bind_ok (hu' _)]
    simp only [buffer2dInCstr, bind_assoc]
    rw [on_bind_ok (hv' _)]
    have hread : (SerialInBuff.read (blockSize r.names).toUInt16.toNat).on
        (r.names.map fun s => s.1 ++ [0]).flatten = (.ok _, _) := if_pos (by omega)
    have hspec := dirBufCstr_spec r.n.toUInt64.toNat
      (((r.names.map fun s => s.1 ++ [0]).flatten).take (blockSize r.names).toUInt16.toNat)
    rw [if_neg] at hspec
    · rw [on_bind_ok hread, hspec]
      rfl
    · have := count_zero_take r.names hk
      rw [toNat_count]
      omega

theorem names_length (h : call.Batch) (hne : call.names ≠ []) :
    call.names.length = call.elements.length := by
  cases call with
  | findRegsIds | getSymbolsByNames => exact (List.length_map _).symm
  | _ => exact absurd rfl hne

/-- Where the names do not fit in their block, the server reads beyond it. -/
theorem Request.undefined (hr : call.Request r) (hcall : call.Batch)
    (hlong : 65536 ≤ blockSize r.cut.sentNames) (r₀ : Req ty) :
    ∃ word rest, DataClient.request r = .ok (ty.toByte :: word) ∧
      (rh.serverReadRequest r₀).on word = (.error .undefined, rest) := by
  have hne : call.names ≠ [] := by
    intro h
    rw [cut_names, hr.names, h, List.take_nil] at hlong
    exact absurd hlong (by decide)
  have hlen : r.cut.sentNames.length = r.count := by
    rw [cut_names, List.length_take, hr.names, hr.count, names_length hcall hne]
    exact Nat.min_eq_left (Nat.mod_le ..)
  have hword {word : Bytes} (h : ∀ out, (prepareRequest .cliSend r.cut).on out =
      (.ok r.cut, out ++ word)) : DataClient.request r = .ok (ty.toByte :: word) :=
    request_of_cut h
  cases ty with
  | findRegsIds | getSymsByNames =>
    obtain ⟨word, rest, hw, hread⟩ := undefined_of_names hlen hlong r₀
    exact ⟨word, rest, hword hw, hread⟩
  | other => exact r.elim
  | _ => exact absurd (show 65536 ≤ blockSize [] from hlong) (by decide)

end Reads

end ImplCall

end Odb
