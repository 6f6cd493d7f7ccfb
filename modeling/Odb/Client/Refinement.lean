import Odb.Client.Remote
import Odb.Server.CallStack

/-!
# The remote client refines the in-process client

* `RegSizes`: every register has a size, which the VM reports and the debugger has cached.
* `ImplCall.Valid`: the arguments a caller may pass, counts and names fitting in 16 bits.
* `Remote.impl_refines`: every call but `stop`, on a stopped program.
* `Remote.getRegsInfos_val`: the field `val` of register infos does not come back.
-/

namespace Odb

open Prog DataClientHandler LawfulSerial

/-! ## Register sizes -/

section Sizes

variable {V : Type}

/-- The VM reports `size idx` as the size of the register `idx`, and keeps it when it is asked for
the value only. -/
structure VMApi.RegSizes (api : VMApi V) (size : VmReg → VmSize) : Prop where
  load : ∀ idx infos vm infos' vm',
    api.getReg idx infos false vm = (.ok infos', vm') → infos'.size = size idx
  val : ∀ idx infos vm infos' vm',
    api.getReg idx infos true vm = (.ok infos', vm') → infos'.size = infos.size

namespace Debugger

/-- The registers loaded so far have their sizes. -/
def RegSizes (size : VmReg → VmSize) (db : Debugger V) : Prop :=
  ∀ idx infos, db.mapRegs[idx]? = some infos → infos.size = size idx

variable {api : VMApi V} {size : VmReg → VmSize}

theorem spec_callVM {α : Type} {P : Debugger V → Prop} {Q : α → Debugger V → Prop}
    {f : V → Except Bytes α × V} (h : ∀ db a vm', P db → f db.vm = (.ok a, vm') →
      Q a { db with vm := vm' }) : Spec P (callVM f) Q fun _ _ => True := by
  intro db hdb
  rcases hf : f db.vm with ⟨_ | a, vm'⟩ <;> simp only [callVM, on_of, hf]
  · trivial
  · exact h db a vm' hdb hf

theorem loadReg_spec (hvm : api.RegSizes size) (id : VmReg) :
    Spec (RegSizes size) (loadReg api id) (fun _ => RegSizes size) fun _ _ => True := by
  intro db hdb
  unfold loadReg
  rw [on_bind_ok (on_get db)]
  by_cases hid : id ∈ db.mapRegs
  · rw [if_pos hid]
    exact hdb
  rw [if_neg hid]
  refine Spec.bind (Q := fun infos db => RegSizes size db ∧ infos.size = size id)
    (spec_callVM fun db infos vm' hdb h => ⟨hdb, hvm.load _ _ _ _ _ h⟩) (fun infos => ?_) db hdb
  rintro db ⟨hdb, hsize⟩
  rcases hval : resize maxBytes infos.val infos.size.toNat 0 with _ | val
  · trivial
  rw [on_bind_ok (on_lift _ _)]
  intro idx infos' hget
  simp only [Std.TreeMap.getElem?_insertIfNew] at hget
  split at hget
  · next h =>
    obtain rfl := Std.LawfulEqCmp.eq_of_compare h.1
    obtain rfl := Option.some.inj hget
    exact hsize
  · exact hdb idx infos' hget

/-- `_load_reg` leaves the register in the map, so what is found has its size. -/
theorem findReg_spec (idx : VmReg) :
    Spec (RegSizes size) (findReg idx : DbM V RegInfos)
      (fun infos db => RegSizes size db ∧ infos.size = size idx) fun _ _ => True := by
  intro db hdb
  unfold findReg
  rw [on_bind_ok (on_get db)]
  cases h : db.mapRegs[idx]? with
  | none => trivial
  | some infos => exact ⟨hdb, hdb idx infos h⟩

theorem getReg_spec (hvm : api.RegSizes size) (id : VmReg) :
    Spec (RegSizes size) (getReg api id)
      (fun val db => RegSizes size db ∧ val.length = (size id).toNat) fun _ _ => True := by
  refine Spec.bind (loadReg_spec hvm id) fun _ => Spec.bind (findReg_spec id) fun infos => ?_
  refine Spec.bind (Q := fun infos db => RegSizes size db ∧ infos.size = size id)
    (spec_callVM fun db infos' vm' hdb h => ⟨hdb.1, (hvm.val _ _ _ _ _ h).trans hdb.2⟩) ?_
  rintro infos db ⟨hdb, hsize⟩
  rw [on_bind_ok (on_modify _ _)]
  split
  · next hle =>
    refine ⟨fun idx infos' hget => ?_, by rw [List.length_take, hsize] at *; omega⟩
    simp only [Std.TreeMap.getElem?_insert] at hget
    split at hget
    · next h =>
      obtain rfl := Std.LawfulEqCmp.eq_of_compare h
      obtain rfl := Option.some.inj hget
      exact hsize
    · exact hdb idx infos' hget
  · trivial

/-- From a debugger in `I` on, the values that `get_reg` gives have the sizes. -/
abbrev GivesSizes (api : VMApi V) (size : VmReg → VmSize) (I : Debugger V → Prop) : Prop :=
  ∀ id, Spec I (getReg api id) (fun val db => I db ∧ val.length = (size id).toNat) fun _ _ => True

end Debugger

end Sizes

/-! ## Outputs that do not depend on what the output arrays held -/

namespace VMSide

section Outputs

variable {V : Type} {api : VMApi V} {α β : Type}

theorem fill_eq {xs : List α} {out : List β} (h : out.length = xs.length) (f : α → DbM V β) :
    fill xs out f = xs.mapM f := by
  unfold fill
  rw [← h, itemsAt_self, lift_ok, pure_bind, List.drop_length]
  simp only [List.append_nil, bind_pure]

theorem overwrite_eq {buf bytes : Bytes} (h : bytes.length = buf.length) :
    overwrite buf bytes = .ok bytes := by
  rw [overwrite, if_pos (Nat.le_of_eq h), h, List.drop_length, List.append_nil]

/-- Buffers of the sizes of the registers receive their values. -/
theorem getRegs_on {size : VmReg → VmSize} {I : Debugger V → Prop}
    (hget : Debugger.GivesSizes api size I) {ids : List VmReg} {bufs : List Bytes}
    (hbufs : bufs.map List.length = ids.map fun id => (size id).toNat) {db : Debugger V}
    (hdb : I db) :
    (getRegs api ids bufs).on db = (ids.mapM (Debugger.getReg api)).on db := by
  have hlen : bufs.length = ids.length := by simpa using congrArg List.length hbufs
  unfold getRegs
  rw [← hlen, itemsAt_self, lift_ok, pure_bind, fill_eq (by simp [hlen])]
  clear hlen
  induction ids generalizing bufs db with
  | nil => simp
  | cons id ids ih =>
    obtain _ | ⟨buf, bufs⟩ := bufs
    · simp at hbufs
    simp only [List.map_cons, List.cons.injEq] at hbufs
    rw [List.zip_cons_cons, List.mapM_cons, List.mapM_cons, bind_assoc]
    have hspec := hget id db hdb
    rcases hrun : (Debugger.getReg api id).on db with ⟨_ | val, db'⟩ <;> rw [hrun] at hspec
    · rw [on_bind_error hrun, on_bind_error hrun]
    · obtain ⟨hdb', hval⟩ := hspec
      rw [on_bind_ok hrun, on_bind_ok hrun, overwrite_eq (hval.trans hbufs.1.symm), lift_ok,
        pure_bind, on_bind, on_bind, ih hbufs.2 hdb']

/-- What is related by a size has that size, item by item. -/
theorem lengths_eq {f : α → Nat} {xs : List α} {ys : List Bytes}
    (h : List.Forall₂ (fun x y => y.length = f x) xs ys) : ys.map List.length = xs.map f := by
  have hlens : List.Forall₂ Eq (xs.map f) (ys.map List.length) :=
    List.forall₂_map_left_iff.mpr (List.forall₂_map_right_iff.mpr (h.imp fun _ _ h => h.symm))
  rw [List.forall₂_eq_eq_eq] at hlens
  exact hlens.symm

/-- The values of registers have their sizes. -/
theorem getRegs_lengths {size : VmReg → VmSize} {I : Debugger V → Prop}
    (hget : Debugger.GivesSizes api size I) {ids : List VmReg} {bufs vals : List Bytes}
    (hbufs : bufs.map List.length = ids.map fun id => (size id).toNat) {db : Debugger V} (hdb : I db)
    (h : ((getRegs api ids bufs).on db).1 = .ok vals) :
    vals.map List.length = ids.map fun id => (size id).toNat := by
  have := Spec.mapM ids (fun id _ => hget id) db hdb
  rw [getRegs_on hget hbufs hdb] at h
  rcases hrun : (ids.mapM (Debugger.getReg api)).on db with ⟨r, db'⟩
  rw [hrun] at this h
  obtain rfl : r = .ok vals := h
  exact lengths_eq this.2

/-- Items and the sizes that their rounds look up, as two lists. -/
theorem map_zipIdx_itemAt {α β γ : Type} {xs : List α} {ys : List β} (h : xs.length ≤ ys.length)
    (f : Except Fault β → α → γ) :
    xs.zipIdx.map (fun p => f (itemAt ys p.2) p.1) =
      (xs.zip ys).map fun p => f (.ok p.2) p.1 := by
  refine List.ext_getElem (by simp [h]) fun i hi _ => ?_
  have hlt : i < ys.length := by
    simp only [List.length_map, List.length_zipIdx] at hi
    omega
  simp [itemAt, List.getElem?_eq_getElem hlt]

/-- Loops with the same rounds. -/
theorem mapM_of_rounds {α β γ : Type} {f : α → DbM V γ} {g : β → DbM V γ} {xs : List α}
    {ys : List β} (h : xs.map f = ys.map g) : xs.mapM f = ys.mapM g := by
  have hid {δ : Type} (k : δ → DbM V γ) (zs : List δ) : zs.mapM k = (zs.map k).mapM id := by
    rw [List.mapM_map]
    rfl
  rw [hid, h, ← hid]

theorem forM_of_rounds {α β : Type} {f : α → DbM V PUnit} {g : β → DbM V PUnit} {xs : List α}
    {ys : List β} (h : xs.map f = ys.map g) : xs.forM f = ys.forM g := by
  have hid {δ : Type} (k : δ → DbM V PUnit) (zs : List δ) : zs.forM k = (zs.map k).forM id := by
    rw [List.forM_eq_forM, List.forM_eq_forM, List.forM_map]
    rfl
  rw [hid, h, ← hid]

/-- `read_mem` with a size for every block. -/
theorem readMem_rows {addrs : List VmPtr} {sizes : List VmSize} {bufs : List Bytes}
    (hsizes : addrs.length ≤ sizes.length) (hbufs : bufs.length = addrs.length) :
    readMem api addrs sizes bufs = ((addrs.zip bufs).zip sizes).mapM fun p =>
      Debugger.readMem api p.1.1 p.2 >>= fun block => lift (overwrite p.1.2 block.1) := by
  have hzip : (addrs.zip bufs).length ≤ sizes.length := by simp [hbufs, hsizes]
  unfold readMem
  rw [← hbufs, itemsAt_self, lift_ok, pure_bind, fill_eq (by simp [hbufs])]
  exact mapM_of_rounds (map_zipIdx_itemAt hzip fun len p => lift len >>= fun len =>
    Debugger.readMem api p.1 len >>= fun block => lift (overwrite p.2 block.1))

/-- `write_mem` with a size for every block. -/
theorem writeMem_rows {addrs : List VmPtr} {sizes : List VmSize} {bufs : List Bytes}
    (hsizes : addrs.length ≤ sizes.length) (hbufs : bufs.length = addrs.length) :
    writeMem api addrs sizes bufs = ((addrs.zip bufs).zip sizes).forM fun p =>
      Debugger.writeMem api p.1.1 p.2 p.1.2 := by
  have hzip : (addrs.zip bufs).length ≤ sizes.length := by simp [hbufs, hsizes]
  unfold writeMem
  rw [← hbufs, itemsAt_self, lift_ok, pure_bind]
  exact forM_of_rounds (map_zipIdx_itemAt hzip fun len p => lift len >>= fun len =>
    Debugger.writeMem api p.1 len p.2)

/-- Blocks read one after the other. -/
def readBlocks (api : VMApi V) (addrs : List VmPtr) (sizes : List VmSize) : DbM V (List Bytes) :=
  (addrs.zip sizes).mapM fun (addr, len) => do
    let block ← Debugger.readMem api addr len
    return block.1

/-- Buffers as long as announced receive the blocks. -/
theorem readMem_eq {addrs : List VmPtr} {sizes : List VmSize} {bufs : List Bytes}
    (hlen : sizes.length = addrs.length) (hbufs : bufs.map List.length = sizes.map UInt64.toNat) :
    readMem api addrs sizes bufs = readBlocks api addrs sizes := by
  have hlen' : bufs.length = addrs.length := by simpa [hlen] using congrArg List.length hbufs
  rw [readMem_rows (Nat.le_of_eq hlen.symm) hlen']
  clear hlen'
  unfold readBlocks
  induction addrs generalizing sizes bufs with
  | nil => rfl
  | cons addr addrs ih =>
    obtain _ | ⟨size, sizes⟩ := sizes
    · simp at hlen
    obtain _ | ⟨buf, bufs⟩ := bufs
    · simp at hbufs
    simp only [List.map_cons, List.cons.injEq] at hbufs
    simp only [List.zip_cons_cons, List.mapM_cons, bind_assoc]
    rw [ih (by simpa using hlen) hbufs.2]
    congr 1
    funext block
    rw [overwrite_eq (block.2.trans hbufs.1.symm), lift_ok]

theorem readBlocks_lengths {addrs : List VmPtr} {sizes : List VmSize}
    (hlen : sizes.length = addrs.length) {db : Debugger V} {blocks : List Bytes}
    (h : ((readBlocks api addrs sizes).on db).1 = .ok blocks) :
    blocks.map List.length = sizes.map UInt64.toNat := by
  rcases hrun : (readBlocks api addrs sizes).on db with ⟨r, db'⟩
  rw [hrun] at h
  obtain rfl : r = .ok blocks := h
  have hsizes : (addrs.zip sizes).map Prod.snd = sizes := List.map_snd_zip (Nat.le_of_eq hlen)
  have := lengths_eq (f := fun p => p.2.toNat) (mapM_ok hrun fun p db y db' hrun => ?_)
  · rw [this, ← hsizes, List.map_map, hsizes]
    rfl
  · obtain ⟨block, _, -, hy⟩ := bind_eq_ok.mp hrun
    obtain rfl : block.1 = y := Except.ok.inj (Prod.mk.inj hy).1
    exact block.2

theorem mapM_length {σ : Type} {f : α → Prog Fault σ β} {xs : List α} {s : σ} {ys : List β}
    (h : ((xs.mapM f).on s).1 = .ok ys) : ys.length = xs.length :=
  (mapM_ok (R := fun _ _ => True) (Prod.ext h rfl) fun _ _ _ _ _ => trivial).length_eq.symm

end Outputs

end VMSide

/-! ## Calls -/

section Calls

/-- The arguments of a call about registers: the declared sizes are the real ones, each its own or
the common one followed by 0, and the buffers are as long. -/
structure RegArgs (size : VmReg → VmSize) (ids : List VmReg) (bufs : List Bytes)
    (regsSize : List VmSize) : Prop where
  count : ids.length < 65536
  nonzero : ∀ id ∈ ids, size id ≠ 0
  declared : regsSize = ids.map size ∨
    ∃ s rest, regsSize = s :: 0 :: rest ∧ ∀ id ∈ ids, size id = s
  bufs : bufs.map List.length = ids.map fun id => (size id).toNat
  total : (ids.map fun id => (size id).toNat).sum ≤ maxBytes

/-- The arguments of a call about memory: buffers of the given sizes. -/
structure MemArgs (addrs : List VmPtr) (sizes : List VmSize) (bufs : List Bytes) : Prop where
  count : addrs.length < 65536
  len : sizes.length = addrs.length
  bufs : bufs.map List.length = sizes.map UInt64.toNat
  total : (sizes.map UInt64.toNat).sum ≤ maxBytes

/-- Output infos for the ids. -/
structure IdArgs {K I : Type} (fits : I → Prop) (ids : List K) (outs : List I) : Prop where
  count : ids.length < 65536
  len : outs.length = ids.length
  fits : ∀ x ∈ outs, fits x

/-- Outputs for the names, whose total size with the terminators fits in 16 bits. -/
structure NameArgs {I : Type} (fits : I → Prop) (names : List CStr) (outs : List I) : Prop where
  total : (names.map fun s => s.1.length + 1).sum ≤ 65535
  len : outs.length = names.length
  fits : ∀ x ∈ outs, fits x

/-- The arguments that a caller may pass. -/
def ImplCall.Valid (size : VmReg → VmSize) : {α : Type} → ImplCall α → Prop
  | _, .getRegs ids outBufs regsSize => RegArgs size ids outBufs regsSize
  | _, .setRegs ids inBufs regsSize => RegArgs size ids inBufs regsSize
  | _, .getRegsInfos ids outInfos => IdArgs (fun x => Fits x.name) ids outInfos
  | _, .findRegsIds regNames outIds => NameArgs (fun _ => True) regNames outIds
  | _, .readMem srcAddrs bufsSizes outBufs => MemArgs srcAddrs bufsSizes outBufs
  | _, .writeMem dstAddrs bufsSizes inBufs => MemArgs dstAddrs bufsSizes inBufs
  | _, .getSymbolsByIds ids outInfos => IdArgs Fits ids outInfos
  | _, .getSymbolsByNames names outInfos => NameArgs Fits names outInfos
  | _, .addBreakpoints addrs => addrs.length < 65536
  | _, .delBreakpoints addrs => addrs.length < 65536
  | _, _ => True

/-- The outputs are ones that objects can hold: no string or vector is longer than its
`max_size()`. -/
def ImplCall.Fits : {α : Type} → ImplCall α → α → Prop
  | _, .connect _, (infos, udp) => LawfulSerial.Fits infos ∧ LawfulSerial.Fits udp
  | _, .checkStopped _, udp => LawfulSerial.Fits udp
  | _, .getRegsInfos _ _, infos => ∀ x ∈ infos, LawfulSerial.Fits x.name
  | _, .getSymbolsByIds _ _, infos => ∀ x ∈ infos, LawfulSerial.Fits x
  | _, .getSymbolsByAddr _ _, infos => LawfulSerial.Fits infos
  | _, .getSymbolsByNames _ _, infos => ∀ x ∈ infos, LawfulSerial.Fits x
  | _, .getCodeText _ _, (text, sizes) => LawfulSerial.Fits text ∧ LawfulSerial.Fits sizes
  | _, _, _ => True

/-- The outputs as a response brings them back: `val` of a register info stays what it was. -/
def ImplCall.sent : {α : Type} → ImplCall α → α → α
  | _, .getRegsInfos _ outInfos, infos =>
    List.zipWith (fun x y => { x with val := y.val }) infos outInfos
  | _, _, out => out

def ImplCall.isStop : {α : Type} → ImplCall α → Bool
  | _, .stop => true
  | _, _ => false

end Calls

/-! ## Each call -/

namespace Remote

section Calls

variable {V : Type} {api : VMApi V} {size : VmReg → VmSize} {udp : DBClientUpdate}
  {db : Debugger V}

theorem toNat_length {α : Type} {xs : List α} (h : xs.length < 65536) :
    xs.length.toUInt16.toNat = xs.length := UInt16.toNat_ofNat_of_lt h

/-- A call that sends nothing. -/
theorem refines_pure {α : Type} {fits : α → Prop} {direct : DbM V α} {a : α}
    (h : direct.on db = (.ok a, db)) :
    Refines fits (fun a => a) direct (pure a : Prog Fault (Remote V) α) db := by
  refine fun is => ⟨fun b db' hrun _ => ?_, fun msg db' hrun _ => ?_, fun e db' hrun _ => ?_⟩
  · rw [h] at hrun
    cases hrun
    exact ⟨is, rfl⟩
  all_goals
    rw [h] at hrun
    cases hrun

/-- A stopped debugger reports all of an update. -/
theorem checkStopped_on (hstop : DbControl.isStopped db.state = true) (udp udp' : DBClientUpdate) :
    (VMSide.checkStopped udp).on db = (VMSide.checkStopped udp').on db := by
  unfold VMSide.checkStopped
  rw [on_bind_ok (on_get db), on_bind_ok (on_get db)]
  have hrun : VMSide.isRunning db.state = false := by
    revert hstop
    cases db.state <;> decide
  rw [if_neg (by simp [hrun]), if_neg (by simp [hrun])]

theorem fits_nil {T : Type} [Serial T] [LawfulSerial T] : Fits ([] : List T) :=
  ⟨Nat.zero_le _, List.forall_mem_nil _⟩

theorem fits_blank_udp : Fits (Serial.blank : DBClientUpdate) := fits_nil (T := CallInfos)

theorem fits_blank_infos : Fits (Serial.blank : VMInfos) :=
  ⟨Nat.zero_le _, fits_nil, fits_nil, fits_nil, fits_nil, fits_nil⟩

theorem refines_checkStopped (hstop : DbControl.isStopped db.state = true)
    (udp' : DBClientUpdate) :
    Refines Fits (fun a => a) (VMSide.checkStopped udp') (DataClient.checkStopped (exchange api udp))
      db := by
  refine (sendReq_refines .checkStopped ⟨Serial.blank⟩ (fun u => ⟨u⟩) (by decide) rfl
    ⟨fits_blank_udp, Nat.zero_le _⟩ ?_ fun u _ hu => ⟨hu, trivial⟩).map fun req => req.outUdp
  rw [checkStopped_on hstop udp']
  exact on_bind_pure _ _ _

theorem refines_connect (hstop : DbControl.isStopped db.state = true) (udp' : DBClientUpdate) :
    Refines (fun a => Fits a.1 ∧ Fits a.2) (fun a => a) (VMSide.connect udp')
      (DataClient.connect (exchange api udp)) db := by
  refine (sendReq_refines .connect ⟨Serial.blank, Serial.blank⟩ (fun a : VMInfos × DBClientUpdate => ⟨a.1, a.2⟩)
    (by decide) rfl ⟨⟨fits_blank_infos, fits_blank_udp⟩, Nat.zero_le _⟩ ?_ fun a _ ha => ⟨ha, trivial⟩).map
      fun req => (req.outInfos, req.outUdp)
  have hconn : (VMSide.connect udp').on db = (VMSide.connect { udp with stack := [] }).on db := by
    unfold VMSide.connect
    rw [on_bind_ok (on_get db), on_bind_ok (on_get db), on_bind, on_bind,
      checkStopped_on hstop udp']
  rw [hconn]
  exact on_bind_pure _ _ _

/-! ### Registers -/

/-- Which request `get_regs` and `set_regs` send. -/
theorem oneSize_cases {ids : List VmReg} {bufs : List Bytes} {regsSize : List VmSize}
    (h : RegArgs size ids bufs regsSize) (hne : ids.length ≠ 0) :
    (∃ s, DataClient.oneSize regsSize ids.length = .ok true ∧ DataClient.sizeAt regsSize 0 = .ok s ∧
      ∀ id ∈ ids, size id = s) ∨
    (DataClient.oneSize regsSize ids.length = .ok false ∧ regsSize = ids.map size) := by
  unfold DataClient.oneSize DataClient.sizeAt
  rcases h.declared with rfl | ⟨s, rest, rfl, hs⟩
  · obtain _ | ⟨id, _ | ⟨id', ids⟩⟩ := ids
    · exact absurd rfl hne
    · exact .inl ⟨size id, rfl, rfl, by simp⟩
    · refine .inr ⟨?_, rfl⟩
      have hnz : size id' ≠ 0 := h.nonzero id' (by simp)
      simp [Except.map, hnz]
  · refine .inl ⟨s, ?_, rfl, hs⟩
    split <;> rfl

/-- A total that a buffer can hold does not wrap around. -/
theorem lt_of_room {n : Nat} (h : n ≤ maxBytes) : n < UInt64.size := Nat.lt_of_le_of_lt h (by decide)

theorem fixed_room {K : Type} {ids : List K} {bufs : List Bytes} {s : VmSize}
    (hcount : ids.length < 65536) (htotal : (ids.map fun _ => s.toNat).sum ≤ maxBytes) :
    ReqFixed.total ⟨ids.length.toUInt16, s, ids, bufs⟩ ≤ maxBytes := by
  rw [ReqFixed.total, toNat_length hcount]
  simpa using htotal

theorem fixed_shaped {K : Type} {ids : List K} {bufs : List Bytes} {s : VmSize}
    (hcount : ids.length < 65536) (hbufs : bufs.map List.length = ids.map fun _ => s.toNat)
    (htotal : (ids.map fun _ => s.toNat).sum ≤ maxBytes) :
    ReqFixed.Shaped ⟨ids.length.toUInt16, s, ids, bufs⟩ where
  ids := (toNat_length hcount).symm
  bufs := by
    rw [toNat_length hcount]
    simpa using congrArg List.length hbufs
  rows row hrow := by
    have : row.length ∈ ids.map fun _ => s.toNat := hbufs ▸ List.mem_map_of_mem hrow
    obtain ⟨_, -, he⟩ := List.mem_map.mp this
    exact he.symm
  total := lt_of_room (fixed_room hcount htotal)

theorem var_shaped {K : Type} {ids : List K} {sizes : List VmSize} {bufs : List Bytes}
    (hcount : ids.length < 65536) (hlen : sizes.length = ids.length)
    (hbufs : bufs.map List.length = sizes.map UInt64.toNat)
    (htotal : (sizes.map UInt64.toNat).sum ≤ maxBytes) :
    ReqVar.Shaped ⟨ids.length.toUInt16, ids, sizes, bufs⟩ where
  ids := (toNat_length hcount).symm
  sizes := by rw [toNat_length hcount, hlen]
  rows := hbufs
  total := lt_of_room htotal

section Regs

variable {ids : List VmReg} {bufs : List Bytes} {regsSize : List VmSize}

/-- The buffers of one size, as in the request for it. -/
theorem regs_fixed (h : RegArgs size ids bufs regsSize) {s : VmSize}
    (hs : ∀ id ∈ ids, size id = s) {vals : List Bytes}
    (hvals : vals.map List.length = ids.map fun id => (size id).toNat) :
    @Req.Roomy .getRegs ⟨ids.length.toUInt16, s, ids, vals⟩ := by
  have hsizes : (ids.map fun id => (size id).toNat) = ids.map fun _ => s.toNat :=
    List.map_congr_left fun id hid => congrArg UInt64.toNat (hs id hid)
  exact ⟨fixed_shaped h.count (hvals.trans hsizes) (hsizes ▸ h.total),
    fixed_room h.count (hsizes ▸ h.total)⟩

/-- The buffers of several sizes, as in the request for them. -/
theorem regs_var (h : RegArgs size ids bufs regsSize) (hsizes : regsSize = ids.map size)
    {vals : List Bytes} (hvals : vals.map List.length = ids.map fun id => (size id).toNat) :
    @Req.Roomy .getRegsVar ⟨ids.length.toUInt16, ids, regsSize, vals⟩ := by
  have hmap : regsSize.map UInt64.toNat = ids.map fun id => (size id).toNat := by
    rw [hsizes, List.map_map]
    rfl
  exact ⟨var_shaped h.count (by rw [hsizes, List.length_map]) (hvals.trans hmap.symm)
    (hmap ▸ h.total), (hmap ▸ h.total :)⟩

/-- Blank buffers as long as the buffers of the caller. -/
theorem getRegs_blank {I : Debugger V → Prop} (hget : Debugger.GivesSizes api size I) (hdb : I db)
    (h : RegArgs size ids bufs regsSize) {blank : List Bytes}
    (hblank : blank.map List.length = bufs.map List.length) :
    (VMSide.getRegs api ids blank).on db = (VMSide.getRegs api ids bufs).on db := by
  rw [VMSide.getRegs_on hget (hblank.trans h.bufs) hdb, VMSide.getRegs_on hget h.bufs hdb]

theorem refines_getRegs {I : Debugger V → Prop} (hget : Debugger.GivesSizes api size I) (hdb : I db)
    (h : RegArgs size ids bufs regsSize) :
    Refines (fun _ => True) (fun a => a) (VMSide.getRegs api ids bufs)
      (DataClient.getRegs (exchange api udp) ids bufs regsSize) db := by
  unfold DataClient.getRegs
  by_cases hne : ids.length = 0
  · rw [if_pos hne]
    obtain rfl := List.length_eq_zero_iff.mp hne
    obtain rfl : bufs = [] := by simpa using h.bufs
    exact refines_pure rfl
  rw [if_neg hne]
  rcases oneSize_cases h hne with ⟨s, hone, hat, hs⟩ | ⟨hone, hsizes⟩
  · rw [hone, hat]
    have hroomy := regs_fixed h hs h.bufs
    have hshape : ReqFixed.Shaped _ := hroomy.shaped
    refine (sendReq_refines .getRegs ⟨ids.length.toUInt16, s, ids, bufs⟩
      (fun vals => ⟨ids.length.toUInt16, s, ids, vals⟩) (by decide) rfl hroomy ?_
      fun vals hrun _ =>
        ⟨(regs_fixed h hs (VMSide.getRegs_lengths hget h.bufs hdb hrun)).shaped, rfl, rfl⟩).map
        fun req => req.bufs
    rw [← getRegs_blank hget hdb h
      (hshape.blank.toCounted.rowSizes.symm.trans hshape.toCounted.rowSizes)]
    exact on_bind_pure _ _ _
  · rw [hone]
    have hroomy := regs_var h hsizes h.bufs
    have hshape : ReqVar.Shaped _ := hroomy.shaped
    refine (sendReq_refines .getRegsVar ⟨ids.length.toUInt16, ids, regsSize, bufs⟩
      (fun vals => ⟨ids.length.toUInt16, ids, regsSize, vals⟩) (by decide) rfl hroomy ?_
      fun vals hrun _ =>
        ⟨(regs_var h hsizes (VMSide.getRegs_lengths hget h.bufs hdb hrun)).shaped, rfl, rfl⟩).map
        fun req => req.bufs
    rw [← getRegs_blank hget hdb h (hshape.blank.rows.trans hshape.rows.symm)]
    exact on_bind_pure _ _ _

/-- The request of `set_regs` has the announced shape. -/
def SetShaped (ids : List VmReg) (bufs : List Bytes) (regsSize : List VmSize) : Prop :=
  (∃ s, DataClient.oneSize regsSize ids.length = .ok true ∧ DataClient.sizeAt regsSize 0 = .ok s ∧
    @Req.Roomy .setRegs ⟨ids.length.toUInt16, s, ids, bufs⟩) ∨
  (DataClient.oneSize regsSize ids.length = .ok false ∧
    @Req.Roomy .setRegsVar ⟨ids.length.toUInt16, ids, regsSize, bufs⟩)

theorem refines_setRegs (h : ids.length ≠ 0 → SetShaped ids bufs regsSize) :
    Refines (fun _ => True) (fun a => a) (VMSide.setRegs api ids bufs)
      (DataClient.setRegs (exchange api udp) ids bufs regsSize) db := by
  unfold DataClient.setRegs
  by_cases hne : ids.length = 0
  · rw [if_pos hne]
    obtain rfl := List.length_eq_zero_iff.mp hne
    exact refines_pure rfl
  rw [if_neg hne]
  rcases h hne with ⟨s, hone, hat, hshape⟩ | ⟨hone, hshape⟩
  · rw [hone, hat]
    exact (sendReq_refines .setRegs _ (fun _ => ⟨ids.length.toUInt16, s, ids, bufs⟩) (by decide) rfl
      hshape (on_bind_pure _ _ _) fun _ _ _ => ⟨hshape.shaped, rfl, rfl⟩).map fun _ => ()
  · rw [hone]
    exact (sendReq_refines .setRegsVar _ (fun _ => ⟨ids.length.toUInt16, ids, regsSize, bufs⟩)
      (by decide) rfl hshape (on_bind_pure _ _ _) fun _ _ _ => ⟨hshape.shaped, rfl, rfl⟩).map fun _ => ()

theorem RegArgs.setShaped (h : RegArgs size ids bufs regsSize) (hne : ids.length ≠ 0) :
    SetShaped ids bufs regsSize := by
  rcases oneSize_cases h hne with ⟨s, hone, hat, hs⟩ | ⟨hone, hsizes⟩
  · have hroomy := regs_fixed h hs h.bufs
    exact .inl ⟨s, hone, hat, hroomy.shaped, hroomy.room⟩
  · have hroomy := regs_var h hsizes h.bufs
    exact .inr ⟨hone, hroomy.shaped, hroomy.room⟩

end Regs

/-! ### Memory -/

section Mem

variable {addrs : List VmPtr} {sizes : List VmSize} {bufs : List Bytes}

theorem mem_shaped (h : MemArgs addrs sizes bufs) {vals : List Bytes}
    (hvals : vals.map List.length = sizes.map UInt64.toNat) :
    @Req.Roomy .readMemVar ⟨addrs.length.toUInt16, addrs, sizes, vals⟩ :=
  ⟨var_shaped h.count h.len hvals h.total, h.total⟩

theorem refines_readMem (h : MemArgs addrs sizes bufs) :
    Refines (fun _ => True) (fun a => a) (VMSide.readMem api addrs sizes bufs)
      (DataClient.readMem (exchange api udp) addrs sizes bufs) db := by
  unfold DataClient.readMem
  by_cases hne : addrs.length = 0
  · rw [if_pos hne]
    obtain rfl := List.length_eq_zero_iff.mp hne
    obtain rfl := List.length_eq_zero_iff.mp h.len
    obtain rfl : bufs = [] := by simpa using h.bufs
    exact refines_pure rfl
  rw [if_neg hne, VMSide.readMem_eq h.len h.bufs]
  have hshape := mem_shaped h h.bufs
  refine (sendReq_refines .readMemVar ⟨addrs.length.toUInt16, addrs, sizes, bufs⟩
    (fun vals => ⟨addrs.length.toUInt16, addrs, sizes, vals⟩) (by decide) rfl hshape ?_
    fun vals hrun _ => ⟨(mem_shaped h (VMSide.readBlocks_lengths h.len hrun)).shaped, rfl, rfl⟩).map
      fun req => req.bufs
  have hrows : ReqVar.Shaped _ := hshape.shaped
  rw [← VMSide.readMem_eq h.len hrows.blank.rows]
  exact on_bind_pure _ _ _

theorem refines_writeMem (h : MemArgs addrs sizes bufs) :
    Refines (fun _ => True) (fun a => a) (VMSide.writeMem api addrs sizes bufs)
      (DataClient.writeMem (exchange api udp) addrs sizes bufs) db := by
  unfold DataClient.writeMem
  by_cases hne : addrs.length = 0
  · rw [if_pos hne]
    obtain rfl := List.length_eq_zero_iff.mp hne
    exact refines_pure rfl
  rw [if_neg hne]
  have hshape := mem_shaped h h.bufs
  exact (sendReq_refines .writeMemVar _ (fun _ => ⟨addrs.length.toUInt16, addrs, sizes, bufs⟩)
    (by decide) rfl ⟨hshape.shaped, hshape.room⟩ (on_bind_pure _ _ _) fun _ _ _ => ⟨hshape.shaped, rfl, rfl⟩).map fun _ => ()

end Mem

/-! ### Queries by id or by name -/

section Queries

variable {K I : Type} {fits : I → Prop}

theorem ids_shaped {ids : List K} {outs vals : List I} (h : IdArgs fits ids outs)
    (hlen : vals.length = ids.length) (hvals : ∀ x ∈ vals, fits x) :
    ReqByIds.Shaped fits ⟨ids.length.toUInt16, ids, vals⟩ where
  ids := (toNat_length h.count).symm
  outs := by rw [toNat_length h.count, hlen]
  fits := hvals

/-- Every name has a terminator, so there are no more names than bytes. -/
theorem names_count (names : List CStr) :
    names.length ≤ (names.map fun s => s.1.length + 1).sum := by
  induction names with
  | nil => exact Nat.zero_le _
  | cons s names ih =>
    rw [List.map_cons, List.sum_cons, List.length_cons]
    omega

theorem names_shaped {names : List CStr} {outs vals : List I} (h : NameArgs fits names outs)
    (hlen : vals.length = names.length) (hvals : ∀ x ∈ vals, fits x) :
    ReqByNames.Shaped fits ⟨names.length.toUInt16, names, vals⟩ := by
  have hcount : names.length < 65536 :=
    Nat.lt_succ_of_le (Nat.le_trans (names_count names) h.total)
  exact ⟨(toNat_length hcount).symm, h.total, by rw [toNat_length hcount, hlen], hvals⟩

theorem blanks_length {T : Type} [Serial T] {xs : List K} (h : xs.length < 65536) :
    (blanks T xs.length.toUInt16.toNat).length = xs.length := by
  rw [blanks, List.length_replicate, toNat_length h]

theorem refines_getRegsInfos {ids : List VmReg} {outInfos : List RegInfos}
    (h : IdArgs (fun x => Fits x.name) ids outInfos) :
    Refines (fun infos => ∀ x ∈ infos, Fits x.name)
      (fun infos => List.zipWith (fun x y => { x with val := y.val }) infos outInfos)
      (VMSide.getRegsInfos api ids outInfos)
      (DataClient.getRegsInfos (exchange api udp) ids outInfos) db := by
  unfold VMSide.getRegsInfos
  rw [VMSide.fill_eq h.len]
  refine (sendReq_refines .getRegsInfos ⟨ids.length.toUInt16, ids, outInfos⟩
    (fun vals => ⟨ids.length.toUInt16, ids, vals⟩) (by decide) rfl
    ⟨ids_shaped h h.len h.fits, Nat.zero_le _⟩ ?_
    fun vals hrun hfits => ⟨ids_shaped h (VMSide.mapM_length hrun) hfits, rfl⟩).map
      fun req => req.outs
  rw [← VMSide.fill_eq (blanks_length h.count)]
  exact on_bind_pure _ _ _

theorem refines_getSymbolsByIds {ids : List VmSym} {outInfos : List SymbolInfos}
    (h : IdArgs Fits ids outInfos) :
    Refines (fun infos => ∀ x ∈ infos, Fits x) (fun infos => infos)
      (VMSide.getSymbolsByIds api ids outInfos)
      (DataClient.getSymbolsByIds (exchange api udp) ids outInfos) db := by
  unfold VMSide.getSymbolsByIds
  rw [VMSide.fill_eq h.len]
  refine (sendReq_refines .getSymsByIds ⟨ids.length.toUInt16, ids, outInfos⟩
    (fun vals => ⟨ids.length.toUInt16, ids, vals⟩) (by decide) rfl
    ⟨ids_shaped h h.len h.fits, Nat.zero_le _⟩ ?_
    fun vals hrun hfits => ⟨ids_shaped h (VMSide.mapM_length hrun) hfits, rfl⟩).map
      fun req => req.outs
  rw [← VMSide.fill_eq (blanks_length h.count)]
  exact on_bind_pure _ _ _

theorem names_blank {T : Type} [Serial T] {names : List CStr} {outs : List I}
    (h : NameArgs fits names outs) :
    (blanks T names.length.toUInt16.toNat).length = names.length :=
  blanks_length (Nat.lt_succ_of_le (Nat.le_trans (names_count names) h.total))

theorem refines_findRegsIds {names : List CStr} {outIds : List VmReg}
    (h : NameArgs (fun _ => True) names outIds) :
    Refines (fun _ => True) (fun ids => ids) (VMSide.findRegsIds api names outIds)
      (DataClient.findRegsIds (exchange api udp) names outIds) db := by
  unfold VMSide.findRegsIds
  rw [VMSide.fill_eq h.len]
  refine (sendReq_refines .findRegsIds ⟨names.length.toUInt16, names, outIds⟩
    (fun vals => ⟨names.length.toUInt16, names, vals⟩) (by decide) rfl
    ⟨names_shaped h h.len h.fits, Nat.zero_le _⟩ ?_ fun vals hrun _ =>
      ⟨names_shaped h (VMSide.mapM_length hrun) fun _ _ => trivial, rfl⟩).map fun req => req.outs
  rw [← VMSide.fill_eq (names_blank h)]
  exact on_bind_pure _ _ _

theorem refines_getSymbolsByNames {names : List CStr} {outInfos : List SymbolInfos}
    (h : NameArgs Fits names outInfos) :
    Refines (fun infos => ∀ x ∈ infos, Fits x) (fun infos => infos)
      (VMSide.getSymbolsByNames api names outInfos)
      (DataClient.getSymbolsByNames (exchange api udp) names outInfos) db := by
  unfold VMSide.getSymbolsByNames
  rw [VMSide.fill_eq h.len]
  refine (sendReq_refines .getSymsByNames ⟨names.length.toUInt16, names, outInfos⟩
    (fun vals => ⟨names.length.toUInt16, names, vals⟩) (by decide) rfl
    ⟨names_shaped h h.len h.fits, Nat.zero_le _⟩ ?_ fun vals hrun hfits =>
      ⟨names_shaped h (VMSide.mapM_length hrun) hfits, rfl⟩).map fun req => req.outs
  rw [← VMSide.fill_eq (names_blank h)]
  exact on_bind_pure _ _ _

theorem refines_getSymbolsByAddr (addr : VmPtr) (size : VmSize) :
    Refines Fits (fun infos => infos) (VMSide.getSymbolsByAddr api addr size)
      (DataClient.getSymbolsByAddr (exchange api udp) addr size) db :=
  (sendReq_refines .getSymsByAddr ⟨addr, size, []⟩ (fun infos => ⟨addr, size, infos⟩) (by decide)
    rfl ⟨fits_nil, Nat.zero_le _⟩ (on_bind_pure _ _ _) fun _ _ h => ⟨h, trivial⟩).map fun req => req.outInfos

theorem refines_getCodeText (addr : VmPtr) (nins : VmSize) :
    Refines (fun a => Fits a.1 ∧ Fits a.2) (fun a => a) (VMSide.getCodeText api addr nins)
      (DataClient.getCodeText (exchange api udp) addr nins) db :=
  (sendReq_refines .getCodeText ⟨addr, nins, [], []⟩
    (fun a : List Bytes × List VmSize => ⟨addr, nins, a.1, a.2⟩) (by decide) rfl
    ⟨⟨fits_nil, fits_nil⟩, Nat.zero_le _⟩ (on_bind_pure _ _ _) fun _ _ h => ⟨h, trivial⟩).map
      fun req => (req.outText, req.outSizes)

end Queries

/-! ### Breakpoints and execution -/

theorem refines_addBreakpoints {addrs : List VmPtr} (h : addrs.length < 65536) :
    Refines (fun _ => True) (fun a => a) (VMSide.addBreakpoints addrs : DbM V Unit)
      (DataClient.addBreakpoints (exchange api udp) addrs) db :=
  (sendReq_refines .addBkps ⟨addrs.length.toUInt16, addrs⟩ (fun _ => ⟨addrs.length.toUInt16, addrs⟩)
    (by decide) rfl ⟨(toNat_length h).symm, Nat.zero_le _⟩ (on_bind_pure _ _ _) fun _ _ _ =>
      ⟨(toNat_length h).symm, trivial⟩).map fun _ => ()

theorem refines_delBreakpoints {addrs : List VmPtr} (h : addrs.length < 65536) :
    Refines (fun _ => True) (fun a => a) (VMSide.delBreakpoints addrs : DbM V Unit)
      (DataClient.delBreakpoints (exchange api udp) addrs) db :=
  (sendReq_refines .delBkps ⟨addrs.length.toUInt16, addrs⟩ (fun _ => ⟨addrs.length.toUInt16, addrs⟩)
    (by decide) rfl ⟨(toNat_length h).symm, Nat.zero_le _⟩ (on_bind_pure _ _ _) fun _ _ _ =>
      ⟨(toNat_length h).symm, trivial⟩).map fun _ => ()

theorem refines_resume (type : ResumeType) :
    Refines (fun _ => True) (fun a => a) (VMSide.resume type : DbM V Unit)
      (DataClient.resume (exchange api udp) type) db :=
  (sendReq_refines .resume ⟨type⟩ (fun _ => ⟨type⟩) (by decide) rfl ⟨trivial, Nat.zero_le _⟩ (on_bind_pure _ _ _)
    fun _ _ _ => ⟨trivial, trivial⟩).map fun _ => ()

end Calls

section Main

variable {V : Type} {api : VMApi V} {size : VmReg → VmSize}

/-- The remote client refines the in-process client: on a stopped program every call but `stop` has
the same effect and the same outputs, the field `val` of register infos apart, and an error comes
back with the same text, in a response that is the error response and nothing else. -/
theorem impl_refines (hvm : api.RegSizes size) (udp : DBClientUpdate) {db : Debugger V}
    (hdb : db.RegSizes size) (hstopped : DbControl.isStopped db.state = true) {α : Type}
    (call : ImplCall α) (hcall : call.isStop = false) (hvalid : call.Valid size) :
    Refines call.Fits call.sent (VMSide.impl api call) (impl api udp call) db := by
  cases call with
  | connect udp' => exact refines_connect hstopped udp'
  | stop => cases hcall
  | checkStopped udp' => exact refines_checkStopped hstopped udp'
  | getRegs ids outBufs regsSize => exact refines_getRegs (fun id => Debugger.getReg_spec hvm id) hdb hvalid
  | setRegs ids inBufs regsSize => exact refines_setRegs (RegArgs.setShaped hvalid)
  | getRegsInfos ids outInfos => exact refines_getRegsInfos hvalid
  | findRegsIds regNames outIds => exact refines_findRegsIds hvalid
  | readMem srcAddrs bufsSizes outBufs => exact refines_readMem hvalid
  | writeMem dstAddrs bufsSizes inBufs => exact refines_writeMem hvalid
  | getSymbolsByIds ids outInfos => exact refines_getSymbolsByIds hvalid
  | getSymbolsByAddr addr n => exact refines_getSymbolsByAddr addr n
  | getSymbolsByNames names outInfos => exact refines_getSymbolsByNames hvalid
  | getCodeText addr nins => exact refines_getCodeText addr nins
  | addBreakpoints addrs => exact refines_addBreakpoints hvalid
  | delBreakpoints addrs => exact refines_delBreakpoints hvalid
  | resume type => exact refines_resume type

end Main

/-! ### Registers of two sizes -/

/-- Register 0 has one byte, which is 42; every other has the two bytes 1, 2. -/
def regBytes (idx : VmReg) : Bytes := if idx = 0 then [42] else [1, 2]

/-- A VM with these registers, all called `r0`. -/
def twoRegs : VMApi UpdateInfos :=
  { Debugger.scripted with
    getReg := fun idx infos valOnly vm =>
      (.ok (if valOnly then { infos with val := regBytes idx }
        else ⟨idx, [114, 48], (regBytes idx).length.toUInt64, .general, regBytes idx⟩), vm) }

theorem regBytes_nonempty (idx : VmReg) : (regBytes idx).length.toUInt64 ≠ 0 := by
  unfold regBytes
  split <;> decide

theorem twoRegs_sizes : twoRegs.RegSizes fun idx => (regBytes idx).length.toUInt64 where
  load := by
    intro idx infos vm infos' vm' h
    obtain ⟨rfl, -⟩ : _ = infos' ∧ vm = vm' := by simpa [twoRegs] using h
    rfl
  val := by
    intro idx infos vm infos' vm' h
    obtain ⟨rfl, -⟩ : _ = infos' ∧ vm = vm' := by simpa [twoRegs] using h
    rfl

/-- Its debugger, stopped before the first instruction. -/
def twoRegsDb : Debugger UpdateInfos :=
  { Debugger.new ⟨.ok, 4⟩ 0 with state := .stopped, insAddr := 4, callStack := [⟨4, 0⟩] }

theorem twoRegsDb_sizes : twoRegsDb.RegSizes fun idx => (regBytes idx).length.toUInt64 := by
  intro idx infos h
  simp [twoRegsDb, Debugger.new] at h

/-- The infos of a register come back without its value, which the direct call gives. -/
theorem getRegsInfos_val :
    (ImplCall.getRegsInfos [0] [⟨0, [], 0, .general, []⟩]).Valid
        (fun idx => (regBytes idx).length.toUInt64) ∧
      ¬ Refines (ImplCall.getRegsInfos [0] [⟨0, [], 0, .general, []⟩]).Fits (fun infos => infos)
        (VMSide.impl twoRegs (.getRegsInfos [0] [⟨0, [], 0, .general, []⟩]))
        (impl twoRegs Serial.blank (.getRegsInfos [0] [⟨0, [], 0, .general, []⟩])) twoRegsDb := by
  have hvalid : IdArgs (fun x : RegInfos => Fits x.name) [(0 : VmReg)] [⟨0, [], 0, .general, []⟩] :=
    ⟨by decide, rfl, List.forall_mem_singleton.mpr (Nat.zero_le _)⟩
  refine ⟨hvalid, fun h => ?_⟩
  have hfits : ∀ x ∈ [(⟨0, [114, 48], 1, .general, [42]⟩ : RegInfos)], Fits x.name := by
    simp [Fits, maxBytes]
  have hsent := @refines_getRegsInfos _ twoRegs Serial.blank twoRegsDb _ _ hvalid
  obtain ⟨is, hr⟩ := (h []).1 [⟨0, [114, 48], 1, .general, [42]⟩] _ rfl hfits
  obtain ⟨is', hr'⟩ := (hsent []).1 [⟨0, [114, 48], 1, .general, [42]⟩] _ rfl hfits
  have := congrArg Prod.fst (hr.symm.trans hr')
  simp at this

/-- Both registers read in one call, into buffers of their sizes. -/
theorem impl_refines_twoRegs :
    Refines (fun _ => True) (fun vals => vals)
      (VMSide.impl twoRegs (.getRegs [0, 1] [[255], [255, 255]] [1, 2]))
      (impl twoRegs Serial.blank (.getRegs [0, 1] [[255], [255, 255]] [1, 2])) twoRegsDb :=
  impl_refines twoRegs_sizes Serial.blank twoRegsDb_sizes rfl
    (.getRegs [0, 1] [[255], [255, 255]] [1, 2]) rfl
    ⟨by decide, fun id _ => regBytes_nonempty id, .inl rfl, rfl, by decide⟩

end Remote

end Odb
