import Odb.Server.AnyRequest

/-!
# Blocks of one size

`READ_MEM` and `WRITE_MEM` hold one size for all blocks. `run_command` handles them with the array of
sizes `{size, 0}`, which `read_mem` and `write_mem` take for the sizes of the first two blocks.

* `ReqFixed.toVar`: the same request with a size for every block.
* `SameReads`, `SameWrites`: the two are handled alike, by any VM.
* `serve_fixed_iff`: exactly for one block at most, or two empty ones.
-/

namespace Odb

open Prog DataClientHandler

/-- The request with a size for every block, all equal. -/
def ReqFixed.toVar {K : Type} (r : ReqFixed K) : ReqVar K :=
  ⟨r.n, r.ids, List.replicate r.n.toNat r.size, r.bufs⟩

section Handled

variable {V : Type} (api : VMApi V) (r : ReqFixed VmPtr) (db : Debugger V)

/-- How the handling of `READ_MEM` ends: with the bytes of every buffer or a failure, and the
debugger after it. -/
def readHandled : Except Fault (List Bytes) × Debugger V :=
  let s := (serve api (@Req.received .readMem r r)).on db
  (s.1.map ReqFixed.bufs, s.2)

/-- How the handling of `READ_MEM_VAR` ends. -/
def readVarHandled : Except Fault (List Bytes) × Debugger V :=
  let s := (serve api (@Req.received .readMemVar r.toVar r.toVar)).on db
  (s.1.map ReqVar.bufs, s.2)

/-- How the handling of `WRITE_MEM` ends. -/
def writeHandled : Except Fault (List Bytes) × Debugger V :=
  let s := (serve api (@Req.received .writeMem r r)).on db
  (s.1.map ReqFixed.bufs, s.2)

/-- How the handling of `WRITE_MEM_VAR` ends. -/
def writeVarHandled : Except Fault (List Bytes) × Debugger V :=
  let s := (serve api (@Req.received .writeMemVar r.toVar r.toVar)).on db
  (s.1.map ReqVar.bufs, s.2)

end Handled

/-- Whatever the VM does, `READ_MEM` is handled like `READ_MEM_VAR`, and no size beyond the array is
read. -/
def SameReads (r : ReqFixed VmPtr) : Prop :=
  ∀ (V : Type) (api : VMApi V) (db : Debugger V),
    readHandled api r db = readVarHandled api r db ∧ (readHandled api r db).1 ≠ .error .undefined

/-- Whatever the VM does, `WRITE_MEM` is handled like `WRITE_MEM_VAR`, and no size beyond the array
is read. -/
def SameWrites (r : ReqFixed VmPtr) : Prop :=
  ∀ (V : Type) (api : VMApi V) (db : Debugger V),
    writeHandled api r db = writeVarHandled api r db ∧
      (writeHandled api r db).1 ≠ .error .undefined

/-- There is no second block, or there are two that are empty. -/
def ReqFixed.Few (r : ReqFixed VmPtr) : Prop := r.n ≤ 1 ∨ r.n = 2 ∧ r.size = 0

/-! ## The sizes that are looked up -/

namespace VMSide

variable {V : Type} {api : VMApi V} {addrs : List VmPtr} {sizes sizes' : List VmSize}

theorem index_lt {bufs : List Bytes} {p : (VmPtr × Bytes) × Nat}
    (hp : p ∈ (addrs.zip bufs).zipIdx) : p.2 < addrs.length := by
  have := List.snd_lt_of_mem_zipIdx hp
  rw [List.length_zip] at this
  omega

/-- Only the sizes of the blocks are looked up. -/
theorem readMem_congr (h : ∀ i < addrs.length, itemAt sizes i = itemAt sizes' i)
    (bufs : List Bytes) : readMem api addrs sizes bufs = readMem api addrs sizes' bufs := by
  unfold readMem fill
  refine bind_congr fun bufs => bind_congr fun _ => congrArg (· >>= _) (mapM_of_rounds ?_)
  refine List.map_congr_left fun p hp => ?_
  simp only [readRow, h p.2 (index_lt hp)]

theorem writeMem_congr (h : ∀ i < addrs.length, itemAt sizes i = itemAt sizes' i)
    (bufs : List Bytes) : writeMem api addrs sizes bufs = writeMem api addrs sizes' bufs := by
  unfold writeMem
  refine bind_congr fun bufs => forM_of_rounds ?_
  refine List.map_congr_left fun p hp => ?_
  simp only [writeRow, h p.2 (index_lt hp)]

end VMSide

/-- The two sizes are those of all blocks if there are as few. -/
theorem itemAt_toVar {r : ReqFixed VmPtr} (h : r.Few) (i : Nat) (hi : i < r.n.toNat) :
    VMSide.itemAt [r.size, 0] i = VMSide.itemAt (List.replicate r.n.toNat r.size) i := by
  have hvar : VMSide.itemAt (List.replicate r.n.toNat r.size) i = .ok r.size := by
    rw [VMSide.itemAt, List.getElem?_replicate_of_lt hi]
  rw [hvar]
  rcases h with h | ⟨h, hsize⟩
  · have : r.n.toNat ≤ 1 := h
    obtain rfl : i = 0 := by omega
    rfl
  · rw [h] at hi
    obtain rfl | rfl : i = 0 ∨ i = 1 := by
      have : i < 2 := hi
      omega
    · rfl
    · rw [hsize]
      rfl

/-! ## A VM that tells the requests apart -/

/-- A VM that is what was last written to it. Its memory reads as ones. -/
def lastWrite : VMApi Bytes where
  getVmInfos vm := (.ok { Debugger.noInfos with memorySize := 100 }, vm)
  getUpdateInfos vm := (.ok ⟨.ok, 4⟩, vm)
  getReg _ _ _ vm := (.error [], vm)
  setReg _ _ vm := (.error [], vm)
  findRegId _ vm := (.error [], vm)
  readMem _ size vm := (.ok (.fill size.toNat 1), vm)
  writeMem _ _ buf _ := (.ok (), buf.1)
  getSymbols _ _ vm := (.error [], vm)
  getSymbInfos _ vm := (.error [], vm)
  findSymId _ vm := (.error [], vm)
  getCodeText _ vm := (.error [], vm)

/-- Its debugger, started. -/
def lastWriteDb : Debugger Bytes := ((Debugger.onInit lastWrite).on (Debugger.new [] 0)).2

theorem lastWriteDb_started : Debugger.Started lastWrite lastWriteDb := ⟨[], 0, rfl⟩

/-! ## When the two are handled alike -/

section Equations

variable {V : Type} (api : VMApi V) (r : ReqFixed VmPtr) (db : Debugger V)

theorem readHandled_eq :
    readHandled api r db = (VMSide.readMem api r.ids [r.size, 0] r.blankBufs).on db := by
  unfold readHandled
  simp only [Req.received, serve, on_bind_pure]
  rcases (VMSide.readMem api r.ids [r.size, 0] r.blankBufs).on db with ⟨_ | bufs, db'⟩ <;> rfl

theorem readVarHandled_eq :
    readVarHandled api r db =
      (VMSide.readMem api r.ids (List.replicate r.n.toNat r.size) r.blankBufs).on db := by
  have hblank : r.toVar.blankBufs = r.blankBufs := by
    rw [ReqVar.blankBufs, ReqFixed.toVar, List.map_replicate, ReqFixed.blankBufs]
  unfold readVarHandled
  simp only [Req.received, serve, on_bind_pure, hblank]
  rw [ReqFixed.toVar]
  rcases (VMSide.readMem api r.ids (List.replicate r.n.toNat r.size) r.blankBufs).on db
    with ⟨_ | bufs, db'⟩ <;> rfl

theorem writeHandled_eq :
    writeHandled api r db =
      (let s := (VMSide.writeMem api r.ids [r.size, 0] r.bufs).on db
      (s.1.map fun _ => r.bufs, s.2)) := by
  unfold writeHandled
  simp only [Req.received, serve, on_bind_pure]
  rcases (VMSide.writeMem api r.ids [r.size, 0] r.bufs).on db with ⟨_ | bufs, db'⟩ <;> rfl

theorem writeVarHandled_eq :
    writeVarHandled api r db =
      (let s := (VMSide.writeMem api r.ids (List.replicate r.n.toNat r.size) r.bufs).on db
      (s.1.map fun _ => r.bufs, s.2)) := by
  unfold writeVarHandled
  simp only [Req.received, serve, on_bind_pure, ReqFixed.toVar]
  rcases (VMSide.writeMem api r.ids (List.replicate r.n.toNat r.size) r.bufs).on db
    with ⟨_ | bufs, db'⟩ <;> rfl

end Equations

/-- With a size for every block, the arrays are as long as they should be. -/
theorem rows_toVar {r : ReqFixed VmPtr} (hr : r.Shaped) {bufs : List Bytes}
    (hlen : bufs.length = r.n.toNat) (hbufs : ∀ row ∈ bufs, row.length = r.size.toNat) :
    Debugger.Rows r.ids (List.replicate r.n.toNat r.size) bufs := by
  refine Debugger.rows_var (by rw [List.length_replicate, hr.ids]) ?_
  rw [List.map_replicate, ← hlen]
  exact List.eq_replicate_iff.mpr ⟨List.length_map _, by simpa using hbufs⟩

theorem safe_ne_undefined {V α : Type} {c : DbM V α} {db : Debugger V} (h : Safe Caught c db) :
    (c.on db).1 ≠ .error .undefined := fun he => Safe.iff_error.mp h _ he

/-- A failure stays one, whatever is done with what is returned. -/
theorem map_eq_error {ε α β : Type} {f : α → β} {x : Except ε α} {e : ε} :
    x.map f = .error e ↔ x = .error e := by
  cases x <;> simp [Except.map]

theorem ReqFixed.Few.sizes {r : ReqFixed VmPtr} (hr : r.Shaped) (h : r.Few) :
    ∀ i < r.ids.length, VMSide.itemAt [r.size, 0] i =
      VMSide.itemAt (List.replicate r.n.toNat r.size) i := by
  rw [hr.ids]
  exact itemAt_toVar h

theorem sameReads_of_few {r : ReqFixed VmPtr} (hr : r.Shaped) (h : r.Few) : SameReads r := by
  intro V api db
  rw [readHandled_eq, readVarHandled_eq, VMSide.readMem_congr (h.sizes hr)]
  exact ⟨rfl, safe_ne_undefined (Debugger.readMem_safe
    (rows_toVar hr length_blankBufs length_of_mem_blankBufs) db)⟩

theorem sameWrites_of_few {r : ReqFixed VmPtr} (hr : r.Shaped) (h : r.Few) : SameWrites r := by
  intro V api db
  rw [writeHandled_eq, writeVarHandled_eq, VMSide.writeMem_congr (h.sizes hr)]
  exact ⟨rfl, fun he => safe_ne_undefined
    (Debugger.writeMem_safe (rows_toVar hr hr.bufs hr.rows) db) (map_eq_error.mp he)⟩

/-! ## When they are told apart -/

/-- Of the blocks of a loop that reaches them all, only the first two have a size. -/
theorem length_le_two {α : Type} {xs : List α} (h : ∀ p ∈ xs.zipIdx, p.2 < 2) :
    xs.length ≤ 2 := by
  by_contra hn
  have hlt : 2 < xs.length := Nat.lt_of_not_le hn
  have hmem : (xs[2], 2) ∈ xs.zipIdx := by
    rw [List.mem_zipIdx_iff_getElem?, List.getElem?_eq_getElem hlt]
  have : 2 < 2 := h _ hmem
  omega

theorem few_of_le_two {r : ReqFixed VmPtr} (hle : r.n.toNat ≤ 2) (h : r.n = 2 → r.size = 0) :
    r.Few := by
  by_cases hn : r.n ≤ 1
  · exact .inl hn
  · have hlt : 1 < r.n.toNat := UInt16.lt_iff_toNat_lt.mp (UInt16.not_le.mp hn)
    have htwo : r.n = 2 := UInt16.toNat_inj.mp (by rw [show (2 : UInt16).toNat = 2 from rfl]; omega)
    exact .inr ⟨htwo, h htwo⟩

theorem writeBlock_lastWrite (addr : VmPtr) {len : VmSize} {buf : Bytes}
    (h : len.toNat ≤ buf.length) (db : Debugger Bytes) :
    (Debugger.writeMem lastWrite addr len buf).on db =
      (.ok (), { db with vm := buf.take len.toNat }) := by
  rw [Debugger.writeMem, dif_pos h]
  rfl

theorem SameReads.le_two {r : ReqFixed VmPtr} (hr : r.Shaped) (h : SameReads r) :
    r.n.toNat ≤ 2 := by
  obtain ⟨hsame, -⟩ := h _ lastWrite lastWriteDb
  rw [readHandled_eq, readVarHandled_eq] at hsame
  have hvar := @Debugger.readMem_safe _ lastWrite _ _ _
    (rows_toVar hr length_blankBufs length_of_mem_blankBufs) lastWriteDb
  rw [Safe, ← hsame] at hvar
  have halong := (Debugger.readFixed_safe_iff (length_blankBufs.trans hr.ids.symm)
    length_of_mem_blankBufs).mp hvar
  exact hr.ids ▸ length_le_two (halong.all fun p _ db => ⟨_, db, rfl⟩)

theorem SameWrites.le_two {r : ReqFixed VmPtr} (hr : r.Shaped) (h : SameWrites r) :
    r.n.toNat ≤ 2 := by
  obtain ⟨hsame, -⟩ := h _ lastWrite lastWriteDb
  rw [writeHandled_eq, writeVarHandled_eq] at hsame
  have hvar := @Debugger.writeMem_safe _ lastWrite _ _ _ (rows_toVar hr hr.bufs hr.rows) lastWriteDb
  have hfixed : Safe Caught (VMSide.writeMem lastWrite r.ids [r.size, 0] r.bufs) lastWriteDb := by
    refine Safe.iff_error.mpr fun e he => Safe.iff_error.mp hvar e ?_
    exact map_eq_error.mp ((Prod.mk.inj hsame).1.symm.trans (map_eq_error.mpr he))
  have halong := (Debugger.writeFixed_safe_iff (hr.bufs.trans hr.ids.symm) hr.rows).mp hfixed
  have hle := length_le_two (halong.all fun p hp db => ?_)
  · rw [List.length_zip, hr.ids, hr.bufs, Nat.min_self] at hle
    exact hle
  · have hbuf := hr.rows _ (List.of_mem_zip (List.fst_mem_of_mem_zipIdx hp)).2
    exact ⟨_, _, writeBlock_lastWrite p.1.1 (hbuf ▸ Debugger.fixedSize_le r.size p.2) db⟩

theorem readRow_lastWrite (addr : VmPtr) {len : VmSize} {buf : Bytes}
    (h : len.toNat ≤ buf.length) (db : Debugger Bytes) :
    (Debugger.readMem lastWrite addr len >>= fun block =>
      lift (VMSide.overwrite buf block.1)).on db =
        (.ok (List.replicate len.toNat 1 ++ buf.drop len.toNat), db) := by
  have hrun : (Debugger.readMem lastWrite addr len).on db =
      (.ok ⟨List.replicate len.toNat 1, List.length_replicate⟩, db) := rfl
  rw [on_bind_ok hrun, VMSide.overwrite, List.length_replicate, if_pos h]
  rfl

theorem readRows_lastWrite (a b : VmPtr) {len len' : VmSize} {buf : Bytes}
    (h : len.toNat ≤ buf.length) (h' : len'.toNat ≤ buf.length) (db : Debugger Bytes) :
    (VMSide.readMem lastWrite [a, b] [len, len'] [buf, buf]).on db =
      (.ok [List.replicate len.toNat 1 ++ buf.drop len.toNat,
        List.replicate len'.toNat 1 ++ buf.drop len'.toNat], db) := by
  rw [VMSide.readMem_rows (by simp) (by simp)]
  simp only [List.zip_cons_cons, List.zip_nil_right, List.mapM_cons, List.mapM_nil]
  rw [on_bind_ok (readRow_lastWrite a h db), bind_assoc, on_bind_ok (readRow_lastWrite b h' db)]
  rfl

/-- The second of two blocks is read as an empty one. -/
theorem SameReads.size_eq {r : ReqFixed VmPtr} (hr : r.Shaped) (h : SameReads r) (hn : r.n = 2) :
    r.size = 0 := by
  obtain ⟨hsame, -⟩ := h _ lastWrite lastWriteDb
  rw [readHandled_eq, readVarHandled_eq] at hsame
  have hids := hr.ids
  rw [hn] at hids hsame
  obtain ⟨a, b, hab⟩ := List.length_eq_two.mp hids
  have hblank : r.blankBufs = [blanks UInt8 r.size.toNat, blanks UInt8 r.size.toNat] := by
    rw [ReqFixed.blankBufs, hn]
    rfl
  have hlen : (blanks UInt8 r.size.toNat).length = r.size.toNat := length_blanks
  rw [hab, hblank, show List.replicate (UInt16.toNat 2) r.size = [r.size, r.size] from rfl,
    readRows_lastWrite a b hlen.ge (Nat.zero_le _), readRows_lastWrite a b hlen.ge hlen.ge] at hsame
  have hsecond := (List.cons.inj (List.cons.inj (Except.ok.inj (Prod.mk.inj hsame).1)).2).1
  by_contra hsize
  -- its first byte is the zero that the server has made, not the one of the VM
  obtain ⟨k, hk⟩ := Nat.exists_eq_succ_of_ne_zero fun h0 => hsize (UInt64.toNat_inj.mp h0)
  rw [hk] at hsecond
  exact absurd (List.cons.inj hsecond).1 (by decide)

/-- What the last of two writes leaves. -/
theorem writeRows_lastWrite (a b : VmPtr) {len len' : VmSize} {buf buf' : Bytes}
    (h : len.toNat ≤ buf.length) (h' : len'.toNat ≤ buf'.length) (db : Debugger Bytes) :
    (VMSide.writeMem lastWrite [a, b] [len, len'] [buf, buf']).on db =
      (.ok (), { db with vm := buf'.take len'.toNat }) := by
  rw [VMSide.writeMem_rows (by simp) (by simp)]
  simp only [List.zip_cons_cons, List.zip_nil_right, List.forM_eq_forM, List.forM_cons,
    List.forM_nil]
  rw [on_bind_ok (writeBlock_lastWrite a h db), on_bind_ok (writeBlock_lastWrite b h' _)]
  rfl

/-- The second of two blocks is written as an empty one. -/
theorem SameWrites.size_eq {r : ReqFixed VmPtr} (hr : r.Shaped) (h : SameWrites r) (hn : r.n = 2) :
    r.size = 0 := by
  obtain ⟨hsame, -⟩ := h _ lastWrite lastWriteDb
  rw [writeHandled_eq, writeVarHandled_eq] at hsame
  have hids := hr.ids
  have hbufs := hr.bufs
  rw [hn] at hids hbufs hsame
  obtain ⟨a, b, hab⟩ := List.length_eq_two.mp hids
  obtain ⟨buf, buf', hbb⟩ := List.length_eq_two.mp hbufs
  have hlen := hr.rows buf (by simp [hbb])
  have hlen' := hr.rows buf' (by simp [hbb])
  rw [hab, hbb, show List.replicate (UInt16.toNat 2) r.size = [r.size, r.size] from rfl,
    writeRows_lastWrite a b hlen.ge (Nat.zero_le _),
    writeRows_lastWrite a b hlen.ge hlen'.ge] at hsame
  have hvm : [] = buf'.take r.size.toNat := congrArg Debugger.vm (Prod.mk.inj hsame).2
  rw [← hlen', List.take_length] at hvm
  rw [← hvm] at hlen'
  exact UInt64.toNat_inj.mp hlen'.symm

/-- A request for blocks of one size is handled like the one with a size for every block exactly if
it has one block at most, or two empty ones. -/
theorem serve_fixed_iff (r : ReqFixed VmPtr) (hr : r.Shaped) :
    (SameReads r ↔ r.n ≤ 1 ∨ r.n = 2 ∧ r.size = 0) ∧
      (SameWrites r ↔ r.n ≤ 1 ∨ r.n = 2 ∧ r.size = 0) :=
  ⟨⟨fun h => few_of_le_two (h.le_two hr) (h.size_eq hr), sameReads_of_few hr⟩,
    ⟨fun h => few_of_le_two (h.le_two hr) (h.size_eq hr), sameWrites_of_few hr⟩⟩

/-- Three blocks of two bytes are told apart. -/
theorem serve_fixed_iff_three :
    ¬ SameReads ⟨3, 2, [0, 8, 16], [[1, 2], [3, 4], [5, 6]]⟩ ∧
      ¬ SameWrites ⟨3, 2, [0, 8, 16], [[1, 2], [3, 4], [5, 6]]⟩ := by
  obtain ⟨hreads, hwrites⟩ :=
    serve_fixed_iff ⟨3, 2, [0, 8, 16], [[1, 2], [3, 4], [5, 6]]⟩ ⟨⟨rfl, rfl, by simp⟩, by decide⟩
  exact ⟨mt hreads.mp (by decide), mt hwrites.mp (by decide)⟩

/-- Two blocks of a byte, read and written: the second is left as the server made it, and an empty
one is written. A third block has no size. -/
theorem serve_fixed_differs :
    Debugger.Started lastWrite lastWriteDb ∧
      (readHandled lastWrite ⟨2, 1, [0, 1], [[0], [0]]⟩ lastWriteDb).1 = .ok [[1], [0]] ∧
      (readVarHandled lastWrite ⟨2, 1, [0, 1], [[0], [0]]⟩ lastWriteDb).1 = .ok [[1], [1]] ∧
      (writeHandled lastWrite ⟨2, 1, [0, 1], [[5], [6]]⟩ lastWriteDb).2.vm = [] ∧
      (writeVarHandled lastWrite ⟨2, 1, [0, 1], [[5], [6]]⟩ lastWriteDb).2.vm = [6] ∧
      (readHandled lastWrite ⟨3, 1, [0, 1, 2], [[0], [0], [0]]⟩ lastWriteDb).1 =
        .error .undefined ∧
      (readVarHandled lastWrite ⟨3, 1, [0, 1, 2], [[0], [0], [0]]⟩ lastWriteDb).1 =
        .ok [[1], [1], [1]] :=
  ⟨lastWriteDb_started, rfl, rfl, rfl, rfl, rfl, rfl⟩

end Odb
