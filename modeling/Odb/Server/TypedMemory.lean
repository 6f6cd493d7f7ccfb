import Odb.Mess.SimpleCLIClient
import Odb.Server.VMSide

/-!
# Typed memory on the command line

* `VMApi.Storage`: a VM whose memory is plain storage of bytes.
* `Floats.Lawful`, `Exact`: which integers a `double` has.
* `smem_pmem_iff`: whether values that `smem` stores are read back by `pmem`.
-/

namespace Odb

open Prog Wire

/-! ## Bytes of a number -/

namespace TypeDesc

theorem length_encode (ty : TypeDesc) (n : Int) : (ty.encode n).length = ty.size := length_leBytes _ _

theorem size_pos (ty : TypeDesc) : 0 < ty.size := by cases ty <;> decide

theorem size_le (ty : TypeDesc) : ty.size ≤ 8 := by cases ty <;> decide

theorem emod_lt (ty : TypeDesc) (n : Int) : (n % 2 ^ (8 * ty.size)).toNat < 256 ^ ty.size := by
  cases ty <;> simp only [size] <;> omega

theorem decode_encode {ty : TypeDesc} {n : Int} (h : ty.InRange n) :
    ty.decode (ty.encode n) = n := by
  unfold decode encode
  rw [leNat_leBytes (emod_lt ty n)]
  unfold InRange at h
  cases ty <;> simp [isSigned, size] at h ⊢ <;> omega

end TypeDesc

/-! ## The parts that are not of the program -/

/-- A `double` has the number: at most 53 bits between the first and the last that is set. -/
def Exact (n : Int) : Prop := ∃ (m : Int) (k : Nat), m.natAbs < 2 ^ 53 ∧ n = m * 2 ^ k

/-- A `long long` is converted to a number that a `double` has, to itself if it is one. -/
structure Floats.Lawful (F : Floats) : Prop where
  exact : ∀ {n}, Stoll.InRange n → Exact n → F.trunc (F.ofInt n) = some n
  rounded : ∀ {n m}, Stoll.InRange n → F.trunc (F.ofInt n) = some m → Exact m

/-- The memory after the bytes are stored at `addr`. -/
def stored (mem : Nat → UInt8) (addr : Nat) (bytes : Bytes) : Nat → UInt8 := fun i =>
  if addr ≤ i then bytes[i - addr]?.getD (mem i) else mem i

/-- The memory of the VM is storage of `size` bytes, which only writes change. -/
structure VMApi.Storage {V : Type} (api : VMApi V) (size : Nat) (mem : V → Nat → UInt8) : Prop where
  read : ∀ {addr n vm}, addr.toNat + n.toNat ≤ size → ∃ b vm', api.readMem addr n vm = (.ok b, vm') ∧
    b.1 = (List.range n.toNat).map (fun i => mem vm (addr.toNat + i)) ∧ mem vm' = mem vm
  write : ∀ {addr n b vm}, addr.toNat + n.toNat ≤ size → ∃ vm', api.writeMem addr n b vm = (.ok (), vm') ∧
    mem vm' = stored (mem vm) addr.toNat b.1

theorem stored_read (mem : Nat → UInt8) (addr : Nat) (bytes : Bytes) :
    (List.range bytes.length).map (fun i => stored mem addr bytes (addr + i)) = bytes := by
  refine List.ext_getElem (by simp) fun i _ hi => ?_
  simp [stored, hi]

/-- Where the bytes are stored tells them. -/
theorem stored_inj {mem : Nat → UInt8} {addr : Nat} {bytes bytes' : Bytes}
    (hlen : bytes.length = bytes'.length) (h : stored mem addr bytes = stored mem addr bytes') :
    bytes = bytes' := by
  rw [← stored_read mem addr bytes, hlen, h, stored_read]

namespace SimpleCLIClient

open DBClient

variable {F : Floats} {s : Bytes} {v : Nat}

/-! ## Literals -/

/-- A literal begins with a digit. -/
theorem literal_digit (h : Literal s v) : ∃ c ∈ s.head?, Stoll.isDigit 10 c = true := by
  cases h with
  | hex => exact ⟨48, rfl, rfl⟩
  | bin => exact ⟨48, rfl, rfl⟩
  | oct => exact ⟨48, rfl, rfl⟩
  | dec hds =>
    obtain ⟨c, t, rfl⟩ := List.exists_cons_of_ne_nil hds.1
    exact ⟨c, rfl, hds.2 c (by simp)⟩

theorem rValue_literal (h : Literal s v) : rValue F s = match parseInt s true with
    | .ok n => .ok (.ival n)
    | .error _ => (parseDouble F s).map .dval := by
  obtain ⟨c, hc, hdigit⟩ := literal_digit h
  have hat : ¬ (1 < s.length ∧ s.head? = some 64) := by
    rintro ⟨-, hat⟩
    obtain rfl := Option.some.inj (hc.symm.trans hat)
    cases hdigit
  unfold rValue
  rw [if_neg hat]
  rcases parseInt s true with e | n
  · rcases parseDouble F s <;> rfl
  · rfl

theorem rValue_small (h : Literal s v) (hv : v < 2 ^ 63) : rValue F s = .ok (.ival v) := by
  rw [rValue_literal h, parseInt_literal (.plain (literal_head h)) h hv]

/-- A number that does not fit in a `long long` is not an integer for `r_value`. -/
theorem rValue_large (h : Literal s v) (hv : 2 ^ 63 ≤ v) :
    rValue F s = (parseDouble F s).map .dval := by
  rw [rValue_literal h]
  rcases hparse : parseInt s true with e | n
  · rfl
  -- all of the literal is digits, so it would be its value that is in range
  obtain ⟨hds, rfl⟩ := literal_iff.mp h
  obtain ⟨s', hs', neg, pad, ds, hsplit, hpad, hds', rfl, hrange⟩ := parseInt_ok.mp hparse
  obtain rfl := hs'.unique (.plain (literal_head h))
  have hnil : pad = [] := by
    by_contra hne
    exact pad_not_digits (radix_le _) hpad hne (hsplit ▸ hds)
  rw [hnil, List.nil_append] at hsplit
  rw [pad_nil hpad hnil, ← hsplit] at hrange
  have : ((Stoll.value (radix s').1 (radix s').2 : Nat) : Int) < 2 ^ 63 := hrange.2
  omega

theorem rValue_ival_iff (h : Literal s v) : rValue F s = .ok (.ival v) ↔ v < 2 ^ 63 := by
  refine ⟨fun hval => ?_, rValue_small h⟩
  by_contra hv
  rw [rValue_large h (by omega)] at hval
  rcases hd : parseDouble F s with e | d <;> rw [hd] at hval <;> cases hval

theorem rValues_ival_iff {lits : List Bytes} {vals : List Nat} (h : List.Forall₂ Literal lits vals) :
    List.Forall₂ (fun lit (v : Nat) => rValue F lit = .ok (.ival v)) lits vals ↔
      ∀ v ∈ vals, v < 2 ^ 63 := by
  induction h with
  | nil => simp
  | cons hlit _ ih => rw [List.forall₂_cons, List.forall_mem_cons, rValue_ival_iff hlit, ih]

/-! ## Values -/

theorem loadVal_int {ty : TypeDesc} (hty : ty.isFloat = false) (n : Int) :
    loadVal F (.ival n) ty = match F.trunc (F.ofInt n) with
      | some m => if ty.InRange m then .ok (ty.encode m) else .error .undefined
      | none => .error .undefined := by
  unfold loadVal
  cases ty <;> try cases hty
  all_goals
    simp only [pure_bind]
    rcases F.trunc (F.ofInt n) with _ | m
    · rfl
    · rfl

section Commands

variable {V : Type} {api : VMApi V} {w w' : World (Debugger V)} {ty : TypeDesc}

/-- Values without symbols are not asked for. -/
theorem resolveVals_plain {σ : Type} {impl : DBClientImpl σ} {w : World σ}
    {vv : List (ValueVariant F.Double)}
    (hvv : ∀ v ∈ vv, (∃ n, v = .ival n) ∨ ∃ d, v = .dval d) :
    (resolveVals impl vv).on w = (.ok vv, w) := by
  have hnone {K : Type} (pick : ValueVariant F.Double → Option K) (hi : ∀ n, pick (.ival n) = none)
      (hd : ∀ d, pick (.dval d) = none) : vv.filterMap pick = [] := by
    rw [List.filterMap_eq_nil_iff]
    intro v hv
    obtain ⟨n, rfl⟩ | ⟨d, rfl⟩ := hvv v hv
    · exact hi n
    · exact hd d
  unfold resolveVals resolveSyms
  rw [hnone _ (fun _ => rfl) fun _ => rfl, if_pos rfl, pure_bind, hnone _ (fun _ => rfl) fun _ => rfl,
    if_pos rfl]
  rfl

theorem buffSize_toNat {n : Nat} (h : n * ty.size ≤ maxBytes) :
    (n.toUInt64 * ty.size.toUInt64).toNat = n * ty.size := by
  have hmax : maxBytes < 2 ^ 64 := by decide
  have hn : n < 2 ^ 64 := by
    have := Nat.le_mul_of_pos_right n ty.size_pos
    omega
  have hs : ty.size < 2 ^ 64 := lt_of_le_of_lt ty.size_le (by decide)
  rw [UInt64.toNat_mul, show n.toUInt64.toNat = n from UInt64.toNat_ofNat_of_lt' hn,
    show ty.size.toUInt64.toNat = ty.size from UInt64.toNat_ofNat_of_lt' hs]
  exact Nat.mod_eq_of_lt (by omega)

/-- `smem` of as many values as there are literals. -/
theorem cmdSmem_eq {σ : Type} {impl : DBClientImpl σ} {name tyName addrLit : Bytes}
    {lits : List Bytes} (hname : TypeDesc.parse tyName = .ok ty) (hne : lits ≠ [])
    (hbuf : lits.length * ty.size ≤ maxBytes) :
    cmdSmem F impl (name :: tyName :: addrLit :: lits) = do
      let vals ← Prog.lift ((addrLit :: lits).mapM (rValue F))
      let vals ← resolveVals impl vals
      let addr ← Prog.lift (address F (lit "smem") addrLit vals.head?)
      let items ← Prog.lift (vals.tail.mapM fun val => loadVal F val ty)
      writeMem impl [addr] [lits.length.toUInt64 * ty.size.toUInt64] [concat items]
      return [] := by
  have hlen : ¬ (name :: tyName :: addrLit :: lits).length < 4 := by
    have := List.length_pos_iff.mpr hne
    simp only [List.length_cons]
    omega
  unfold cmdSmem
  rw [if_neg hlen]
  show (Prog.lift (TypeDesc.parse tyName) >>= _ : ClientM σ Bytes) = _
  rw [hname, lift_ok, pure_bind]
  dsimp only
  rw [show (name :: tyName :: addrLit :: lits).length - 3 = lits.length from rfl, resize,
    if_pos ((buffSize_toNat hbuf).trans_le hbuf), lift_ok, pure_bind]
  rfl

/-- `smem` after its values are read. -/
theorem cmdSmem_on {σ : Type} {impl : DBClientImpl σ} {w : World σ} {name tyName addrLit : Bytes}
    {lits : List Bytes} {a : ValueVariant F.Double} {vals : List (ValueVariant F.Double)}
    (hname : TypeDesc.parse tyName = .ok ty) (hne : lits ≠ [])
    (hbuf : lits.length * ty.size ≤ maxBytes) (ha : rValue F addrLit = .ok a)
    (hvals : lits.mapM (rValue F) = .ok vals)
    (hplain : ∀ v ∈ a :: vals, (∃ n, v = .ival n) ∨ ∃ d, v = .dval d) :
    (cmdSmem F impl (name :: tyName :: addrLit :: lits)).on w = (do
      let addr ← Prog.lift (address F (lit "smem") addrLit (some a))
      let items ← Prog.lift (vals.mapM fun val => loadVal F val ty)
      writeMem impl [addr] [lits.length.toUInt64 * ty.size.toUInt64] [concat items]
      return [] : ClientM σ Bytes).on w := by
  have hread : (addrLit :: lits).mapM (rValue F) = .ok (a :: vals) := by
    rw [List.mapM_cons, ha, ok_bind, hvals]
    rfl
  rw [cmdSmem_eq hname hne hbuf, hread, lift_ok, pure_bind, on_bind_ok (resolveVals_plain hplain)]
  rfl

/-- One block written to storage. -/
theorem writeMem_on {size : Nat} {mem : V → Nat → UInt8} (hvm : api.Storage size mem)
    (hstopped : w.client.state = .vmStopped) {addr : VmPtr} {n : VmSize} {buf : Bytes}
    (hlen : buf.length = n.toNat) (hvalid : addr.toNat + n.toNat ≤ size) :
    ∃ w', (writeMem (VMSide.impl api) [addr] [n] [buf]).on w = (.ok (), w') ∧
      w'.client = w.client ∧ mem w'.impl.vm = stored (mem w.impl.vm) addr.toNat buf := by
  obtain ⟨vm', hwrite, hmem⟩ := @hvm.write addr n ⟨buf.take n.toNat, by simp [hlen]⟩ w.impl.vm hvalid
  have hcall : (Debugger.writeMem api addr n buf).on w.impl =
      (.ok (), { w.impl with vm := vm' }) := by
    unfold Debugger.writeMem
    rw [dif_pos hlen.ge, Debugger.callVM, on_of, hwrite]
    rfl
  have hrow : (VMSide.writeMem api [addr] [n] [buf]).on w.impl =
      (.ok (), { w.impl with vm := vm' }) := by
    show ((Debugger.writeMem api addr n buf >>= fun _ => pure ()) : DbM V Unit).on w.impl = _
    rw [on_bind_ok hcall]
    rfl
  refine ⟨{ w with impl := { w.impl with vm := vm' } }, ?_, rfl, ?_⟩
  · unfold writeMem forward
    rw [on_bind_ok ((@assertState_ok _ w w () _).mpr ⟨hstopped, rfl⟩), call]
    exact on_zoom hrow
  · rw [hmem]
    simp only
    rw [List.take_of_length_le hlen.le]

/-- One block read from storage. -/
theorem readMem_on {size : Nat} {mem : V → Nat → UInt8} (hvm : api.Storage size mem)
    (hstopped : w.client.state = .vmStopped) {addr : VmPtr} {n : VmSize} {buf : Bytes}
    (hlen : buf.length = n.toNat) (hvalid : addr.toNat + n.toNat ≤ size) :
    ∃ w', (readMem (VMSide.impl api) [addr] [n] [buf]).on w =
      (.ok [(List.range n.toNat).map fun i => mem w.impl.vm (addr.toNat + i)], w') := by
  obtain ⟨b, vm', hread, hb, -⟩ := @hvm.read addr n w.impl.vm hvalid
  have hcall : (Debugger.readMem api addr n).on w.impl = (.ok b, { w.impl with vm := vm' }) := by
    unfold Debugger.readMem
    rw [Debugger.callVM, on_of, hread]
    rfl
  have hcopy : VMSide.overwrite buf b.1 = .ok b.1 := by
    rw [VMSide.overwrite, if_pos (by rw [b.2, hlen]), b.2, List.drop_of_length_le hlen.le,
      List.append_nil]
  have hrow : (VMSide.readRow api [n] 0 addr buf).on w.impl =
      (.ok b.1, { w.impl with vm := vm' }) := by
    show ((Debugger.readMem api addr n >>= fun b => Prog.lift (VMSide.overwrite buf b.1)) :
      DbM V Bytes).on w.impl = _
    rw [on_bind_ok hcall, hcopy]
    rfl
  have hrun : (VMSide.readMem api [addr] [n] [buf]).on w.impl =
      (.ok [b.1], { w.impl with vm := vm' }) := by
    unfold VMSide.readMem VMSide.fill
    rw [show itemsAt [buf] [addr].length = .ok [buf] from rfl, lift_ok, pure_bind,
      show ([addr].zip [buf]).zipIdx = [((addr, buf), 0)] from rfl,
      show itemsAt [buf] [((addr, buf), 0)].length = .ok [buf] from rfl, lift_ok, pure_bind,
      List.mapM_cons, bind_assoc]
    rw [on_bind_ok hrow]
    rfl
  refine ⟨{ w with impl := { w.impl with vm := vm' } }, ?_⟩
  unfold readMem forward
  rw [on_bind_ok ((@assertState_ok _ w w () _).mpr ⟨hstopped, rfl⟩), call, ← hb]
  exact on_zoom hrun

/-- Items of one length in a row. -/
theorem drop_flatMap {α : Type} {enc : α → Bytes} {k : Nat} (henc : ∀ x, (enc x).length = k)
    {xs : List α} {i : Nat} (hi : i < xs.length) :
    ((xs.flatMap enc).drop (i * k)).take k = enc xs[i] ∧
      k ≤ ((xs.flatMap enc).drop (i * k)).length := by
  induction xs generalizing i with
  | nil => cases hi
  | cons x xs ih =>
    rw [List.flatMap_cons]
    obtain _ | i := i
    · rw [Nat.zero_mul, List.drop_zero, List.take_append_of_le_length (henc x).ge,
        List.take_of_length_le (henc x).le, List.length_append, henc x]
      exact ⟨rfl, Nat.le_add_right _ _⟩
    · rw [Nat.succ_mul, Nat.add_comm, ← henc x, List.drop_length_add_append, henc x]
      exact ih (by simpa using hi)

theorem length_encodes (ty : TypeDesc) (vals : List Nat) :
    (vals.flatMap fun v : Nat => ty.encode v).length = vals.length * ty.size := by
  induction vals with
  | nil => exact (Nat.zero_mul _).symm
  | cons v vals ih =>
    rw [List.flatMap_cons, List.length_append, ty.length_encode, ih, List.length_cons, Nat.succ_mul,
      Nat.add_comm]

/-- What `print_val` prints of the items. -/
theorem printVals_ok (hty : ty.isFloat = false) {vals : List Nat}
    (hrange : ∀ v ∈ vals, ty.InRange v) :
    (List.range vals.length).mapM (fun i => do
      return (← printVal F ((vals.flatMap fun v : Nat => ty.encode v).drop (i * ty.size)) ty) ++ lit " ") =
        .ok (vals.map fun v => dec v ++ lit " ") := by
  rw [mapM_eq_ok, List.forall₂_iff_get]
  refine ⟨by simp, fun i hi hi' => ?_⟩
  have hlt : i < vals.length := by simpa using hi
  obtain ⟨hitem, hlen⟩ := drop_flatMap (fun v : Nat => ty.length_encode v) hlt
  have hdec : ty.decode (ty.encode vals[i]) = vals[i] :=
    TypeDesc.decode_encode (hrange _ (List.getElem_mem hlt))
  have hprint : printVal F ((vals.flatMap fun v : Nat => ty.encode v).drop (i * ty.size)) ty =
      .ok (dec vals[i]) := by
    unfold printVal
    rw [if_pos hlen, hitem]
    cases ty <;> try cases hty
    all_goals
      simp only [hdec]
      rfl
  simp only [List.get_eq_getElem, List.getElem_range, List.getElem_map, hprint]
  rfl

theorem ofInt_natCast (n : Nat) : UInt64.ofInt n = n.toUInt64 := by
  rw [UInt64.ofInt, ← UInt64.toNat_inj]
  show (UInt64.ofNat ((n : Int) % 2 ^ 64).toNat).toNat = (UInt64.ofNat n).toNat
  rw [UInt64.toNat_ofNat', UInt64.toNat_ofNat']
  omega

theorem address_natCast (name s : Bytes) (n : Nat) :
    address F name s (some (.ival n)) = .ok n.toUInt64 := by
  rw [address, if_neg (by omega), ofInt_natCast]

theorem toNat_toUInt64 {n : Nat} (h : n < 2 ^ 64) : n.toUInt64.toNat = n :=
  UInt64.toNat_ofNat_of_lt' h

/-- `pmem` of values that are stored. -/
theorem cmdPmem_on {size : Nat} {mem : V → Nat → UInt8} (hvm : api.Storage size mem)
    (hstopped : w.client.state = .vmStopped) {name tyName addrLit cntLit : Bytes} {addr : Nat}
    {vals : List Nat} (hname : TypeDesc.parse tyName = .ok ty) (hty : ty.isFloat = false)
    (haddr : Literal addrLit addr) (hsmall : addr < 2 ^ 63) (hcnt : Literal cntLit vals.length)
    (hrange : ∀ v ∈ vals, ty.InRange v) (hvalid : addr + vals.length * ty.size ≤ size)
    (hbuf : vals.length * ty.size ≤ maxBytes) {m : Nat → UInt8}
    (hmem : mem w.impl.vm = stored m addr (vals.flatMap fun v : Nat => ty.encode v)) :
    ∃ w', (cmdPmem F (VMSide.impl api) [name, tyName, addrLit, cntLit]).on w =
      (.ok (vals.flatMap fun v => dec v ++ lit " "), w') := by
  have hmax : maxBytes < 2 ^ 63 := by decide
  have hcount : vals.length < 2 ^ 63 := by
    have := Nat.le_mul_of_pos_right vals.length ty.size_pos
    omega
  have hsize := buffSize_toNat hbuf
  have hlen := length_encodes ty vals
  have haddr' : addr.toUInt64.toNat = addr := toNat_toUInt64 (by omega)
  obtain ⟨w', hread⟩ := @readMem_on V api w size mem hvm hstopped addr.toUInt64
    (vals.length.toUInt64 * ty.size.toUInt64) (List.replicate (vals.length * ty.size) 0)
    (by rw [List.length_replicate, hsize]) (by rw [haddr', hsize]; exact hvalid)
  rw [haddr', hsize, hmem, ← hlen, stored_read, hlen] at hread
  refine ⟨w', ?_⟩
  unfold cmdPmem
  rw [if_neg (by simp)]
  show ((Prog.lift (TypeDesc.parse tyName) >>= _ : ClientM _ Bytes)).on w = _
  rw [hname, lift_ok, pure_bind]
  show ((Prog.lift (parseInt cntLit false) >>= _ : ClientM _ Bytes)).on w = _
  rw [parseInt_literal (.plain (literal_head hcnt)) hcnt hcount, lift_ok, pure_bind]
  dsimp only
  rw [ofInt_natCast, resize, if_pos (hsize.trans_le hbuf), lift_ok, pure_bind]
  show ((Prog.lift (rValue F addrLit) >>= _ : ClientM _ Bytes)).on w = _
  rw [rValue_small haddr hsmall, lift_ok, pure_bind, on_bind_ok (resolveVals_plain (by simp))]
  show ((Prog.lift (address F (lit "pmem") addrLit (some (.ival addr))) >>= _ :
    ClientM _ Bytes)).on w = _
  rw [address_natCast, lift_ok, pure_bind, List.take_nil, List.nil_append, hsize]
  rw [show vals.length * ty.size - ([] : Bytes).length = vals.length * ty.size from rfl,
    on_bind_ok hread, toNat_toUInt64 (by omega)]
  dsimp only [List.headD_cons]
  rw [printVals_ok hty hrange]
  rfl

/-! ## Commands that are executed -/

theorem exec_on_ok {σ : Type} {impl : DBClientImpl σ} {w w' : World σ} {line name out : Bytes}
    {args : List Bytes} (hline : words line = name :: args)
    (h : (dispatch F impl (name :: args) name).on w = (.ok out, w')) :
    (exec F impl line).on w = (.ok out, w') := by
  unfold exec
  rw [hline]
  dsimp only
  rw [on_handle, h]

/-- Only a command that returns prints nothing. -/
theorem exec_on_nil {σ : Type} {impl : DBClientImpl σ} {w w' : World σ} {line name : Bytes}
    {args : List Bytes} (hline : words line = name :: args)
    (h : (exec F impl line).on w = (.ok [], w')) :
    (dispatch F impl (name :: args) name).on w = (.ok [], w') := by
  unfold exec at h
  rw [hline] at h
  dsimp only at h
  rw [on_handle] at h
  rcases hrun : (dispatch F impl (name :: args) name).on w with ⟨e | out, w₁⟩ <;> rw [hrun] at h
  · cases e <;> cases h
  · exact h

/-! ## Reading back -/

/-- The lines `smem <type> <addr> v1 .. vn` and `pmem <type> <addr> n`, with literals of the address
and of values of the integer type; the values fit in a vector. -/
structure Lines (ty : TypeDesc) (addr : Nat) (lits : List Bytes) (vals : List Nat)
    (smemLine pmemLine : Bytes) : Prop where
  int : ty.isFloat = false
  nonempty : lits ≠ []
  literals : List.Forall₂ Literal lits vals
  range : ∀ v ∈ vals, ty.InRange v
  buffer : lits.length * ty.size ≤ maxBytes
  line : ∃ tyName addrLit cntLit, TypeDesc.parse tyName = .ok ty ∧ Literal addrLit addr ∧
    Literal cntLit lits.length ∧ words smemLine = lit "smem" :: tyName :: addrLit :: lits ∧
    words pmemLine = [lit "pmem", tyName, addrLit, cntLit]

/-- The first line stores the bytes of the values and nothing else, the second then prints the values,
and every literal is an integer for `r_value`. -/
def ReadsBack (F : Floats) (api : VMApi V) (mem : V → Nat → UInt8) (ty : TypeDesc) (addr : Nat)
    (lits : List Bytes) (vals : List Nat) (smemLine pmemLine : Bytes) (w : World (Debugger V)) :
    Prop :=
  (∃ w₁ w₂, (exec F (VMSide.impl api) smemLine).on w = (.ok [], w₁) ∧
    mem w₁.impl.vm = stored (mem w.impl.vm) addr (vals.flatMap fun v : Nat => ty.encode v) ∧
    (exec F (VMSide.impl api) pmemLine).on w₁ =
      (.ok (vals.flatMap fun v => dec v ++ lit " "), w₂)) ∧
  List.Forall₂ (fun lit (v : Nat) => rValue F lit = .ok (.ival v)) lits vals

theorem length_items {vals : List Nat} {items : List Bytes}
    (h : List.Forall₂ (fun _ item => ∃ m, Exact m ∧ ty.InRange m ∧ item = ty.encode m) vals items) :
    (concat items).length = vals.length * ty.size := by
  unfold concat
  induction h with
  | nil => exact (Nat.zero_mul _).symm
  | cons hitem _ ih =>
    obtain ⟨m, -, -, rfl⟩ := hitem
    rw [List.flatten_cons, List.length_append, ty.length_encode, ih, List.length_cons, Nat.succ_mul,
      Nat.add_comm]

/-- Items that are the bytes of the values are those of numbers that a `double` has. -/
theorem exact_of_items {vals : List Nat} {items : List Bytes}
    (h : List.Forall₂ (fun _ item => ∃ m, Exact m ∧ ty.InRange m ∧ item = ty.encode m) vals items)
    (hrange : ∀ v ∈ vals, ty.InRange v)
    (heq : concat items = vals.flatMap fun v : Nat => ty.encode v) : ∀ v ∈ vals, Exact v := by
  induction h with
  | nil => exact List.forall_mem_nil _
  | @cons v item vals items hitem _ ih =>
    obtain ⟨m, hexact, hm, rfl⟩ := hitem
    rw [List.forall_mem_cons] at hrange
    obtain ⟨hhead, htail⟩ := List.append_inj heq (by rw [ty.length_encode, ty.length_encode])
    obtain rfl : m = v := by
      rw [← TypeDesc.decode_encode hm, hhead, TypeDesc.decode_encode hrange.1]
    exact List.forall_mem_cons.mpr ⟨hexact, ih hrange.2 htail⟩

theorem loadVal_ok (hF : F.Lawful) (hty : ty.isFloat = false) {n : Int} (hn : Stoll.InRange n)
    {item : Bytes} (h : loadVal F (.ival n) ty = .ok item) :
    ∃ m, Exact m ∧ ty.InRange m ∧ item = ty.encode m := by
  rw [loadVal_int hty] at h
  rcases htrunc : F.trunc (F.ofInt n) with _ | m <;> rw [htrunc] at h
  · cases h
  by_cases hm : ty.InRange m
  · simp only [if_pos hm] at h
    exact ⟨m, hF.rounded hn htrunc, hm, (Except.ok.inj h).symm⟩
  · simp only [if_neg hm] at h
    cases h

theorem loadVal_exact (hF : F.Lawful) (hty : ty.isFloat = false) {n : Int} (hn : Stoll.InRange n)
    (hrange : ty.InRange n) (hexact : Exact n) : loadVal F (.ival n) ty = .ok (ty.encode n) := by
  rw [loadVal_int hty, hF.exact hn hexact]
  exact if_pos hrange

theorem inRange_small (hv : v < 2 ^ 63) : Stoll.InRange v := by
  unfold Stoll.InRange
  omega

/-- Values that `smem` stores as their bytes, at an address that it accepts, are those that a
`double` has. -/
theorem exact_of_smem (hF : F.Lawful) {size : Nat} {mem : V → Nat → UInt8}
    (hvm : api.Storage size mem) (hstopped : w.client.state = .vmStopped) {addr : Nat}
    {lits : List Bytes} {vals : List Nat} {name tyName addrLit : Bytes} (hty : ty.isFloat = false)
    (hname : TypeDesc.parse tyName = .ok ty) (hne : lits ≠ [])
    (hbuf : lits.length * ty.size ≤ maxBytes) (hlits : List.Forall₂ Literal lits vals)
    (hrange : ∀ v ∈ vals, ty.InRange v) (hsmall : ∀ v ∈ vals, v < 2 ^ 63)
    (haddr : Literal addrLit addr) (haddrSmall : addr < 2 ^ 63)
    (hvalid : addr + lits.length * ty.size ≤ size)
    (hread : lits.mapM (rValue F) = .ok (vals.map fun v : Nat => .ival v))
    (hsmem : (cmdSmem F (VMSide.impl api) (name :: tyName :: addrLit :: lits)).on w = (.ok [], w'))
    (hmem : mem w'.impl.vm =
      stored (mem w.impl.vm) addr (vals.flatMap fun v : Nat => ty.encode v)) :
    ∀ v ∈ vals, Exact v := by
  have hcount : lits.length = vals.length := hlits.length_eq
  rw [cmdSmem_on hname hne hbuf (rValue_small haddr haddrSmall) hread (by simp), address_natCast,
    lift_ok, pure_bind] at hsmem
  obtain ⟨items, w₁, hitems, hsmem⟩ := bind_eq_ok.mp hsmem
  obtain ⟨hloads, rfl⟩ := lift_eq_ok.mp hitems
  rw [mapM_eq_ok, List.forall₂_map_left_iff] at hloads
  have hexact := forall₂_imp_mem hloads fun v item hv hitem =>
    loadVal_ok hF hty (inRange_small (hsmall v hv)) hitem
  have hlen := length_items hexact
  obtain ⟨w₂, hwrite, -, hmem'⟩ := @writeMem_on V api w size mem hvm hstopped addr.toUInt64
    (lits.length.toUInt64 * ty.size.toUInt64) (concat items)
    (by rw [hlen, buffSize_toNat hbuf, hcount])
    (by rw [buffSize_toNat hbuf, toNat_toUInt64 (by omega)]; exact hvalid)
  rw [on_bind_ok hwrite] at hsmem
  obtain rfl : w₂ = w' := (Prod.mk.inj hsmem).2
  rw [hmem', toNat_toUInt64 (by omega)] at hmem
  refine exact_of_items hexact hrange (stored_inj ?_ hmem)
  rw [hlen, length_encodes]

theorem ReadsBack.fits (hF : F.Lawful) {size : Nat} {mem : V → Nat → UInt8}
    (hvm : api.Storage size mem) (hstopped : w.client.state = .vmStopped) {addr : Nat}
    {lits : List Bytes} {vals : List Nat} {smemLine pmemLine : Bytes}
    (h : Lines ty addr lits vals smemLine pmemLine)
    (hvalid : addr + lits.length * ty.size ≤ size) :
    ReadsBack F api mem ty addr lits vals smemLine pmemLine w →
      addr < 2 ^ 63 ∧ ∀ v ∈ vals, v < 2 ^ 63 ∧ Exact v := by
  obtain ⟨hty, hne, hlits, hrange, hbuf, tyName, addrLit, cntLit, hname, haddr, hcnt, hsmemLine,
    hpmemLine⟩ := h
  rintro ⟨⟨w₁, w₂, hsmem, hmem, -⟩, hints⟩
  have hsmall : ∀ v ∈ vals, v < 2 ^ 63 := (rValues_ival_iff hlits).mp hints
  have hread : lits.mapM (rValue F) = .ok (vals.map fun v : Nat => .ival v) :=
    mapM_eq_ok.mpr (List.forall₂_map_right_iff.mpr hints)
  have hcmd : (cmdSmem F (VMSide.impl api) (lit "smem" :: tyName :: addrLit :: lits)).on w =
      (.ok [], w₁) := exec_on_nil hsmemLine hsmem
  have haddrSmall : addr < 2 ^ 63 := by
    by_contra hlarge
    rw [cmdSmem_eq hname hne hbuf, List.mapM_cons, rValue_large haddr (by omega), hread] at hcmd
    rcases hd : parseDouble F addrLit with e | d <;> rw [hd] at hcmd
    · cases hcmd
    -- a double is no address
    · rw [show ((Except.ok d).map ValueVariant.dval >>= fun y =>
        Except.ok (vals.map fun v : Nat => .ival v) >>= fun ys => pure (y :: ys) : Except Fault _) =
          .ok (.dval d :: vals.map fun v : Nat => .ival v) from rfl, lift_ok, pure_bind,
        on_bind_ok (resolveVals_plain (by simp))] at hcmd
      cases hcmd
  exact ⟨haddrSmall, fun v hv => ⟨hsmall v hv, exact_of_smem hF hvm hstopped hty hname hne hbuf
    hlits hrange hsmall haddr haddrSmall hvalid hread hcmd hmem v hv⟩⟩

theorem readsBack_of_fits (hF : F.Lawful) {size : Nat} {mem : V → Nat → UInt8}
    (hvm : api.Storage size mem) (hstopped : w.client.state = .vmStopped) {addr : Nat}
    {lits : List Bytes} {vals : List Nat} {smemLine pmemLine : Bytes}
    (h : Lines ty addr lits vals smemLine pmemLine)
    (hvalid : addr + lits.length * ty.size ≤ size) :
    (addr < 2 ^ 63 ∧ ∀ v ∈ vals, v < 2 ^ 63 ∧ Exact v) →
      ReadsBack F api mem ty addr lits vals smemLine pmemLine w := by
  obtain ⟨hty, hne, hlits, hrange, hbuf, tyName, addrLit, cntLit, hname, haddr, hcnt, hsmemLine,
    hpmemLine⟩ := h
  have hcount : lits.length = vals.length := hlits.length_eq
  rintro ⟨haddrSmall, hvals⟩
  have hints : List.Forall₂ (fun lit (v : Nat) => rValue F lit = .ok (.ival v)) lits vals :=
    (rValues_ival_iff hlits).mpr fun v hv => (hvals v hv).1
  have hread : lits.mapM (rValue F) = .ok (vals.map fun v : Nat => .ival v) :=
    mapM_eq_ok.mpr (List.forall₂_map_right_iff.mpr hints)
  have hload : (vals.map fun v : Nat => ValueVariant.ival v).mapM (fun val => loadVal F val ty) =
      .ok (vals.map fun v : Nat => ty.encode v) := by
    rw [mapM_eq_ok, List.forall₂_map_left_iff, List.forall₂_map_right_iff, List.forall₂_same]
    intro v hv
    obtain ⟨hsmall, hexact⟩ := hvals v hv
    exact loadVal_exact hF hty (inRange_small hsmall) (hrange v hv) hexact
  obtain ⟨w₁, hwrite, hclient, hmem⟩ := @writeMem_on V api w size mem hvm hstopped addr.toUInt64
    (lits.length.toUInt64 * ty.size.toUInt64) (vals.flatMap fun v : Nat => ty.encode v)
    (by rw [length_encodes, buffSize_toNat hbuf, hcount])
    (by rw [buffSize_toNat hbuf, toNat_toUInt64 (by omega)]; exact hvalid)
  rw [toNat_toUInt64 (by omega)] at hmem
  have hsmem : (cmdSmem F (VMSide.impl api) (lit "smem" :: tyName :: addrLit :: lits)).on w =
      (.ok [], w₁) := by
    rw [cmdSmem_on hname hne hbuf (rValue_small haddr haddrSmall) hread (by simp),
      address_natCast, lift_ok, pure_bind, hload, lift_ok, pure_bind, concat,
      ← List.flatMap_def, on_bind_ok hwrite]
    rfl
  rw [hcount] at hcnt hvalid hbuf
  obtain ⟨w₂, hpmem⟩ := cmdPmem_on hvm (hclient ▸ hstopped) hname hty haddr haddrSmall hcnt hrange
    hvalid hbuf hmem
  exact ⟨⟨w₁, w₂, exec_on_ok hsmemLine hsmem, hmem, exec_on_ok hpmemLine hpmem⟩, hints⟩

/-- Values are read back exactly if they and the address fit in a `long long` and the values are
numbers that a `double` has. -/
theorem smem_pmem_iff (hF : F.Lawful) {size : Nat} {mem : V → Nat → UInt8}
    (hvm : api.Storage size mem) (hstopped : w.client.state = .vmStopped) {addr : Nat}
    {lits : List Bytes} {vals : List Nat} {smemLine pmemLine : Bytes}
    (h : Lines ty addr lits vals smemLine pmemLine)
    (hvalid : addr + lits.length * ty.size ≤ size) :
    ReadsBack F api mem ty addr lits vals smemLine pmemLine w ↔
      addr < 2 ^ 63 ∧ ∀ v ∈ vals, v < 2 ^ 63 ∧ Exact v :=
  ⟨ReadsBack.fits hF hvm hstopped h hvalid, readsBack_of_fits hF hvm hstopped h hvalid⟩

end Commands

/-! ### Plain memory of 100 bytes -/

/-- The number without the bits that a `double` has no room for. -/
def truncated (n : Int) : Int :=
  n.tdiv (2 ^ (n.natAbs.log2 - 52)) * 2 ^ (n.natAbs.log2 - 52)

theorem exact_truncated (n : Int) : Exact (truncated n) := by
  refine ⟨n.tdiv (2 ^ (n.natAbs.log2 - 52)), n.natAbs.log2 - 52, ?_, rfl⟩
  rw [Int.natAbs_tdiv, Int.natAbs_pow]
  refine Nat.div_lt_of_lt_mul ?_
  show n.natAbs < 2 ^ (n.natAbs.log2 - 52) * 2 ^ 53
  rw [← Nat.pow_add]
  exact lt_of_lt_of_le Nat.lt_log2_self (Nat.pow_le_pow_right (by decide) (by omega))

theorem truncated_of_exact {n : Int} (h : Exact n) : truncated n = n := by
  obtain ⟨m, j, hm, hn⟩ := h
  refine Int.tdiv_mul_cancel ?_
  by_cases hj : n.natAbs.log2 - 52 ≤ j
  · obtain ⟨t, ht⟩ := Nat.exists_eq_add_of_le hj
    refine ⟨m * 2 ^ t, hn.trans ?_⟩
    rw [ht, Int.pow_add]
    exact Int.mul_left_comm ..
  · -- the number is too small to lose bits
    exfalso
    have hne : n.natAbs ≠ 0 := by
      intro hzero
      rw [hzero] at hj
      exact hj (Nat.zero_le _)
    have hle := Nat.log2_self_le hne
    have habs : n.natAbs = m.natAbs * 2 ^ j := by
      rw [hn, Int.natAbs_mul, Int.natAbs_pow]
      rfl
    have hlt : n.natAbs < 2 ^ 53 * 2 ^ j := by
      rw [habs]
      exact Nat.mul_lt_mul_of_pos_right hm (Nat.two_pow_pos j)
    rw [← Nat.pow_add] at hlt
    have := (Nat.pow_lt_pow_iff_right (show 1 < 2 by decide)).mp (lt_of_le_of_lt hle hlt)
    omega

/-- Floating-point numbers that are integers, rounded towards zero; none can be read or printed. -/
def integral : Floats where
  Double := Int
  stod _ := none
  ofInt := truncated
  trunc := some
  float _ := 0
  double _ := 0
  showFloat _ := []
  showDouble _ := []

theorem integral_lawful : integral.Lawful where
  exact _ h := congrArg some (truncated_of_exact h)
  rounded {n _} _ h := Option.some.inj h ▸ exact_truncated n

/-- A VM with nothing but memory. -/
def memory : VMApi (Nat → UInt8) where
  getVmInfos vm := (.ok { Debugger.noInfos with memorySize := 100 }, vm)
  getUpdateInfos vm := (.ok ⟨.ok, 0⟩, vm)
  getReg _ _ _ vm := (.error [], vm)
  setReg _ _ vm := (.error [], vm)
  findRegId _ vm := (.error [], vm)
  readMem addr size vm :=
    if addr.toNat + size.toNat ≤ 100 then
      (.ok ⟨(List.range size.toNat).map fun i => vm (addr.toNat + i), by simp⟩, vm)
    else (.error [], vm)
  writeMem addr size buf vm :=
    if addr.toNat + size.toNat ≤ 100 then (.ok (), stored vm addr.toNat buf.1) else (.error [], vm)
  getSymbols _ _ vm := (.error [], vm)
  getSymbInfos _ vm := (.error [], vm)
  findSymId _ vm := (.error [], vm)
  getCodeText _ vm := (.error [], vm)

theorem memory_storage : memory.Storage 100 id where
  read h := ⟨_, _, if_pos h, rfl, rfl⟩
  write h := ⟨_, if_pos h, rfl⟩

/-- A client that is connected to it, all its bytes 0. -/
def memoryClient : World (Debugger (Nat → UInt8)) :=
  ⟨{ new Serial.blank with state := .vmStopped }, .new (fun _ => 0) 0⟩

theorem literal_one : Literal (lit "1") 1 :=
  .dec ⟨nofun, by decide +kernel⟩ (by decide)

theorem literal_sixteen : Literal (lit "16") 16 :=
  .dec ⟨nofun, by decide +kernel⟩ (by decide)

theorem lines_bytes : Lines .u8 16 [lit "1", lit "0x2a", lit "07"] [1, 42, 7]
    (lit "smem u8 16 1 0x2a 07") (lit "pmem u8 16 3") where
  int := rfl
  nonempty := nofun
  literals := .cons literal_one (.cons (.hex ⟨nofun, by decide +kernel⟩)
    (.cons (.oct (by decide +kernel)) .nil))
  range := by decide
  buffer := by decide
  line := ⟨lit "u8", lit "16", lit "3", rfl, literal_sixteen,
    .dec ⟨nofun, by decide +kernel⟩ (by decide), rfl, rfl⟩

/-- Three bytes in three bases. -/
theorem smem_pmem_iff_bytes :
    ReadsBack integral memory id .u8 16 [lit "1", lit "0x2a", lit "07"] [1, 42, 7]
      (lit "smem u8 16 1 0x2a 07") (lit "pmem u8 16 3") memoryClient ↔
    16 < 2 ^ 63 ∧ ∀ v ∈ [1, 42, 7], v < 2 ^ 63 ∧ Exact (v : Nat) :=
  smem_pmem_iff integral_lawful memory_storage rfl lines_bytes (by decide)

/-- `2 ^ 53 + 1` has 54 bits. -/
theorem not_exact : ¬ Exact 9007199254740993 := by
  rintro ⟨m, k, hm, hn⟩
  obtain _ | k := k
  · rw [Int.pow_zero, Int.mul_one] at hn
    omega
  · rw [Int.pow_succ, ← Int.mul_assoc] at hn
    omega

theorem literal_large : Literal (lit "9007199254740993") 9007199254740993 := by
  have hval : Stoll.value 10 (lit "9007199254740993") = 9007199254740993 := rfl
  rw [← hval]
  exact .dec ⟨nofun, by decide +kernel⟩ (by decide)

theorem lines_large : Lines .u64 16 [lit "9007199254740993"] [9007199254740993]
    (lit "smem u64 16 9007199254740993") (lit "pmem u64 16 1") where
  int := rfl
  nonempty := nofun
  literals := .cons literal_large .nil
  range := by decide
  buffer := by decide
  line := ⟨lit "u64", lit "16", lit "1", rfl, literal_sixteen, literal_one, rfl, rfl⟩

/-- `2 ^ 53 + 1` is not read back. -/
theorem smem_rounds :
    Lines .u64 16 [lit "9007199254740993"] [9007199254740993]
      (lit "smem u64 16 9007199254740993") (lit "pmem u64 16 1") ∧
    integral.Lawful ∧ memory.Storage 100 id ∧
    ¬ ReadsBack integral memory id .u64 16 [lit "9007199254740993"] [9007199254740993]
      (lit "smem u64 16 9007199254740993") (lit "pmem u64 16 1") memoryClient := by
  refine ⟨lines_large, integral_lawful, memory_storage, fun h => ?_⟩
  have hfits := h.fits integral_lawful memory_storage rfl lines_large (by decide)
  exact not_exact (hfits.2 _ (List.mem_singleton_self _)).2

end SimpleCLIClient

end Odb
