import Odb.Mess.RoundTrip

/-!
# Malformed requests

What `server_read_request` makes of any bytes. Counts, sizes and the length of the block of names come
from the peer.

* `Decodes`: the decoding stops at the check of `SerialInBuff::read`, or what it yields points into
  the buffers that were made for it; and no total that it computes on the way wraps around.
* `InBounds`: the rows that the bytes announce fit in an object, and there are as many names as
  announced; or the bytes end before they announce so much.
* `serverReadRequest_inBounds_iff`: the first holds exactly of the bytes of which the second does.
-/

namespace Odb

open Prog Serial Wire

/-! ## What the bytes announce -/

def u16At (bs : Bytes) (i : Nat) : UInt16 := UInt16.ofNat (leNat ((bs.drop i).take 2))

def u64At (bs : Bytes) (i : Nat) : UInt64 := UInt64.ofNat (leNat ((bs.drop i).take 8))

/-- The `n` sizes that begin at byte `i`. -/
def sizesAt (bs : Bytes) (i n : Nat) : List VmSize :=
  words (fun bs => UInt64.ofNat (leNat bs)) 8 n (bs.drop i)

/-- The requests with one size and ids of `k` bytes: the bytes end before the ids do, or an object
can hold the rows. -/
def FixedBounds (k : Nat) (bs : Bytes) : Prop :=
  bs.length < 10 + (u16At bs 0).toNat * k ∨ (u16At bs 0).toNat * (u64At bs 2).toNat ≤ maxBytes

/-- The sizes that follow the ids of `k` bytes. -/
def sizesOf (k : Nat) (bs : Bytes) : List VmSize :=
  sizesAt bs (2 + (u16At bs 0).toNat * k) (u16At bs 0).toNat

/-- The requests with a size for every row. -/
def VarBounds (k : Nat) (bs : Bytes) : Prop :=
  bs.length < 2 + (u16At bs 0).toNat * k + (u16At bs 0).toNat * 8 ∨
    ((sizesOf k bs).map UInt64.toNat).sum ≤ maxBytes

/-- `FIND_REGS_IDS`, `GET_SYMS_BY_NAMES`: the block holds as many terminators as announced. -/
def NamesBounds (bs : Bytes) : Prop :=
  bs.length < 4 + (u16At bs 2).toNat ∨
    (u16At bs 0).toNat ≤ ((bs.drop 4).take (u16At bs 2).toNat).count 0

/-- The bytes of a request of type `ty` end before what they announce, or what they announce fits in
the buffers that the server makes for it. -/
def InBounds : ReqType → Bytes → Prop
  | .getRegs | .setRegs => FixedBounds 4
  | .readMem | .writeMem => FixedBounds 8
  | .getRegsVar | .setRegsVar => VarBounds 4
  | .readMemVar | .writeMemVar => VarBounds 8
  | .findRegsIds | .getSymsByNames => NamesBounds
  | .connect | .stop | .checkStopped | .getRegsInfos | .getSymsByIds | .getSymsByAddr
  | .getCodeText | .addBkps | .delBkps | .resume | .err | .other _ => fun _ => True

/-! ## What is decoded -/

/-- Where `&all_buf[i * size2]` points. -/
def rowBegin (size2 : VmSize) (i : Nat) : UInt64 := UInt64.ofNat i * size2

/-- Where `cur_ptr` points at row `i`. -/
def rowBeginVar (sizes2 : List VmSize) (i : Nat) : UInt64 := (sizes2.take i).foldl (· + ·) 0

section Inside

variable {K I : Type}

/-- The arrays are as long as announced, and every row lies inside the buffer of rows. -/
structure ReqFixed.Inside (r : ReqFixed K) : Prop extends r.Shaped where
  inside : ∀ i < r.n.toNat,
    (rowBegin r.size i).toNat + r.size.toNat ≤ (r.n.toUInt64 * r.size).toNat

structure ReqVar.Inside (r : ReqVar K) : Prop extends r.Shaped where
  inside : ∀ i (h : i < r.sizes.length),
    (rowBeginVar r.sizes i).toNat + r.sizes[i].toNat ≤ (totalSize r.n.toUInt64 r.sizes).toNat

/-- Every pointer of the request leads into one of the buffers made for it, with what its length
says behind it; the names are found up to their terminators. -/
def Req.Inside : {ty : ReqType} → Req ty → Prop
  | .getRegs, r | .setRegs, r => ReqFixed.Inside r
  | .getRegsVar, r | .setRegsVar, r => ReqVar.Inside r
  | .readMem, r | .writeMem, r => ReqFixed.Inside r
  | .readMemVar, r | .writeMemVar, r => ReqVar.Inside r
  | .getRegsInfos, r => r.ids.length = r.n.toNat ∧ r.outs.length = r.n.toNat
  | .getSymsByIds, r => r.ids.length = r.n.toNat ∧ r.outs.length = r.n.toNat
  | .findRegsIds, r => r.names.length = r.n.toNat ∧ r.outs.length = r.n.toNat
  | .getSymsByNames, r => r.names.length = r.n.toNat ∧ r.outs.length = r.n.toNat
  | .addBkps, r | .delBkps, r => r.inAddrs.length = r.size.toNat
  | .connect, _ | .stop, _ | .checkStopped, _ | .getSymsByAddr, _ | .getCodeText, _ | .resume, _
  | .err, _ => True

end Inside

/-- The request as it is when the total of its rows is computed. -/
def ReqFixed.head {K : Type} [Serial K] (r₀ : ReqFixed K) : BuffM (ReqFixed K) := do
  let n ← objectIn .servRecv r₀.n
  let size ← objectIn .servRecv r₀.size
  let ids ← bufferIn .servRecv r₀.ids n.toUInt64
  return { r₀ with n, size, ids }

def ReqVar.head {K : Type} [Serial K] (r₀ : ReqVar K) : BuffM (ReqVar K) := do
  let n ← objectIn .servRecv r₀.n
  let ids ← bufferIn .servRecv r₀.ids n.toUInt64
  let sizes ← bufferIn .servRecv r₀.sizes n.toUInt64
  return { r₀ with n, ids, sizes }

/-- The request when the total of its rows is computed, if it has any. -/
def Req.head : {ty : ReqType} → Req ty → BuffM (Req ty)
  | .getRegs, r | .setRegs, r => ReqFixed.head r
  | .getRegsVar, r | .setRegsVar, r => ReqVar.head r
  | .readMem, r | .writeMem, r => ReqFixed.head r
  | .readMemVar, r | .writeMemVar, r => ReqVar.head r
  | _, r => return r

/-- The decoding of `bs` into `r₀` stops at the check of `SerialInBuff::read`, or yields a request
that points into its buffers; and if it computes a total of rows, this does not wrap around. -/
def Decodes {ty : ReqType} (r₀ : Req ty) (bs : Bytes) : Prop :=
  Ends .assertFail (RequestHandler.serverReadRequest ⟨true⟩ r₀) Req.Inside bs ∧
    Ends .assertFail r₀.head (fun r => r.total < UInt64.size) bs

/-! ## Rows -/

theorem count_after_cstr {buf : Bytes} (h : 0 ∈ buf) :
    buf.count 0 = (buf.drop ((buf.takeWhile (· ≠ 0)).length + 1)).count 0 + 1 := by
  obtain ⟨s, t, rfl, hs⟩ := List.eq_append_cons_of_mem h
  rw [takeWhile_cstr ⟨s, hs⟩ t, List.count_append, List.count_eq_zero_of_not_mem hs,
    List.count_cons_self, Nat.zero_add, ← List.drop_drop, List.drop_left]
  rfl

/-- Names are found in a block exactly if it has as many terminators. -/
theorem dirBufCstr_spec (n : Nat) (buf : Bytes) :
    if n ≤ buf.count 0 then ∃ strs, dirBufCstr n buf = .ok strs ∧ strs.length = n
    else dirBufCstr n buf = .error .undefined := by
  induction n generalizing buf with
  | zero => exact ⟨[], rfl, rfl⟩
  | succ n ih =>
    rw [dirBufCstr]
    by_cases h0 : 0 ∈ buf
    · rw [if_pos h0]
      have hcount := count_after_cstr h0
      have ih := ih (buf.drop ((buf.takeWhile (· ≠ 0)).length + 1))
      rw [hcount]
      split at ih
      · rw [if_pos (by omega)]
        obtain ⟨strs, hstrs, hlen⟩ := ih
        exact ⟨_, by rw [hstrs]; rfl, by rw [List.length_cons, hlen]⟩
      · rw [if_neg (by omega), ih]
        rfl
    · rw [if_neg h0, List.count_eq_zero_of_not_mem h0]
      rfl

/-- A sum that reaches `m` does so at one of its items. -/
theorem exists_crossing {m : Nat} (xs : List Nat) {a : Nat} (ha : a < m) (h : m ≤ a + xs.sum) :
    ∃ i, ∃ hi : i < xs.length, a + (xs.take i).sum < m ∧ m ≤ a + (xs.take i).sum + xs[i] := by
  induction xs generalizing a with
  | nil => exact absurd h (Nat.not_le_of_lt ha)
  | cons x xs ih =>
    by_cases hx : m ≤ a + x
    · exact ⟨0, by simp, ha, hx⟩
    · rw [List.sum_cons, ← Nat.add_assoc] at h
      obtain ⟨i, hi, hlt, hle⟩ := ih (Nat.lt_of_not_le hx) h
      refine ⟨i + 1, by simpa using hi, ?_⟩
      rw [List.take_succ_cons, List.sum_cons, ← Nat.add_assoc]
      exact ⟨hlt, hle⟩

theorem sum_take_add_le (xs : List Nat) (i : Nat) (hi : i < xs.length) :
    (xs.take i).sum + xs[i] ≤ xs.sum := by
  have hsplit : xs = xs.take i ++ xs[i] :: xs.drop (i + 1) := by
    rw [← List.drop_eq_getElem_cons hi, List.take_append_drop]
  have hsum := congrArg List.sum hsplit
  rw [List.sum_append_nat, List.sum_cons] at hsum
  omega

/-- Rows that are found by sums that wrap around lie inside a buffer of the wrapped total exactly if
nothing does. -/
theorem rows_inside_iff {m : Nat} (ns : List Nat) (hm : 0 < m) :
    (∀ i (hi : i < ns.length), (ns.take i).sum % m + ns[i] ≤ ns.sum % m) ↔ ns.sum < m := by
  constructor
  · intro h
    by_contra hn
    obtain ⟨i, hi, hlt, hle⟩ := exists_crossing ns hm (by omega)
    rw [Nat.zero_add] at hlt hle
    have hrow := h i hi
    rw [Nat.mod_eq_of_lt hlt] at hrow
    have := Nat.mod_lt ns.sum hm
    omega
  · intro h i hi
    have hle := sum_take_add_le ns i hi
    rw [Nat.mod_eq_of_lt h, Nat.mod_eq_of_lt (by omega)]
    exact hle

theorem toNat_rowBeginVar (sizes : List VmSize) (i : Nat) :
    (rowBeginVar sizes i).toNat = ((sizes.map UInt64.toNat).take i).sum % UInt64.size := by
  rw [rowBeginVar, toNat_foldl_mod, List.map_take]
  exact congrArg (· % UInt64.size) (Nat.zero_add _)

/-- The rows of a request of one size lie inside their buffer exactly if their total does not wrap
around. -/
theorem fixedRows_inside_iff (n : UInt16) (size : VmSize) :
    (∀ i < n.toNat, (rowBegin size i).toNat + size.toNat ≤ (n.toUInt64 * size).toNat) ↔
      n.toNat * size.toNat < UInt64.size := by
  have hiff := @rows_inside_iff UInt64.size (List.replicate n.toNat size.toNat) (by decide)
  simp only [List.length_replicate, List.getElem_replicate, List.sum_replicate_nat] at hiff
  rw [← hiff, toNat_fixedTotal]
  refine forall_congr' fun i => forall_congr' fun hi => ?_
  have hi64 : i % UInt64.size = i := by
    have := n.toNat_lt
    have : UInt64.size = 18446744073709551616 := rfl
    exact Nat.mod_eq_of_lt (by omega)
  rw [List.take_replicate, List.sum_replicate_nat, Nat.min_eq_left (Nat.le_of_lt hi),
    rowBegin, UInt64.toNat_mul, UInt64.toNat_ofNat', hi64]

/-- So do those of a request with a size for every row. -/
theorem varRows_inside_iff {n : UInt16} {sizes : List VmSize} (h : sizes.length = n.toNat) :
    (∀ i (hi : i < sizes.length),
      (rowBeginVar sizes i).toNat + sizes[i].toNat ≤ (totalSize n.toUInt64 sizes).toNat) ↔
      (sizes.map UInt64.toNat).sum < UInt64.size := by
  have hiff := @rows_inside_iff UInt64.size (sizes.map UInt64.toNat) (by decide)
  simp only [List.length_map, List.getElem_map] at hiff
  rw [← hiff, toNat_totalSize h]
  refine forall_congr' fun i => forall_congr' fun hi => ?_
  rw [toNat_rowBeginVar]

theorem ReqFixed.prepare_eq {K : Type} [Serial K]
    (op : Mode → List Bytes → VmSize → VmSize → BuffM (List Bytes)) (r₀ : ReqFixed K) :
    r₀.prepare .servRecv op = r₀.head >>= fun r =>
      op .servRecv r.bufs r.n.toUInt64 r.size >>= fun bufs => pure { r with bufs } := by
  simp only [prepare, head, bind_assoc, pure_bind]

theorem ReqVar.prepare_eq {K : Type} [Serial K]
    (op : Mode → List Bytes → VmSize → List VmSize → BuffM (List Bytes)) (r₀ : ReqVar K) :
    r₀.prepare .servRecv op = r₀.head >>= fun r =>
      op .servRecv r.bufs r.n.toUInt64 r.sizes >>= fun bufs => pure { r with bufs } := by
  simp only [prepare, head, bind_assoc, pure_bind]

theorem ReqFixed.Shaped.inside {K : Type} {r : ReqFixed K} (h : r.Shaped) : r.Inside where
  toShaped := h
  inside := (fixedRows_inside_iff r.n r.size).mpr h.total

theorem ReqVar.Shaped.inside {K : Type} {r : ReqVar K} (h : r.Shaped) : r.Inside where
  toShaped := h
  inside := (varRows_inside_iff h.sizes).mpr h.total

/-! ## Decoding -/

section Decode

variable {K I : Type} [Serial K] [Serial I] {k : Nat} {f : Bytes → K} {bs : Bytes}

/-- An array of as many items as 16 bits count. -/
theorem ends_bufferIn {α : Type} (hK : ∀ y : K, Takes Fault.assertFail (unserialize y) k f)
    {ptr : List K} {n : UInt16} {g : List K → BuffM α} {Q : α → Prop} {xs : Bytes} :
    Ends .assertFail (bufferIn .servRecv ptr n.toUInt64 >>= g) Q xs ↔
      (n.toNat * k ≤ xs.length →
        Ends .assertFail (g (words f k n.toNat xs)) Q (xs.drop (n.toNat * k))) := by
  rw [bufferIn, addBuff_count, lift_ok, pure_bind, toNat_count, (takes_readBuf hK _).ends_bind,
    words_take _ (Nat.le_refl _)]

/-- `GET_REGS`, `SET_REGS`, `READ_MEM` and `WRITE_MEM` up to their rows. -/
theorem ReqFixed.ends_head {α : Type} (hK : ∀ y : K, Takes Fault.assertFail (unserialize y) k f)
    {r₀ : ReqFixed K} {g : ReqFixed K → BuffM α} {Q : α → Prop} :
    Ends .assertFail (r₀.head >>= g) Q bs ↔
      (10 + (u16At bs 0).toNat * k ≤ bs.length →
        Ends .assertFail (g { r₀ with
          n := u16At bs 0, size := u64At bs 2, ids := words f k (u16At bs 0).toNat (bs.drop 10) }) Q
          (bs.drop (10 + (u16At bs 0).toNat * k))) := by
  unfold head
  simp only [bind_assoc, pure_bind]
  refine (takes_UInt16 _).ends_bind.trans ?_
  refine (imp_congr_right fun _ => ((takes_UInt64 _).ends_bind.trans
    (imp_congr_right fun _ => ends_bufferIn (n := u16At bs 0) hK))).trans ?_
  rw [List.drop_drop, List.drop_drop, List.length_drop, List.length_drop]
  constructor
  · exact fun h hle => h (by omega) (by omega) (by omega)
  · exact fun h _ _ _ => h (by omega)

/-- `GET_REGS_VAR`, `SET_REGS_VAR`, `READ_MEM_VAR` and `WRITE_MEM_VAR` up to their rows. -/
theorem ReqVar.ends_head {α : Type} (hK : ∀ y : K, Takes Fault.assertFail (unserialize y) k f)
    {r₀ : ReqVar K} {g : ReqVar K → BuffM α} {Q : α → Prop} :
    Ends .assertFail (r₀.head >>= g) Q bs ↔
      (2 + (u16At bs 0).toNat * k + (u16At bs 0).toNat * 8 ≤ bs.length →
        Ends .assertFail (g { r₀ with
          n := u16At bs 0, ids := words f k (u16At bs 0).toNat (bs.drop 2), sizes := sizesOf k bs })
          Q (bs.drop (2 + (u16At bs 0).toNat * k + (u16At bs 0).toNat * 8))) := by
  unfold head
  simp only [bind_assoc, pure_bind]
  refine (takes_UInt16 _).ends_bind.trans ?_
  refine (imp_congr_right fun _ => ((ends_bufferIn (n := u16At bs 0) hK).trans
    (imp_congr_right fun _ => ends_bufferIn (n := u16At bs 0) takes_UInt64))).trans ?_
  rw [List.drop_drop, List.drop_drop, List.length_drop, List.length_drop]
  constructor
  · exact fun h hle => h (by omega) (by omega) (by omega)
  · exact fun h _ _ _ => h (by omega)

theorem ReqByIds.decodes (hK : ∀ y : K, Takes Fault.assertFail (unserialize y) k f)
    (r₀ : ReqByIds K I) : Ends .assertFail (r₀.prepare .servRecv)
      (fun r => r.ids.length = r.n.toNat ∧ r.outs.length = r.n.toNat) bs := by
  refine (takes_UInt16 _).ends_bind.mpr fun _ => (ends_bufferIn hK).mpr fun _ => ?_
  rw [bufferOut, addBuff_count, lift_ok, pure_bind]
  exact ends_pure.mpr ⟨length_words .., length_blanks⟩

theorem ReqByNames.decodes_iff (r₀ : ReqByNames I) : Ends .assertFail (r₀.prepare .servRecv)
    (fun r => r.names.length = r.n.toNat ∧ r.outs.length = r.n.toNat) bs ↔ NamesBounds bs := by
  have hblock := @Takes.take Fault UInt8 .assertFail (u16At bs 2).toNat
  have hspec := dirBufCstr_spec (u16At bs 0).toNat ((bs.drop 4).take (u16At bs 2).toNat)
  -- the count, the length of the block and the block are read before the names are looked for
  have hread : Ends .assertFail (r₀.prepare .servRecv)
      (fun r => r.names.length = r.n.toNat ∧ r.outs.length = r.n.toNat) bs ↔
      (4 + (u16At bs 2).toNat ≤ bs.length →
        Ends .assertFail (Prog.lift (dirBufCstr (u16At bs 0).toNat
          ((bs.drop 4).take (u16At bs 2).toNat)) >>= fun names =>
            (pure ⟨u16At bs 0, names, blanks I (u16At bs 0).toNat⟩ : BuffM (ReqByNames I)))
          (fun r => r.names.length = r.n.toNat ∧ r.outs.length = r.n.toNat)
          (bs.drop (4 + (u16At bs 2).toNat))) := by
    unfold ReqByNames.prepare buffer2dInCstr
    simp only [bind_assoc, bufferOut, addBuff_count, lift_ok, pure_bind]
    refine (takes_UInt16 _).ends_bind.trans ?_
    refine (imp_congr_right fun _ => (takes_UInt16 _).ends_bind.trans
      (imp_congr_right fun _ => hblock.ends_bind)).trans ?_
    rw [List.drop_drop, List.drop_drop, List.length_drop, List.length_drop, toNat_count]
    constructor
    · exact fun h hle => h (by omega) (by omega) (by omega)
    · exact fun h _ _ _ => h (by omega)
  refine hread.trans ?_
  unfold NamesBounds
  split at hspec
  · next hle =>
    obtain ⟨names, hnames, hlen⟩ := hspec
    exact iff_of_true (fun _ => (ends_lift_ok hnames).mpr ⟨hlen, length_blanks⟩) (.inr hle)
  · next hlt =>
    refine ⟨fun h => .inl ?_, fun h hle => ?_⟩
    · by_contra hn
      exact not_ends_lift hspec (by decide) (h (Nat.le_of_not_lt hn))
    · exact absurd (h.resolve_right hlt) (Nat.not_lt_of_le hle)

theorem ReqBkps.decodes (r₀ : ReqBkps) : Ends .assertFail (r₀.prepare .servRecv)
    (fun r => r.inAddrs.length = r.size.toNat) bs :=
  (takes_UInt16 _).ends_bind.mpr fun _ => (ends_bufferIn takes_UInt64).mpr fun _ =>
    ends_pure.mpr (length_words ..)

/-- A buffer cut into rows. -/
theorem ends_dirBuf {α : Type} {ns : List Nat} {buf : Bytes} {w : List Bytes → α} {Q : α → Prop}
    {xs : Bytes}
    (hQ : ∀ rows, ns.sum ≤ buf.length → rows.map List.length = ns → Q (w rows)) :
    Ends .assertFail (Prog.lift (dirBuf ns buf) >>= fun rows => (pure (w rows) : BuffM α)) Q xs ↔
      ns.sum ≤ buf.length := by
  have hspec := dirBuf_spec ns buf
  split at hspec
  · next hle =>
    obtain ⟨rows, hrows, hlen⟩ := hspec
    exact (ends_lift_ok hrows).trans (iff_of_true (hQ rows hle hlen) hle)
  · next hlt => exact iff_of_false (not_ends_lift hspec (by decide)) hlt

/-- Rows of a new buffer, which is made if an object can hold it. -/
theorem ends_rowsOut {α : Type} {ptr : List Bytes} {total : VmSize} {ns : List Nat}
    {w : List Bytes → α} {Q : α → Prop} {xs : Bytes}
    (hQ : ∀ rows, ns.sum ≤ total.toNat → rows.map List.length = ns → Q (w rows)) :
    Ends .assertFail (bufferRowsOut .servRecv ptr total (.ok ns) >>= fun rows =>
      (pure (w rows) : BuffM α)) Q xs ↔ total.toNat ≤ maxBytes ∧ ns.sum ≤ total.toNat := by
  have hbind : (bufferRowsOut .servRecv ptr total (.ok ns) >>= fun rows => (pure (w rows) : BuffM α)) =
      Prog.lift (addBuff UInt8 total.toNat) >>= fun buf =>
        Prog.lift (dirBuf ns buf) >>= fun rows => pure (w rows) := by
    rw [bufferRowsOut, lift_ok, pure_bind, bind_assoc]
  rw [hbind]
  by_cases hroom : total.toNat ≤ maxBytes
  · have hcut := @ends_dirBuf α ns (blanks UInt8 total.toNat) w Q xs
      (fun rows hle hlen => hQ rows (by rwa [length_blanks] at hle) hlen)
    rw [length_blanks] at hcut
    rw [ends_lift_ok (addBuff_bytes hroom), hcut, and_iff_right hroom]
  · have hlt : maxBytes < total.toNat * sizeof UInt8 := by
      rw [show sizeof UInt8 = 1 from rfl, Nat.mul_one]
      exact Nat.lt_of_not_le hroom
    exact iff_of_false (not_ends_lift (addBuff_error hlt) (by decide)) fun h => hroom h.1

/-- Rows of a buffer that is read first. -/
theorem ends_rowsIn {α : Type} {ptr : List Bytes} {total : VmSize} {ns : List Nat}
    {w : List Bytes → α} {Q : α → Prop} {xs : Bytes}
    (hQ : ∀ rows, ns.sum ≤ total.toNat → rows.map List.length = ns → Q (w rows)) :
    Ends .assertFail (bufferRowsIn .servRecv ptr total (.ok ns) >>= fun rows =>
      (pure (w rows) : BuffM α)) Q xs ↔
      total.toNat ≤ maxBytes ∧ (total.toNat ≤ xs.length → ns.sum ≤ total.toNat) := by
  have hbind : (bufferRowsIn .servRecv ptr total (.ok ns) >>= fun rows => (pure (w rows) : BuffM α)) =
      Prog.lift (addBuff UInt8 total.toNat) >>= fun buf => readBuf buf total.toNat >>= fun buf =>
        Prog.lift (dirBuf ns buf) >>= fun rows => pure (w rows) := by
    simp only [bufferRowsIn, lift_ok, pure_bind, bind_assoc]
  rw [hbind]
  by_cases hroom : total.toNat ≤ maxBytes
  · have hread := takes_readBuf takes_UInt8 total.toNat
    rw [Nat.mul_one] at hread
    rw [ends_lift_ok (addBuff_bytes hroom), hread.ends_bind, and_iff_right hroom]
    refine imp_congr_right fun _ => ?_
    have hlen := length_words (fun bs => UInt8.ofNat (leNat bs)) 1 total.toNat (xs.take total.toNat)
    have hcut := @ends_dirBuf α ns _ w Q (xs.drop total.toNat)
      (fun rows hle hrows => hQ rows (hlen ▸ hle) hrows)
    rwa [hlen] at hcut
  · have hlt : maxBytes < total.toNat * sizeof UInt8 := by
      rw [show sizeof UInt8 = 1 from rfl, Nat.mul_one]
      exact Nat.lt_of_not_le hroom
    exact iff_of_false (not_ends_lift (addBuff_error hlt) (by decide)) fun h => hroom h.1

end Decode

/-! ## When the totals wrap around -/

theorem le_mod_iff {a m : Nat} (hm : 0 < m) : a ≤ a % m ↔ a < m :=
  ⟨fun h => Nat.lt_of_le_of_lt h (Nat.mod_lt a hm), fun h => Nat.le_of_eq (Nat.mod_eq_of_lt h).symm⟩

/-- A total of rows that does not wrap around and that an object can hold. -/
theorem total_le_iff {total : Nat} {p : Prop} (hp : total < UInt64.size → p) :
    (total % UInt64.size ≤ maxBytes ∧ p) ∧ total < UInt64.size ↔ total ≤ maxBytes := by
  constructor
  · rintro ⟨⟨hroom, -⟩, hlt⟩
    rwa [Nat.mod_eq_of_lt hlt] at hroom
  · intro hroom
    have hlt : total < UInt64.size := Nat.lt_of_le_of_lt hroom (by decide)
    exact ⟨⟨by rwa [Nat.mod_eq_of_lt hlt], hp hlt⟩, hlt⟩

theorem imp_iff_lt_or {a b : Nat} {p : Prop} : (a ≤ b → p) ↔ b < a ∨ p := by
  rw [imp_iff_not_or, Nat.not_le]

section Rows

variable {K : Type}

/-- Rows of the announced size, cut out of a buffer of their total. -/
theorem ReqFixed.inside_of_rows {n : UInt16} {size : VmSize} {ids : List K} {rows : List Bytes}
    (hids : ids.length = n.toNat) (hle : (rowSizes n.toUInt64 size).sum ≤ (n.toUInt64 * size).toNat)
    (hrows : rows.map List.length = rowSizes n.toUInt64 size) :
    ReqFixed.Inside ⟨n, size, ids, rows⟩ := by
  refine ReqFixed.Shaped.inside ⟨⟨hids, ?_, fun row hrow => ?_⟩, ?_⟩
  · have := congrArg List.length hrows
    rwa [List.length_map, rowSizes, List.length_replicate, toNat_count] at this
  · have := List.mem_map_of_mem (f := List.length) hrow
    rw [hrows] at this
    exact List.eq_of_mem_replicate this
  · rw [sum_rowSizes, toNat_fixedTotal] at hle
    exact (le_mod_iff (by decide)).mp hle

theorem ReqVar.inside_of_rows {n : UInt16} {ids : List K} {sizes : List VmSize} {rows : List Bytes}
    (hids : ids.length = n.toNat) (hsizes : sizes.length = n.toNat)
    (hle : (sizes.map UInt64.toNat).sum ≤ (totalSize n.toUInt64 sizes).toNat)
    (hrows : rows.map List.length = sizes.map UInt64.toNat) :
    ReqVar.Inside ⟨n, ids, sizes, rows⟩ := by
  rw [toNat_totalSize hsizes] at hle
  exact ReqVar.Shaped.inside ⟨⟨hids, hsizes, hrows⟩, (le_mod_iff (by decide)).mp hle⟩

variable [Serial K] {k : Nat} {f : Bytes → K} {bs : Bytes}

/-- The total that the bytes of a request of one size announce. -/
theorem ReqFixed.ends_total (hK : ∀ y : K, Takes Fault.assertFail (unserialize y) k f)
    (r₀ : ReqFixed K) :
    Ends .assertFail r₀.head (fun r => r.total < UInt64.size) bs ↔
      (10 + (u16At bs 0).toNat * k ≤ bs.length →
        (u16At bs 0).toNat * (u64At bs 2).toNat < UInt64.size) := by
  have := @ReqFixed.ends_head K _ k f bs _ hK r₀ pure fun r => r.total < UInt64.size
  rw [bind_pure] at this
  exact this

/-- The total of the sizes that the bytes of a request announce. -/
theorem ReqVar.ends_total (hK : ∀ y : K, Takes Fault.assertFail (unserialize y) k f)
    (r₀ : ReqVar K) :
    Ends .assertFail r₀.head (fun r => r.total < UInt64.size) bs ↔
      (2 + (u16At bs 0).toNat * k + (u16At bs 0).toNat * 8 ≤ bs.length →
        ((sizesOf k bs).map UInt64.toNat).sum < UInt64.size) := by
  have := @ReqVar.ends_head K _ k f bs _ hK r₀ pure fun r => r.total < UInt64.size
  rw [bind_pure] at this
  exact this

theorem ReqFixed.decodesOut_iff (hK : ∀ y : K, Takes Fault.assertFail (unserialize y) k f)
    (r₀ : ReqFixed K) :
    Ends .assertFail (r₀.prepare .servRecv buffer2dOut) ReqFixed.Inside bs ∧
      Ends .assertFail r₀.head (fun r => r.total < UInt64.size) bs ↔ FixedBounds k bs := by
  rw [ReqFixed.prepare_eq, ReqFixed.ends_head hK, ReqFixed.ends_total hK, ← imp_and, FixedBounds,
    ← imp_iff_lt_or]
  refine imp_congr_right fun _ => (and_congr_left' (ends_rowsOut fun rows hle hrows =>
    ReqFixed.inside_of_rows (length_words ..) hle hrows)).trans ?_
  rw [sum_rowSizes, toNat_fixedTotal]
  exact total_le_iff (le_mod_iff (by decide)).mpr

theorem ReqFixed.decodesIn_iff (hK : ∀ y : K, Takes Fault.assertFail (unserialize y) k f)
    (r₀ : ReqFixed K) :
    Ends .assertFail (r₀.prepare .servRecv buffer2dIn) ReqFixed.Inside bs ∧
      Ends .assertFail r₀.head (fun r => r.total < UInt64.size) bs ↔ FixedBounds k bs := by
  rw [ReqFixed.prepare_eq, ReqFixed.ends_head hK, ReqFixed.ends_total hK, ← imp_and, FixedBounds,
    ← imp_iff_lt_or]
  refine imp_congr_right fun _ => (and_congr_left' (ends_rowsIn fun rows hle hrows =>
    ReqFixed.inside_of_rows (length_words ..) hle hrows)).trans ?_
  rw [sum_rowSizes, toNat_fixedTotal]
  exact total_le_iff fun hlt _ => (le_mod_iff (by decide)).mpr hlt

theorem length_sizesOf (k : Nat) (bs : Bytes) : (sizesOf k bs).length = (u16At bs 0).toNat :=
  length_words ..

theorem ReqVar.decodesOut_iff (hK : ∀ y : K, Takes Fault.assertFail (unserialize y) k f)
    (r₀ : ReqVar K) :
    Ends .assertFail (r₀.prepare .servRecv buffer2dvarOut) ReqVar.Inside bs ∧
      Ends .assertFail r₀.head (fun r => r.total < UInt64.size) bs ↔ VarBounds k bs := by
  rw [ReqVar.prepare_eq, ReqVar.ends_head hK, ReqVar.ends_total hK, ← imp_and, VarBounds,
    ← imp_iff_lt_or, buffer2dvarOut, rowSizesVar_eq (length_sizesOf k bs)]
  refine imp_congr_right fun _ => (and_congr_left' (ends_rowsOut fun rows hle hrows =>
    ReqVar.inside_of_rows (length_words ..) (length_sizesOf k bs) hle hrows)).trans ?_
  rw [toNat_totalSize (length_sizesOf k bs)]
  exact total_le_iff (le_mod_iff (by decide)).mpr

theorem ReqVar.decodesIn_iff (hK : ∀ y : K, Takes Fault.assertFail (unserialize y) k f)
    (r₀ : ReqVar K) :
    Ends .assertFail (r₀.prepare .servRecv buffer2dvarIn) ReqVar.Inside bs ∧
      Ends .assertFail r₀.head (fun r => r.total < UInt64.size) bs ↔ VarBounds k bs := by
  rw [ReqVar.prepare_eq, ReqVar.ends_head hK, ReqVar.ends_total hK, ← imp_and, VarBounds,
    ← imp_iff_lt_or, buffer2dvarIn, rowSizesVar_eq (length_sizesOf k bs)]
  refine imp_congr_right fun _ => (and_congr_left' (ends_rowsIn fun rows hle hrows =>
    ReqVar.inside_of_rows (length_words ..) (length_sizesOf k bs) hle hrows)).trans ?_
  rw [toNat_totalSize (length_sizesOf k bs)]
  exact total_le_iff fun hlt _ => (le_mod_iff (by decide)).mpr hlt

end Rows

/-! ## Any bytes -/

/-- The bytes of a request of any type are decoded within the buffers that are made for it, or as far
as they go, and no total of rows wraps around, exactly if the rows they announce fit in an object and
no announced name lacks its terminator, or they end before. -/
theorem serverReadRequest_inBounds_iff {ty : ReqType} (r₀ : Req ty) (bs : Bytes) :
    Decodes r₀ bs ↔ InBounds ty bs := by
  have hstart : Decodes r₀ bs ↔ Ends .assertFail (prepareRequest .servRecv r₀) Req.Inside bs ∧
      Ends .assertFail r₀.head (fun r => r.total < UInt64.size) bs :=
    and_congr_left' (ends_lift_ok (assertThat_pos rfl))
  refine hstart.trans ?_
  have hno : Ends .assertFail (pure r₀ : BuffM (Req ty)) (fun _ => 0 < UInt64.size) bs :=
    ends_pure.mpr (by decide)
  cases ty with
  | connect | stop | checkStopped | err => exact iff_of_true ⟨trivial, hno⟩ trivial
  | getRegs => exact ReqFixed.decodesOut_iff takes_UInt32 r₀
  | readMem => exact ReqFixed.decodesOut_iff takes_UInt64 r₀
  | setRegs => exact ReqFixed.decodesIn_iff takes_UInt32 r₀
  | writeMem => exact ReqFixed.decodesIn_iff takes_UInt64 r₀
  | getRegsVar => exact ReqVar.decodesOut_iff takes_UInt32 r₀
  | readMemVar => exact ReqVar.decodesOut_iff takes_UInt64 r₀
  | setRegsVar => exact ReqVar.decodesIn_iff takes_UInt32 r₀
  | writeMemVar => exact ReqVar.decodesIn_iff takes_UInt64 r₀
  | getRegsInfos => exact iff_of_true ⟨ReqByIds.decodes takes_UInt32 r₀, hno⟩ trivial
  | getSymsByIds => exact iff_of_true ⟨ReqByIds.decodes takes_UInt32 r₀, hno⟩ trivial
  | findRegsIds | getSymsByNames =>
    exact (and_iff_left hno).trans (ReqByNames.decodes_iff r₀)
  | getSymsByAddr | getCodeText =>
    exact iff_of_true ⟨(takes_UInt64 _).ends_bind.mpr fun _ => (takes_UInt64 _).ends_bind.mpr
      fun _ => trivial, hno⟩ trivial
  | addBkps | delBkps => exact iff_of_true ⟨ReqBkps.decodes r₀, hno⟩ trivial
  | resume =>
    exact iff_of_true ⟨((takes_UInt8 0).map ResumeType.ofByte).ends_bind.mpr fun _ => trivial, hno⟩
      trivial
  | other => cases r₀

/-- `READ_MEM` of two blocks of 2^63 bytes at address 0, for which a buffer of no bytes is made. -/
def twoHalves : Bytes := leBytes 2 2 ++ leBytes 8 (2 ^ 63) ++ leBytes 8 0 ++ leBytes 8 0

/-- `READ_MEM` of one block of 2^63 bytes at address 0. -/
def oneHalf : Bytes := leBytes 2 1 ++ leBytes 8 (2 ^ 63) ++ leBytes 8 0

/-- `SET_REGS` of two registers of 2^63 + 1 bytes, without their values. -/
def wrappedRegs : Bytes := leBytes 2 2 ++ leBytes 8 (2 ^ 63 + 1) ++ leBytes 4 0 ++ leBytes 4 1

/-- `FIND_REGS_IDS` of one name in an empty block. -/
def noTerminator : Bytes := leBytes 2 1 ++ leBytes 2 0

/-- The second block of `twoHalves` begins 2^63 bytes into an empty buffer; no object can hold the
block of `oneHalf`; the total of `wrappedRegs` comes to 2 before the values are missed; the name of
`noTerminator` is looked for in an empty block. -/
theorem decodes_outside :
    ((2 : UInt16).toUInt64 * 0x8000000000000000).toNat = 0 ∧
      (rowBegin 0x8000000000000000 1).toNat = 2 ^ 63 ∧
      ¬ @Decodes .readMem ⟨0, 0, [], []⟩ twoHalves ∧
      ¬ @Decodes .readMem ⟨0, 0, [], []⟩ oneHalf ∧
      ¬ @Decodes .setRegs ⟨0, 0, [], []⟩ wrappedRegs ∧
      ¬ @Decodes .findRegsIds ⟨0, [], []⟩ noTerminator := by
  refine ⟨rfl, rfl, fun h => ?_, fun h => ?_, fun h => ?_, fun h => ?_⟩
  · have hrun : (@RequestHandler.serverReadRequest ⟨true⟩ .readMem ⟨0, 0, [], []⟩).on twoHalves =
        (.error .undefined, []) := rfl
    rw [Decodes, Ends, hrun] at h
    cases h.1
  · have hrun : (@RequestHandler.serverReadRequest ⟨true⟩ .readMem ⟨0, 0, [], []⟩).on oneHalf =
        (.error .stdException, []) := rfl
    rw [Decodes, Ends, hrun] at h
    cases h.1
  · have hrun : (@Req.head .setRegs ⟨0, 0, [], []⟩).on wrappedRegs =
        (.ok ⟨2, 0x8000000000000001, [0, 1], []⟩, []) := rfl
    rw [Decodes, Ends, Ends, hrun] at h
    have hlt : 2 * 0x8000000000000001 < UInt64.size := h.2
    exact absurd hlt (by decide)
  · have hrun : (@RequestHandler.serverReadRequest ⟨true⟩ .findRegsIds ⟨0, [], []⟩).on noTerminator =
        (.error .undefined, []) := rfl
    rw [Decodes, Ends, hrun] at h
    cases h.1

end Odb
