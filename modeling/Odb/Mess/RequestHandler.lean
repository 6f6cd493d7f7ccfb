import Mathlib.Data.List.TakeWhile
import Odb.Mess.Serial

/-!
# The four handlers of a request (`mess/request-handler.hh`)

A request is described once, by the calls `prepare_request` makes; what each call does depends on
the mode: the client sends, the server receives, the server sends back, the client receives. A call
returns what its argument points to afterwards.

An array is the list of the items of the object it points into, a `char **` the list of its rows.
`add_buff` throws above the size of the largest object; below it memory does not run out. Its
`size * sizeof(T)` does not wrap for the sizes it is called with (`sizeof(char)` is 1, other counts
have 16 bits: an array of so many items, or a table of so many pointers, is always made).
-/

namespace Odb

open Prog Serial Wire

/-- A `char *` that points to a C string: the bytes before its terminator. -/
abbrev CStr := {s : Bytes // 0 ∉ s}

inductive Mode where
  | cliRecv
  | cliSend
  | servRecv
  | servSend
deriving DecidableEq, Repr

section Arrays

variable {T : Type}

/-- `ptr[0]`, …, `ptr[size - 1]`. -/
def itemsAt (ptr : List T) (size : Nat) : Except Fault (List T) :=
  if size ≤ ptr.length then .ok (ptr.take size) else .error .undefined

/-- The rows of a buffer that a table of pointers into it cuts it into. -/
def dirBuf : List Nat → List T → Except Fault (List (List T))
  | [], _ => .ok []
  | size :: sizes, buf => do
    let row ← itemsAt buf size
    let rows ← dirBuf sizes (buf.drop size)
    return row :: rows

/-- The C strings that follow each other in a buffer, found by `strlen`. -/
def dirBufCstr : Nat → Bytes → Except Fault (List CStr)
  | 0, _ => .ok []
  | n + 1, buf =>
    if 0 ∈ buf then do
      let strs ← dirBufCstr n (buf.drop ((buf.takeWhile (· ≠ 0)).length + 1))
      return ⟨buf.takeWhile (· ≠ 0), fun h => by simpa using List.mem_takeWhile_imp h⟩ :: strs
    else .error .undefined

variable [Serial T]

/-- The items `T{}` of a new buffer. -/
def blanks (T : Type) [Serial T] (size : Nat) : List T := List.replicate size blank

theorem length_blanks {n : Nat} : (blanks T n).length = n := List.length_replicate

/-- `_tb.add_buff<T>(size)`: an array larger than any object is `std::bad_array_new_length`. -/
def addBuff (T : Type) [Serial T] (size : Nat) : Except Fault (List T) :=
  if size * sizeof T ≤ maxBytes then .ok (blanks T size) else .error .stdException

theorem addBuff_ok {size : Nat} (h : size * sizeof T ≤ maxBytes) :
    addBuff T size = .ok (blanks T size) := if_pos h

theorem addBuff_error {size : Nat} (h : maxBytes < size * sizeof T) :
    addBuff T size = .error .stdException := if_neg (Nat.not_le_of_lt h)

theorem addBuff_bytes {size : Nat} (h : size ≤ maxBytes) :
    addBuff UInt8 size = .ok (blanks UInt8 size) := addBuff_ok ((Nat.mul_one size).le.trans h)

theorem toNat_count (n : UInt16) : n.toUInt64.toNat = n.toNat := UInt16.toNat_toUInt64 n

/-- An array of as many items as 16 bits count. -/
theorem addBuff_count (n : UInt16) : addBuff T n.toUInt64.toNat = .ok (blanks T n.toNat) := by
  rw [toNat_count]
  have hn : n.toNat ≤ 65535 := Nat.le_of_lt_succ n.toNat_lt
  have hmul : n.toNat * sizeof T ≤ 65535 * 256 := Nat.mul_le_mul hn Serial.sizeof_le
  exact addBuff_ok (hmul.trans (by decide))

/-- `*_out << ptr[i]` for every `i < size`. -/
def writeBuf (ptr : List T) (size : Nat) : BuffM Unit := do
  (← Prog.lift (itemsAt ptr size)).forM serialize

/-- `*_in >> ptr[i]` for every `i < size`. -/
def readBuf (ptr : List T) (size : Nat) : BuffM (List T) := do
  let items ← (← Prog.lift (itemsAt ptr size)).mapM unserialize
  return items ++ ptr.drop size

/-- `*_out << ptr[i][j]` for every row `i` and every `j` below its size. -/
def writeBuf2d (ptr : List (List T)) (sizes : List Nat) : BuffM Unit := do
  ((← Prog.lift (itemsAt ptr sizes.length)).zip sizes).forM fun (row, size) => writeBuf row size

/-- `*_in >> ptr[i][j]` for every row `i` and every `j` below its size. -/
def readBuf2d (ptr : List (List T)) (sizes : List Nat) : BuffM (List (List T)) := do
  let rows ← ((← Prog.lift (itemsAt ptr sizes.length)).zip sizes).mapM fun (row, size) =>
    readBuf row size
  return rows ++ ptr.drop sizes.length

/-- The sizes of the rows in `buffer_2d_*`. -/
def rowSizes (size1 size2 : VmSize) : List Nat := List.replicate size1.toNat size2.toNat

/-- The sizes of the rows in `buffer_2dvar_*`. -/
def rowSizesVar (size1 : VmSize) (sizes2 : List VmSize) : Except Fault (List Nat) :=
  (itemsAt sizes2 size1.toNat).map (·.map UInt64.toNat)

/-- The total that `buffer_2dvar_*` computes in `Sizes`. -/
def totalSize (size1 : VmSize) (sizes2 : List VmSize) : VmSize :=
  (sizes2.take size1.toNat).foldl (· + ·) 0

end Arrays

/-! ## The calls -/

section Calls

variable {T : Type} [Serial T] (m : Mode)

def objectIn (item : T) : BuffM T :=
  match m with
  | .cliSend => do
    serialize item
    return item
  | .servRecv => unserialize item
  | .cliRecv | .servSend => return item

def objectOut (item : T) : BuffM T :=
  match m with
  | .cliRecv => unserialize item
  | .servSend => do
    serialize item
    return item
  | .cliSend | .servRecv => return item

def bufferIn (ptr : List T) (size : VmSize) : BuffM (List T) :=
  match m with
  | .cliSend => do
    writeBuf ptr size.toNat
    return ptr
  | .servRecv => do readBuf (← Prog.lift (addBuff T size.toNat)) size.toNat
  | .cliRecv | .servSend => return ptr

def bufferOut (ptr : List T) (size : VmSize) : BuffM (List T) :=
  match m with
  | .cliRecv => readBuf ptr size.toNat
  | .servRecv => Prog.lift (addBuff T size.toNat)
  | .servSend => do
    writeBuf ptr size.toNat
    return ptr
  | .cliSend => return ptr

/-- `buffer_2d_in` and `buffer_2dvar_in`: the server reads `total` items, then cuts them. -/
def bufferRowsIn (ptr : List (List T)) (total : VmSize) (sizes : Except Fault (List Nat)) :
    BuffM (List (List T)) :=
  match m with
  | .cliSend => do
    writeBuf2d ptr (← Prog.lift sizes)
    return ptr
  | .servRecv => do
    let sizes ← Prog.lift sizes
    let allBuf ← readBuf (← Prog.lift (addBuff T total.toNat)) total.toNat
    Prog.lift (dirBuf sizes allBuf)
  | .cliRecv | .servSend => return ptr

/-- `buffer_2d_out` and `buffer_2dvar_out`: the server makes `total` items, then cuts them. -/
def bufferRowsOut (ptr : List (List T)) (total : VmSize) (sizes : Except Fault (List Nat)) :
    BuffM (List (List T)) :=
  match m with
  | .cliRecv => do readBuf2d ptr (← Prog.lift sizes)
  | .servRecv => do
    let sizes ← Prog.lift sizes
    Prog.lift (dirBuf sizes (← Prog.lift (addBuff T total.toNat)))
  | .servSend => do
    writeBuf2d ptr (← Prog.lift sizes)
    return ptr
  | .cliSend => return ptr

def buffer2dIn (ptr : List (List T)) (size1 size2 : VmSize) : BuffM (List (List T)) :=
  bufferRowsIn m ptr (size1 * size2) (.ok (rowSizes size1 size2))

def buffer2dOut (ptr : List (List T)) (size1 size2 : VmSize) : BuffM (List (List T)) :=
  bufferRowsOut m ptr (size1 * size2) (.ok (rowSizes size1 size2))

def buffer2dvarIn (ptr : List (List T)) (size1 : VmSize) (sizes2 : List VmSize) :
    BuffM (List (List T)) :=
  bufferRowsIn m ptr (totalSize size1 sizes2) (rowSizesVar size1 sizes2)

def buffer2dvarOut (ptr : List (List T)) (size1 : VmSize) (sizes2 : List VmSize) :
    BuffM (List (List T)) :=
  bufferRowsOut m ptr (totalSize size1 sizes2) (rowSizesVar size1 sizes2)

/-- The total size is written as 16 bits, then the strings with their terminators. -/
def buffer2dInCstr (ptr : List CStr) (size : VmSize) : BuffM (List CStr) :=
  match m with
  | .cliSend => do
    let strs ← Prog.lift (itemsAt ptr size.toNat)
    serialize (strs.map fun s : CStr => s.1.length + 1).sum.toUInt16
    strs.forM fun s => SerialOutBuff.write (s.1 ++ [0])
    return ptr
  | .servRecv => do
    let totalSize ← unserialize (0 : UInt16)
    let fullBuf ← SerialInBuff.read totalSize.toNat
    Prog.lift (dirBufCstr size.toNat fullBuf)
  | .cliRecv | .servSend => return ptr

end Calls

/-! ## Arrays cut out of a buffer -/

section Cut

variable {T : Type}

theorem itemsAt_self (ptr : List T) : itemsAt ptr ptr.length = .ok ptr := by
  rw [itemsAt, if_pos (Nat.le_refl _), List.take_length]

theorem itemsAt_append (row rest : List T) : itemsAt (row ++ rest) row.length = .ok row := by
  rw [itemsAt, if_pos (by simp), List.take_left]

/-- A buffer that holds the rows one after the other is cut into them. -/
theorem dirBuf_flatten (rows : List (List T)) :
    dirBuf (rows.map List.length) rows.flatten = .ok rows := by
  induction rows with
  | nil => rfl
  | cons row rows ih =>
    rw [List.map_cons, List.flatten_cons, dirBuf, itemsAt_append, ok_bind, List.drop_left, ih]
    rfl

/-- Rows are cut out of a buffer exactly if there is room for them. -/
theorem dirBuf_spec {T : Type} (ns : List Nat) (buf : List T) :
    if ns.sum ≤ buf.length then ∃ rows, dirBuf ns buf = .ok rows ∧ rows.map List.length = ns
    else dirBuf ns buf = .error .undefined := by
  induction ns generalizing buf with
  | nil => exact ⟨[], rfl, rfl⟩
  | cons n ns ih =>
    have ih := ih (buf.drop n)
    rw [List.length_drop] at ih
    rw [List.sum_cons, dirBuf, itemsAt]
    by_cases hn : n ≤ buf.length
    · rw [if_pos hn, ok_bind]
      by_cases hns : ns.sum ≤ buf.length - n
      · rw [if_pos hns] at ih
        rw [if_pos (by omega)]
        obtain ⟨rows, hrows, hlen⟩ := ih
        refine ⟨buf.take n :: rows, by rw [hrows]; rfl, ?_⟩
        rw [List.map_cons, hlen, List.length_take_of_le hn]
      · rw [if_neg hns] at ih
        rw [if_neg (by omega), ih]
        rfl
    · rw [if_neg hn, if_neg (by omega)]
      rfl

theorem blanks_flatten [Serial T] (sizes : List Nat) :
    (sizes.map (blanks T)).flatten = blanks T sizes.sum := by
  induction sizes with
  | nil => rfl
  | cons size sizes ih =>
    rw [List.map_cons, List.flatten_cons, ih, List.sum_cons]
    exact List.replicate_append_replicate

theorem dirBuf_blanks [Serial T] (sizes : List Nat) :
    dirBuf sizes (blanks T sizes.sum) = .ok (sizes.map (blanks T)) := by
  have hlen : (sizes.map (blanks T)).map List.length = sizes := by
    simp [blanks, Function.comp_def]
  have := dirBuf_flatten (sizes.map (blanks T))
  rwa [hlen, blanks_flatten] at this

theorem takeWhile_cstr (s : CStr) (rest : Bytes) :
    (s.1 ++ 0 :: rest).takeWhile (· ≠ 0) = s.1 := by
  rw [List.takeWhile_append_of_pos]
  · simp
  · intro b hb
    have : b ≠ 0 := fun h => s.2 (h ▸ hb)
    simpa using this

/-- A buffer that holds the strings with their terminators is cut into them. -/
theorem dirBufCstr_flatten (strs : List CStr) :
    dirBufCstr strs.length (strs.map fun s => s.1 ++ [0]).flatten = .ok strs := by
  induction strs with
  | nil => rfl
  | cons s strs ih =>
    have hbuf : ((s :: strs).map fun s => s.1 ++ [0]).flatten =
        s.1 ++ 0 :: (strs.map fun s => s.1 ++ [0]).flatten := by simp
    have hdrop : (s.1 ++ 0 :: (strs.map fun s => s.1 ++ [0]).flatten).drop (s.1.length + 1) =
        (strs.map fun s => s.1 ++ [0]).flatten := by simp
    simp only [List.length_cons, hbuf, dirBufCstr, takeWhile_cstr, hdrop, ih]
    rw [if_pos (by simp)]
    rfl

end Cut

/-! ## What the handlers carry -/

section Carry

variable {T : Type} [Serial T]

theorem writeBuf_self (ptr : List T) : writeBuf ptr ptr.length = ptr.forM serialize := by
  rw [writeBuf, itemsAt_self]
  rfl

theorem readBuf_self (ptr : List T) : readBuf ptr ptr.length = ptr.mapM unserialize := by
  rw [readBuf, itemsAt_self]
  simp

theorem writeBuf2d_self (ptr : List (List T)) :
    writeBuf2d ptr (ptr.map List.length) = ptr.forM fun row => row.forM serialize := by
  simp only [writeBuf2d, List.length_map, itemsAt_self, lift_ok, pure_bind,
    ← List.map_prod_left_eq_zip, List.forM_eq_forM, List.forM_map, writeBuf_self]

theorem readBuf2d_self (ptr : List (List T)) :
    readBuf2d ptr (ptr.map List.length) = ptr.mapM fun row => row.mapM unserialize := by
  simp only [readBuf2d, List.length_map, itemsAt_self, lift_ok, pure_bind,
    ← List.map_prod_left_eq_zip, List.mapM_map, List.drop_length, List.append_nil, bind_pure,
    Function.comp_def, readBuf_self]

/-- Rows written one by one are their items written one by one. -/
theorem forM_rows (ptr : List (List T)) :
    (ptr.forM fun row => row.forM serialize) = (ptr.flatten.forM serialize : BuffM Unit) := by
  induction ptr with
  | nil => rfl
  | cons row ptr ih =>
    simp only [List.forM_eq_forM] at ih ⊢
    rw [List.forM_cons, ih, List.flatten_cons, List.forM_append]

/-- A buffer of items and a new buffer of the same size. -/
theorem carries_buf [LawfulSerial T] {ptr : List T} {size : Nat} (hlen : ptr.length = size)
    (h : ∀ x ∈ ptr, LawfulSerial.Fits x) :
    Carries (ptr.forM serialize) (readBuf (blanks T size) size) () ptr := by
  have hblank : (blanks T size).length = size := List.length_replicate
  have := Carries.each_exact <| forall₂_of_length (hlen.trans hblank.symm) fun x hx y =>
    LawfulSerial.carries x y (h x hx)
  rwa [← readBuf_self, hblank] at this

section Takes

variable {T : Type} [Serial T] {k : Nat} {f : Bytes → T}

theorem takes_readBuf (h : ∀ y : T, Takes Fault.assertFail (unserialize y) k f) (size : Nat) :
    Takes Fault.assertFail (readBuf (blanks T size) size) (size * k) (words f k size) := by
  have hlen : (blanks T size).length = size := List.length_replicate
  have := Takes.each (blanks T size) h
  rwa [← readBuf_self, hlen] at this

theorem takes_raw (n : Nat) : Takes Fault.assertFail (sbUnserialRaw n) n (leNat ∘ id) :=
  (Takes.take _ n).map leNat

theorem takes_UInt8 (y : UInt8) :
    Takes Fault.assertFail (unserialize y) 1 (fun bs => UInt8.ofNat (leNat bs)) :=
  (takes_raw 1).map UInt8.ofNat

theorem takes_UInt16 (y : UInt16) :
    Takes Fault.assertFail (unserialize y) 2 (fun bs => UInt16.ofNat (leNat bs)) :=
  (takes_raw 2).map UInt16.ofNat

theorem takes_UInt32 (y : UInt32) :
    Takes Fault.assertFail (unserialize y) 4 (fun bs => UInt32.ofNat (leNat bs)) :=
  (takes_raw 4).map UInt32.ofNat

theorem takes_UInt64 (y : UInt64) :
    Takes Fault.assertFail (unserialize y) 8 (fun bs => UInt64.ofNat (leNat bs)) :=
  (takes_raw 8).map UInt64.ofNat

end Takes

/-! From `client_write_request` to `server_read_request`. -/

theorem objectIn_request [LawfulSerial T] {x : T} (old : T) (h : LawfulSerial.Fits x) :
    Carries (objectIn .cliSend x) (objectIn .servRecv old) x x :=
  (LawfulSerial.carries x old h).returning x

theorem objectOut_request (x old : T) :
    Carries (objectOut .cliSend x) (objectOut .servRecv old) x old := .ret x old

theorem bufferIn_request [LawfulSerial T] {ptr : List T} (old : List T) {n : UInt16}
    (hlen : ptr.length = n.toNat) (h : ∀ x ∈ ptr, LawfulSerial.Fits x) :
    Carries (bufferIn .cliSend ptr n.toUInt64) (bufferIn .servRecv old n.toUInt64) ptr ptr := by
  have := carries_buf hlen h
  rw [← writeBuf_self, hlen, ← toNat_count] at this
  exact .read_ok (addBuff_count n) (this.returning ptr)

theorem bufferOut_request (ptr old : List T) (n : UInt16) :
    Carries (bufferOut .cliSend ptr n.toUInt64) (bufferOut .servRecv old n.toUInt64) ptr
      (blanks T n.toNat) := by
  rw [bufferOut, bufferOut, addBuff_count, lift_ok]
  exact .ret ptr _

theorem bufferRowsIn_request [LawfulSerial T] {ptr : List (List T)} (old : List (List T))
    {total : VmSize} {sizes : Except Fault (List Nat)} (hsizes : sizes = .ok (ptr.map List.length))
    (htotal : (ptr.map List.length).sum = total.toNat) (hroom : total.toNat * sizeof T ≤ maxBytes)
    (h : ∀ row ∈ ptr, ∀ x ∈ row, LawfulSerial.Fits x) :
    Carries (bufferRowsIn .cliSend ptr total sizes) (bufferRowsIn .servRecv old total sizes)
      ptr ptr := by
  have hlen : ptr.flatten.length = total.toNat := by rw [List.length_flatten, htotal]
  have hfits : ∀ x ∈ ptr.flatten, LawfulSerial.Fits x := by
    intro x hx
    obtain ⟨row, hrow, hx⟩ := List.mem_flatten.mp hx
    exact h row hrow x hx
  have hflat := carries_buf hlen hfits
  rw [← forM_rows, ← writeBuf2d_self] at hflat
  refine .write_ok hsizes (.read_ok hsizes ?_)
  rw [addBuff_ok hroom, lift_ok, pure_bind]
  refine hflat.bind ?_
  rw [dirBuf_flatten]
  exact .ret ptr ptr

theorem bufferRowsOut_request (ptr old : List (List T)) {total : VmSize}
    {sizes : Except Fault (List Nat)} {ns : List Nat} (hsizes : sizes = .ok ns)
    (htotal : ns.sum = total.toNat) (hroom : total.toNat * sizeof T ≤ maxBytes) :
    Carries (bufferRowsOut .cliSend ptr total sizes) (bufferRowsOut .servRecv old total sizes)
      ptr (ns.map (blanks T)) := by
  refine .read_ok hsizes ?_
  rw [addBuff_ok hroom, lift_ok, pure_bind, ← htotal, dirBuf_blanks]
  exact .ret _ _

theorem buffer2dInCstr_request {ptr : List CStr} (old : List CStr) {size : VmSize}
    (hlen : ptr.length = size.toNat)
    (htotal : (ptr.map fun s : CStr => s.1.length + 1).sum < 65536) :
    Carries (buffer2dInCstr .cliSend ptr size) (buffer2dInCstr .servRecv old size) ptr ptr := by
  have hitems : itemsAt ptr size.toNat = .ok ptr := hlen ▸ itemsAt_self ptr
  have hsum : ((ptr.map fun s : CStr => s.1.length + 1).sum.toUInt16).toNat =
      (ptr.map fun s : CStr => s.1.length + 1).sum := UInt16.toNat_ofNat_of_lt htotal
  have hbuf : (ptr.map fun s : CStr => s.1 ++ [0]).flatten.length =
      ((ptr.map fun s : CStr => s.1.length + 1).sum.toUInt16).toNat := by
    rw [hsum, List.length_flatten, List.map_map]
    simp [Function.comp_def]
  have hstrs := carries_put_take Fault.assertFail hbuf
  rw [← forM_put] at hstrs
  refine .write_ok hitems ((LawfulSerial.carries _ (0 : UInt16) trivial).bind (hstrs.bind ?_))
  rw [← hlen, dirBufCstr_flatten]
  exact .ret ptr ptr

/-! Rows of bytes for which no buffer can be made, or one that is too small for them. -/

/-- The bytes of the rows, one after the other. -/
theorem writeBuf2d_bytes (ptr : List Bytes) : writeBuf2d ptr (ptr.map List.length) =
    put (ptr.flatten.map fun x => leBytes 1 x.toNat).flatten := by
  rw [writeBuf2d_self, forM_rows]
  exact forM_put (fun x : UInt8 => leBytes 1 x.toNat) ptr.flatten

theorem length_rowBytes (ptr : List Bytes) :
    (ptr.flatten.map fun x => leBytes 1 x.toNat).flatten.length = (ptr.map List.length).sum := by
  rw [List.length_flatten, List.map_map]
  simp only [Function.comp_def, length_leBytes, List.map_const', List.sum_replicate_nat]
  rw [Nat.mul_one, List.length_flatten]

/-- Rows are not found in a buffer that is too small for them. -/
theorem readRows_short {ns : List Nat} {n : Nat} {bs : Bytes} (hle : n ≤ bs.length)
    (hsum : n < ns.sum) :
    (readBuf (blanks UInt8 n) n >>= fun buf => Prog.lift (dirBuf ns buf)).on bs =
      (.error .undefined, bs.drop n) := by
  have hread := takes_readBuf takes_UInt8 n
  rw [Nat.mul_one] at hread
  have hcut := dirBuf_spec ns (words (fun bs => UInt8.ofNat (leNat bs)) 1 n (bs.take n))
  rw [length_words, if_neg (Nat.not_le_of_lt hsum)] at hcut
  rw [on_bind_ok ((hread bs).1 hle), hcut, on_lift]

theorem bufferRowsIn_refused {ptr : List Bytes} (old : List Bytes) {total : VmSize}
    {sizes : Except Fault (List Nat)} (hsizes : sizes = .ok (ptr.map List.length))
    (h : maxBytes < total.toNat ∨ total.toNat < (ptr.map List.length).sum) :
    Breaks (bufferRowsIn .cliSend ptr total sizes) (bufferRowsIn .servRecv old total sizes) ptr
      fun e => e = .stdException ∧ maxBytes < total.toNat ∨
        e = .undefined ∧ total.toNat < (ptr.map List.length).sum := by
  refine .write_ok hsizes (.read_ok hsizes ?_)
  rw [writeBuf2d_bytes]
  by_cases hroom : total.toNat ≤ maxBytes
  · have hsum := h.resolve_left (Nat.not_lt_of_le hroom)
    rw [addBuff_bytes hroom, lift_ok, pure_bind]
    refine ⟨_, fun out => rfl, fun rest => ⟨_, .inr ⟨rfl, hsum⟩, _, readRows_short ?_ hsum⟩⟩
    rw [List.length_append, length_rowBytes]
    omega
  · have hlt := Nat.lt_of_not_le hroom
    exact .of_error (addBuff_error (by rwa [show sizeof UInt8 = 1 from rfl, Nat.mul_one]))
      (.inl ⟨rfl, hlt⟩) ((carries_put_take Fault.assertFail rfl).returning ptr)

theorem bufferRowsOut_refused (ptr old : List Bytes) {total : VmSize}
    {sizes : Except Fault (List Nat)} {ns : List Nat} (hsizes : sizes = .ok ns)
    (h : maxBytes < total.toNat ∨ total.toNat < ns.sum) :
    Breaks (bufferRowsOut .cliSend ptr total sizes) (bufferRowsOut .servRecv old total sizes) ptr
      fun e => e = .stdException ∧ maxBytes < total.toNat ∨
        e = .undefined ∧ total.toNat < ns.sum := by
  refine .read_ok hsizes ?_
  by_cases hroom : total.toNat ≤ maxBytes
  · have hsum := h.resolve_left (Nat.not_lt_of_le hroom)
    have hcut : dirBuf ns (blanks UInt8 total.toNat) = .error .undefined := by
      have := dirBuf_spec ns (blanks UInt8 total.toNat)
      rwa [length_blanks, if_neg (Nat.not_le_of_lt hsum)] at this
    rw [addBuff_bytes hroom, lift_ok, pure_bind, hcut]
    exact ⟨[], fun out => by simp [bufferRowsOut], fun rest => ⟨_, .inr ⟨rfl, hsum⟩, rest, rfl⟩⟩
  · have hlt := Nat.lt_of_not_le hroom
    exact .of_error (addBuff_error (by rwa [show sizeof UInt8 = 1 from rfl, Nat.mul_one]))
      (.inl ⟨rfl, hlt⟩) (.ret ptr ptr)

/-! From `server_write_response` to `client_read_response`. -/

theorem objectIn_response (x old : T) :
    Carries (objectIn .servSend x) (objectIn .cliRecv old) x old := .ret x old

theorem objectOut_response [LawfulSerial T] {x : T} (old : T) (h : LawfulSerial.Fits x) :
    Carries (objectOut .servSend x) (objectOut .cliRecv old) x x :=
  (LawfulSerial.carries x old h).returning x

theorem bufferIn_response (ptr old : List T) (size size' : VmSize) :
    Carries (bufferIn .servSend ptr size) (bufferIn .cliRecv old size') ptr old := .ret ptr old

theorem bufferRowsIn_response (ptr old : List (List T)) (total total' : VmSize)
    (sizes sizes' : Except Fault (List Nat)) :
    Carries (bufferRowsIn .servSend ptr total sizes) (bufferRowsIn .cliRecv old total' sizes')
      ptr old := .ret ptr old

theorem buffer2dInCstr_response (ptr old : List CStr) (size size' : VmSize) :
    Carries (buffer2dInCstr .servSend ptr size) (buffer2dInCstr .cliRecv old size') ptr old :=
  .ret ptr old

/-- `new x y` is what reading `x` onto `y` gives. -/
theorem bufferOut_response {new : T → T → T} {ptr old : List T} {size : VmSize}
    (hlen : ptr.length = size.toNat) (hold : old.length = size.toNat)
    (h : ∀ x ∈ ptr, ∀ y, Carries (serialize x) (unserialize y) () (new x y)) :
    Carries (bufferOut .servSend ptr size) (bufferOut .cliRecv old size) ptr
      (List.zipWith new ptr old) := by
  have := Carries.each (forall₂_of_length (hlen.trans hold.symm) h)
  rw [← writeBuf_self, ← readBuf_self, hlen, hold] at this
  exact this.returning ptr

theorem bufferOut_response_exact [LawfulSerial T] {ptr old : List T} {size : VmSize}
    (hlen : ptr.length = size.toNat) (hold : old.length = size.toNat)
    (h : ∀ x ∈ ptr, LawfulSerial.Fits x) :
    Carries (bufferOut .servSend ptr size) (bufferOut .cliRecv old size) ptr ptr := by
  have := Carries.each_exact <| forall₂_of_length (hlen.trans hold.symm) fun x hx y =>
    LawfulSerial.carries x y (h x hx)
  rw [← writeBuf_self, ← readBuf_self, hlen, hold] at this
  exact this.returning ptr

theorem bufferRowsOut_response [LawfulSerial T] {ptr old : List (List T)} {total : VmSize}
    {sizes : Except Fault (List Nat)} (hsizes : sizes = .ok (ptr.map List.length))
    (hold : old.map List.length = ptr.map List.length)
    (h : ∀ row ∈ ptr, ∀ x ∈ row, LawfulSerial.Fits x) :
    Carries (bufferRowsOut .servSend ptr total sizes) (bufferRowsOut .cliRecv old total sizes)
      ptr ptr := by
  have hlens : List.Forall₂ Eq (ptr.map List.length) (old.map List.length) := by
    rw [hold, List.forall₂_eq_eq_eq]
  obtain ⟨hlen, hrow⟩ := List.forall₂_iff_zip.mp <|
    List.forall₂_map_right_iff.mp (List.forall₂_map_left_iff.mp hlens)
  have hrows : List.Forall₂
      (fun row row' => Carries (row.forM serialize) (row'.mapM unserialize) () row) ptr old :=
    List.forall₂_iff_zip.mpr ⟨hlen, fun hmem => .each_exact <| forall₂_of_length (hrow hmem)
      fun x hx y => LawfulSerial.carries x y (h _ (List.of_mem_zip hmem).1 x hx)⟩
  have := Carries.each_exact hrows
  rw [← writeBuf2d_self, ← readBuf2d_self, hold] at this
  exact .write_ok hsizes (.read_ok hsizes (this.returning ptr))

end Carry

end Odb
