import Mathlib.Data.List.Perm.Basic
import Mathlib.Data.List.Range
import Odb.Mess.RequestHandler
import Odb.Server.VMApi

/-!
# `CWrapperVMApi::get_symbols` (`server_capi/vm-api.cc`)

The adapter asks the C callback for the symbols page by page, each page being as many addresses as
the callback has visited.

* `pages`: the loop; `getSymbols`: the call.
* `Honours`: what a callback is documented to do.
* `getSymbols_pages`: the call ends; it gives the pages one after the other, which are all symbols of
  the range, or throws the message that the callback has set.
-/

namespace Odb

/-- `odb_vm_api_error_t`: the array `msg`. -/
abbrev CError := Block 255

namespace CError

/-- `msg[0] = 0`. -/
def clear (e : CError) : CError := ⟨0 :: e.1.tail, by simp [e.2]⟩

/-- `msg[0]` is not 0. -/
def isSet (e : CError) : Bool := e.1.head? ≠ some 0

/-- The array holds this string. -/
def Says (e : CError) (msg : Bytes) : Prop := 0 ∉ msg ∧ ∃ rest, e.1 = msg ++ 0 :: rest

/-- `VMApi::Error(_err.msg)`. -/
def thrown (e : CError) : Fault :=
  if 0 ∈ e.1 then .vmError (e.1.takeWhile (· ≠ 0)) else .undefined

/-- The message in the array, if there is one. -/
def msg (e : CError) : Option Bytes := if e.isSet then some (e.1.takeWhile (· ≠ 0)) else none

theorem Says.takeWhile {e : CError} {msg : Bytes} (h : e.Says msg) :
    e.1.takeWhile (· ≠ 0) = msg := by
  obtain ⟨hmsg, rest, he⟩ := h
  rw [he, List.takeWhile_append_of_pos, List.takeWhile_cons_of_neg (by simp), List.append_nil]
  intro c hc
  have hne : c ≠ 0 := by
    rintro rfl
    exact hmsg hc
  simpa using hne

theorem Says.thrown {e : CError} {msg : Bytes} (h : e.Says msg) : e.thrown = .vmError msg := by
  have hmsg := h.takeWhile
  obtain ⟨-, rest, he⟩ := h
  rw [CError.thrown, if_pos (by rw [he]; simp), hmsg]

theorem Says.isSet {e : CError} {msg : Bytes} (h : e.Says msg) (hne : msg ≠ []) :
    e.isSet = true := by
  obtain ⟨hmsg, rest, he⟩ := h
  obtain ⟨c, msg, rfl⟩ := List.exists_cons_of_ne_nil hne
  have hc : c ≠ 0 := fun h => hmsg (by simp [h])
  simp [CError.isSet, he, hc]

theorem isSet_clear (e : CError) : e.clear.isSet = false := by simp [clear, isSet]

end CError

/-- What the callback works on through its pointers: `_err`, `syms_buf`, `syms_buf_size` and
`act_size`. -/
structure SymsPage where
  err : CError
  syms : {l : List VmSym // l.length = 32}
  nbSyms : VmSize
  actSize : VmSize

/-- `odb_vm_api_get_symbols_f`, on the data `D`. -/
abbrev CGetSymbols (D : Type) := VmPtr → VmSize → SymsPage → D → SymsPage × D

structure CWrapperVMApi (D : Type) where
  err : CError
  data : D

namespace CWrapperVMApi

variable {D : Type} (callback : CGetSymbols D)

/-- The loop of `get_symbols`, if it ends after at most so many rounds. -/
def pages : Nat → VmPtr → VmSize → List VmSym → SymsPage → D →
    Option (Except Fault (List VmSym) × CWrapperVMApi D)
  | rounds, addr, size, res, page, data =>
    if size = 0 then some (.ok res, ⟨page.err, data⟩) else
    match rounds with
    | 0 => none
    | rounds + 1 =>
      let (page, data) := callback addr size page data
      if page.err.isSet then some (.error page.err.thrown, ⟨page.err, data⟩) else
      match itemsAt page.syms.1 page.nbSyms.toNat with
      | .error e => some (.error e, ⟨page.err, data⟩)
      | .ok syms =>
        pages rounds (addr + page.actSize) (size - page.actSize) (res ++ syms) page data

/-- `get_symbols(addr, size)`; `uninit` is what its variables hold at first. -/
def getSymbols (rounds : Nat) (uninit : SymsPage) (addr : VmPtr) (size : VmSize)
    (w : CWrapperVMApi D) : Option (Except Fault (List VmSym) × CWrapperVMApi D) :=
  pages callback rounds addr size [] { uninit with err := w.err.clear } w.data

/-! ## The callback -/

/-- The symbols of `n` addresses from `addr` on, address by address. -/
def visited (symsAt : Nat → List VmSym) (addr n : Nat) : List VmSym :=
  (List.range' addr n).flatMap symsAt

theorem visited_append (symsAt : Nat → List VmSym) (addr m n : Nat) :
    visited symsAt addr (m + n) = visited symsAt addr m ++ visited symsAt (addr + m) n := by
  rw [visited, visited, visited, ← List.flatMap_append, List.range'_append_1]

/-- The symbols that a page reports. -/
def SymsPage.reported (page : SymsPage) : List VmSym := page.syms.1.take page.nbSyms.toNat

/-- The page that the callback has left for the range of `size` addresses from `addr` on is as
documented: an error message, or a part of the range from its beginning on with all symbols of it,
in any order. -/
def Documented (symsAt : Nat → List VmSym) (addr : VmPtr) (size : VmSize) (page : SymsPage) :
    Prop :=
  (∃ msg, msg ≠ [] ∧ page.err.Says msg) ∨
    page.err.isSet = false ∧ 1 ≤ page.actSize ∧ page.actSize ≤ size ∧ page.nbSyms ≤ 32 ∧
      (SymsPage.reported page).Perm (visited symsAt addr.toNat page.actSize.toNat)

/-- The callback does as documented with data in `P`, which stays in it: the symbols of the VM are
`symsAt`. -/
def Honours (callback : CGetSymbols D) (symsAt : Nat → List VmSym) (P : D → Prop) : Prop :=
  ∀ addr size page data, P data → 1 ≤ size → addr.toNat + size.toNat ≤ 2 ^ 64 →
    page.err.isSet = false → P (callback addr size page data).2 ∧
      Documented symsAt addr size (callback addr size page data).1

/-- A call of the callback: its arguments, the message it set and the symbols it reported. -/
structure CCall where
  addr : VmPtr
  size : VmSize
  msg : Option Bytes
  syms : List VmSym

/-- The callback with a log of its calls. -/
def logged (callback : CGetSymbols D) : CGetSymbols (D × List CCall) := fun addr size page s =>
  let (page, data) := callback addr size page s.1
  (page, data, s.2 ++ [⟨addr, size, page.err.msg, SymsPage.reported page⟩])

/-- Each call was for a part of the range that is not empty and goes to its end, and the pages before
it have exactly the symbols of the addresses before it. -/
def Pages (symsAt : Nat → List VmSym) (addr : VmPtr) (size : VmSize) (calls : List CCall) : Prop :=
  ∀ pre c post, calls = pre ++ c :: post →
    addr ≤ c.addr ∧ 1 ≤ c.size ∧ c.addr.toNat + c.size.toNat = addr.toNat + size.toNat ∧
      (pre.flatMap CCall.syms).Perm (visited symsAt addr.toNat (c.addr.toNat - addr.toNat))

/-- What comes of the calls: if none has set a message the pages in their order, which have exactly
the symbols `all`, and else the message of the last one. -/
def Answers (all : List VmSym) (calls : List CCall) (r : Except Fault (List VmSym)) : Prop :=
  (r = .ok (calls.flatMap CCall.syms) ∧ (calls.flatMap CCall.syms).Perm all ∧
      ∀ c ∈ calls, c.msg = none) ∨
    ∃ pre last msg, calls = pre ++ [last] ∧ (∀ c ∈ pre, c.msg = none) ∧ last.msg = some msg ∧
      r = .error (.vmError msg)

/-! ## The loop -/

section Calls

variable {symsAt : Nat → List VmSym} {addr : VmPtr} {size act : VmSize} {calls : List CCall}
  {c : CCall}

theorem Pages.nil : Pages symsAt addr size [] := by
  intro pre c post h
  simp at h

/-- The first call is for the whole range. -/
theorem Pages.single (hsize : 1 ≤ size) (haddr : c.addr = addr) (hcall : c.size = size) :
    Pages symsAt addr size [c] := by
  intro pre c' post h
  obtain ⟨rfl, hc⟩ | ⟨pre, rfl, h⟩ := List.cons_eq_append_iff.mp h
  · obtain ⟨rfl, -⟩ := List.cons.inj hc
    rw [haddr, hcall, Nat.sub_self]
    exact ⟨UInt64.le_refl _, hsize, rfl, .refl _⟩
  · simp at h

/-- The calls for a range are those for its first page and for the rest. -/
theorem Pages.cons (hsize : 1 ≤ size) (hact : act ≤ size)
    (hrange : addr.toNat + act.toNat < 2 ^ 64) (haddr : c.addr = addr) (hcall : c.size = size)
    (hsyms : c.syms.Perm (visited symsAt addr.toNat act.toNat))
    (h : Pages symsAt (addr + act) (size - act) calls) : Pages symsAt addr size (c :: calls) := by
  intro pre c' post hsplit
  obtain ⟨rfl, hc⟩ | ⟨pre, rfl, hrest⟩ := List.cons_eq_append_iff.mp hsplit
  · obtain ⟨rfl, -⟩ := List.cons.inj hc
    rw [haddr, hcall, Nat.sub_self]
    exact ⟨UInt64.le_refl _, hsize, rfl, .refl _⟩
  have hadd : (addr + act).toNat = addr.toNat + act.toNat := by
    rw [UInt64.toNat_add, Nat.mod_eq_of_lt hrange]
  have hsub := UInt64.toNat_sub_of_le _ _ hact
  have hle := UInt64.le_iff_toNat_le.mp hact
  obtain ⟨hafter, hone, hend, hbefore⟩ := h pre c' post hrest
  rw [UInt64.le_iff_toNat_le, hadd] at hafter
  refine ⟨UInt64.le_iff_toNat_le.mpr (by omega), hone, by omega, ?_⟩
  have hlen : c'.addr.toNat - addr.toNat = act.toNat + (c'.addr.toNat - (addr + act).toNat) := by
    omega
  rw [List.flatMap_cons, hlen, visited_append, ← hadd]
  exact hsyms.append hbefore

theorem Answers.cons {all all' : List VmSym} {r : Except Fault (List VmSym)} (hc : c.msg = none)
    (hsyms : c.syms.Perm all) (h : Answers all' calls r) :
    Answers (all ++ all') (c :: calls) (r.map (c.syms ++ ·)) := by
  rcases h with ⟨rfl, hperm, hcalls⟩ | ⟨pre, last, msg, rfl, hpre, hlast, rfl⟩
  · exact .inl ⟨rfl, hsyms.append hperm, List.forall_mem_cons.mpr ⟨hc, hcalls⟩⟩
  · exact .inr ⟨c :: pre, last, msg, rfl, List.forall_mem_cons.mpr ⟨hc, hpre⟩, hlast, rfl⟩

end Calls

section Loop

variable {callback} {addr : VmPtr} {size : VmSize} {res : List VmSym} {page page' : SymsPage}
  {data data' : D} {log : List CCall} {rounds : Nat}

theorem pages_zero : pages (logged callback) rounds addr 0 res page (data, log) =
    some (.ok res, ⟨page.err, (data, log)⟩) := by
  unfold pages
  rfl

theorem pages_error (hzero : size ≠ 0) (hcall : callback addr size page data = (page', data'))
    (herr : page'.err.isSet = true) :
    pages (logged callback) (rounds + 1) addr size res page (data, log) =
      some (.error page'.err.thrown,
        ⟨page'.err, (data', log ++ [⟨addr, size, page'.err.msg, SymsPage.reported page'⟩])⟩) := by
  rw [pages, if_neg hzero]
  simp only [logged, hcall, herr, if_true]

theorem pages_next (hzero : size ≠ 0) (hcall : callback addr size page data = (page', data'))
    (herr : page'.err.isSet = false) (hcap : page'.nbSyms ≤ 32) :
    pages (logged callback) (rounds + 1) addr size res page (data, log) =
      pages (logged callback) rounds (addr + page'.actSize) (size - page'.actSize)
        (res ++ SymsPage.reported page') page'
        (data', log ++ [⟨addr, size, none, SymsPage.reported page'⟩]) := by
  have hcap : page'.nbSyms.toNat ≤ page'.syms.1.length := by
    rw [page'.syms.2]
    exact UInt64.le_iff_toNat_le.mp hcap
  have hmsg : page'.err.msg = none := by simp [CError.msg, herr]
  rw [pages, if_neg hzero]
  simp only [logged, hcall, herr, hmsg, itemsAt, if_pos hcap]
  rfl

variable {symsAt : Nat → List VmSym} {P : D → Prop} (h : Honours callback symsAt P)
include h

/-- Every round lowers what is left, and what it adds are the symbols of the page. -/
theorem pages_answers (hdata : P data) (herr : page.err.isSet = false)
    (hrange : addr.toNat + size.toNat ≤ 2 ^ 64) (hrounds : size.toNat ≤ rounds) :
    ∃ r w calls, pages (logged callback) rounds addr size res page (data, log) =
        some (r.map (res ++ ·), w) ∧
      w.data.2 = log ++ calls ∧ P w.data.1 ∧ Pages symsAt addr size calls ∧
      Answers (visited symsAt addr.toNat size.toNat) calls r := by
  induction rounds generalizing addr size res page data log with
  | zero =>
    obtain rfl : size = 0 := UInt64.toNat_inj.mp (Nat.le_zero.mp hrounds)
    refine ⟨.ok [], ⟨page.err, (data, log)⟩, [], ?_, (List.append_nil _).symm, hdata, .nil,
      .inl ⟨rfl, .nil, by simp⟩⟩
    rw [pages_zero, Except.map, List.append_nil]
  | succ rounds ih =>
    by_cases hzero : size = 0
    · subst hzero
      refine ⟨.ok [], ⟨page.err, (data, log)⟩, [], ?_, (List.append_nil _).symm, hdata, .nil,
        .inl ⟨rfl, .nil, by simp⟩⟩
      rw [pages_zero, Except.map, List.append_nil]
    have hone : 1 ≤ size := by
      rw [UInt64.le_iff_toNat_le]
      exact Nat.one_le_iff_ne_zero.mpr fun h => hzero (UInt64.toNat_inj.mp h)
    obtain ⟨hdata', hpage⟩ := h addr size page data hdata hone hrange herr
    obtain ⟨page', data', hcall⟩ : ∃ p d, callback addr size page data = (p, d) := ⟨_, _, rfl⟩
    rw [hcall] at hdata' hpage
    dsimp only at hdata' hpage
    rcases hpage with ⟨msg, hne, hmsgSet⟩ | ⟨herr', hact, hle, hcap, hsyms⟩
    · have hmsg : page'.err.msg = some msg := by
        rw [CError.msg, if_pos (hmsgSet.isSet hne), hmsgSet.takeWhile]
      exact ⟨.error page'.err.thrown, _, _, pages_error hzero hcall (hmsgSet.isSet hne), rfl,
        hdata', .single hone rfl rfl,
        .inr ⟨[], _, msg, rfl, by simp, hmsg, congrArg Except.error hmsgSet.thrown⟩⟩
    · rw [pages_next hzero hcall herr' hcap]
      have hact' : 1 ≤ page'.actSize.toNat := UInt64.le_iff_toNat_le.mp hact
      have hle' := UInt64.le_iff_toNat_le.mp hle
      have hsub := UInt64.toNat_sub_of_le _ _ hle
      by_cases hlast : page'.actSize = size
      · -- the rest is empty, also where its address wraps around
        rw [hlast] at hsyms ⊢
        rw [UInt64.sub_self]
        refine ⟨.ok (SymsPage.reported page'), _, [⟨addr, size, none, SymsPage.reported page'⟩],
          pages_zero, rfl, hdata', .single hone rfl rfl, .inl ?_⟩
        simpa using hsyms
      · have hlt : page'.actSize.toNat < size.toNat :=
          lt_of_le_of_ne hle' fun h => hlast (UInt64.toNat_inj.mp h)
        have hadd : (addr + page'.actSize).toNat = addr.toNat + page'.actSize.toNat := by
          rw [UInt64.toNat_add, Nat.mod_eq_of_lt (by omega)]
        obtain ⟨r, w, calls, hrun, hlog, hP, hpages, hans⟩ :=
          @ih (addr + page'.actSize) (size - page'.actSize) (res ++ SymsPage.reported page') page'
            data' (log ++ [⟨addr, size, none, SymsPage.reported page'⟩]) hdata' herr' (by omega)
            (by omega)
        refine ⟨r.map (SymsPage.reported page' ++ ·), w,
          ⟨addr, size, none, SymsPage.reported page'⟩ :: calls, ?_, ?_, hP,
          hpages.cons hone hle (by omega) rfl rfl hsyms, ?_⟩
        · rw [hrun]
          cases r <;> simp [Except.map]
        · rw [hlog, List.append_assoc]
          rfl
        · have hall := visited_append symsAt addr.toNat page'.actSize.toNat
            (size.toNat - page'.actSize.toNat)
          rw [Nat.add_sub_cancel' hle', ← hadd, ← hsub] at hall
          rw [hall]
          exact hans.cons rfl hsyms

/-- The call ends after at most as many pages as the range has addresses; it gives all symbols of the
range, page after page, or throws the message that the callback has set. -/
theorem getSymbols_pages (hrange : addr.toNat + size.toNat ≤ 2 ^ 64) {w : CWrapperVMApi D}
    (hdata : P w.data) (uninit : SymsPage) (hrounds : size.toNat ≤ rounds) :
    ∃ r w' calls, getSymbols (logged callback) rounds uninit addr size ⟨w.err, (w.data, [])⟩ =
        some (r, w') ∧ w'.data.2 = calls ∧ P w'.data.1 ∧ Pages symsAt addr size calls ∧
      Answers (visited symsAt addr.toNat size.toNat) calls r := by
  obtain ⟨r, w', calls, hrun, hlog, hP, hpages, hans⟩ := @pages_answers _ callback addr size []
    { uninit with err := w.err.clear } w.data [] rounds symsAt P h hdata w.err.isSet_clear hrange
    hrounds
  refine ⟨r, w', calls, ?_, hlog, hP, hpages, hans⟩
  have hmap : r.map ([] ++ ·) = r := by cases r <;> rfl
  rw [← hmap]
  exact hrun

end Loop

/-! ### Two addresses a page, the higher one first -/

/-- The symbols 7 and 8, at 4 and 5. -/
def fourAndFive (addr : Nat) : List VmSym := if addr = 4 then [7] else if addr = 5 then [8] else []

/-- A callback that visits two addresses at a time, and reports the symbols of the higher one
first. -/
def twoByTwo : CGetSymbols Unit := fun addr size page data =>
  let actSize : VmSize := if size = 1 then 1 else 2
  let found := (visited fourAndFive addr.toNat actSize.toNat).reverse
  ({ page with
      syms := ⟨(found ++ List.replicate 32 0).take 32, by simp⟩
      nbSyms := found.length.toUInt64
      actSize }, data)

theorem length_fourAndFive (addr : Nat) : (fourAndFive addr).length ≤ 1 := by
  unfold fourAndFive
  split
  · exact Nat.le_refl 1
  · split
    · exact Nat.le_refl 1
    · exact Nat.zero_le 1

theorem length_visited_two (addr n : Nat) : (visited fourAndFive addr n).length ≤ n := by
  induction n generalizing addr with
  | zero => exact Nat.zero_le _
  | succ n ih =>
    have hfirst := length_fourAndFive addr
    have hrest := ih (addr + 1)
    rw [Nat.add_comm n, visited_append, List.length_append]
    simp only [visited, List.range'_one, List.flatMap_singleton] at hrest ⊢
    omega

theorem twoByTwo_honours : Honours twoByTwo fourAndFive (· = ()) := by
  intro addr size page data _ hone _ herr
  have hact : (1 : VmSize) ≤ (if size = 1 then 1 else 2) ∧ (if size = 1 then 1 else 2) ≤ size ∧
      (if size = 1 then (1 : VmSize) else 2).toNat ≤ 2 := by
    split
    · next h => exact ⟨by decide, h ▸ UInt64.le_refl _, by decide⟩
    · next h =>
      rw [UInt64.le_iff_toNat_le] at hone
      have hne : size.toNat ≠ 1 := fun h' => h (UInt64.toNat_inj.mp h')
      exact ⟨by decide, UInt64.le_iff_toNat_le.mpr (by
        show 2 ≤ size.toNat
        have : (1 : VmSize).toNat = 1 := rfl
        omega), by decide⟩
  obtain ⟨hpos, hle, htwo⟩ := hact
  have hfound := length_visited_two addr.toNat (if size = 1 then (1 : VmSize) else 2).toNat
  have hnb : (visited fourAndFive addr.toNat
      (if size = 1 then (1 : VmSize) else 2).toNat).reverse.length.toUInt64.toNat =
      (visited fourAndFive addr.toNat (if size = 1 then (1 : VmSize) else 2).toNat).length := by
    rw [List.length_reverse]
    exact Nat.mod_eq_of_lt (by omega)
  refine ⟨rfl, .inr ⟨herr, hpos, hle, ?_, ?_⟩⟩
  · rw [UInt64.le_iff_toNat_le]
    show UInt64.toNat (List.length _).toUInt64 ≤ 32
    rw [hnb]
    omega
  · show List.Perm (((_ ++ List.replicate 32 0).take 32).take (UInt64.toNat (List.length _).toUInt64))
      _
    rw [hnb, List.take_take, Nat.min_eq_left (by omega),
      List.take_left' (List.length_reverse)]
    exact List.reverse_perm _

/-- What the adapter has before its first call. -/
def cAdapter : CWrapperVMApi Unit := ⟨Block.fill 255 1, ()⟩

def uninitPage : SymsPage := ⟨Block.fill 255 1, ⟨List.replicate 32 0, rfl⟩, 0, 0⟩

/-- Two pages for the addresses 4, 5 and 6. -/
theorem getSymbols_pages_two : ∃ r w' calls,
    getSymbols (logged twoByTwo) 3 uninitPage 4 3 ⟨cAdapter.err, ((), [])⟩ = some (r, w') ∧
      w'.data.2 = calls ∧ w'.data.1 = () ∧ Pages fourAndFive 4 3 calls ∧
      Answers (visited fourAndFive 4 3) calls r :=
  @getSymbols_pages _ twoByTwo 4 3 3 fourAndFive _ twoByTwo_honours (by decide) cAdapter rfl
    uninitPage (by decide)

end CWrapperVMApi

end Odb
