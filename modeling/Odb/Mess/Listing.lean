import Mathlib.Data.List.Induction
import Odb.Mess.SimpleCLIClient

/-!
# What the command `code` prints

* `Substituted`: a text with every reference `{n}` replaced by the name of the symbol `n`.
* `scanLine_marks`: the scan of a line ends, reads nothing beyond it, and finds the references.
* `printRefs_marks`: printing up to them and from them on gives the substituted text.
* `cmdCode_prints`: so does the command, for every line of the code.
-/

namespace Odb

namespace SimpleCLIClient

open Prog DBClient

/-- The text begins with a reference to the symbol `n`, and `rest` follows it. -/
def IsRef (n : Nat) (s rest : Bytes) : Prop :=
  ∃ ds, s = 123 :: (ds ++ 125 :: rest) ∧ ds ≠ [] ∧ (∀ c ∈ ds, isNum c = true) ∧
    n = Stoll.value 10 ds

/-- The second text is the first with the references replaced by the names of the symbols, found from
left to right; all other characters stay. -/
inductive Substituted (names : Nat → Bytes) : Bytes → Bytes → Prop where
  | nil : Substituted names [] []
  | ref {n : Nat} {s rest out : Bytes} :
    IsRef n s rest → Substituted names rest out → Substituted names s (names n ++ out)
  | char {c : UInt8} {rest out : Bytes} : (∀ n rest', ¬ IsRef n (c :: rest) rest') →
    Substituted names rest out → Substituted names (c :: rest) (c :: out)

/-- There is a reference to the symbol `n` in the text, overlapping others or not. -/
def Refers (s : Bytes) (n : Nat) : Prop := ∃ pre t rest, s = pre ++ t ∧ IsRef n t rest

variable {names : Nat → Bytes} {s out out' l pre rest : Bytes} {n m : Nat} {c : UInt8}

theorem takeWhile_isNum {ds : Bytes} (hds : ∀ c ∈ ds, isNum c = true)
    (hnum : isNum (rest.headD 0) = false) : (ds ++ rest).takeWhile isNum = ds := by
  rw [List.takeWhile_append_of_pos hds]
  obtain _ | ⟨c, rest⟩ := rest
  · exact List.append_nil ds
  · rw [List.takeWhile_cons_of_neg (by simpa using hnum), List.append_nil]

theorem IsRef.unique {rest' : Bytes} (h : IsRef n s rest) (h' : IsRef m s rest') :
    n = m ∧ rest = rest' := by
  obtain ⟨ds, rfl, -, hds, rfl⟩ := h
  obtain ⟨ds', ht, -, hds', rfl⟩ := h'
  have ht : ds ++ 125 :: rest = ds' ++ 125 :: rest' := (List.cons.inj ht).2
  obtain rfl : ds = ds' := by
    rw [← @takeWhile_isNum (125 :: rest) ds hds rfl, ht, takeWhile_isNum hds' rfl]
  exact ⟨rfl, (List.cons.inj (List.append_cancel_left ht)).2⟩

/-- There is one such text. -/
theorem Substituted.unique (h : Substituted names s out) (h' : Substituted names s out') :
    out = out' := by
  induction h generalizing out' with
  | nil =>
    cases h' with
    | nil => rfl
    | ref href =>
      obtain ⟨ds, hds, -⟩ := href
      cases hds
  | ref href _ ih =>
    cases h' with
    | nil =>
      obtain ⟨ds, hds, -⟩ := href
      cases hds
    | ref href' hs' =>
      obtain ⟨rfl, rfl⟩ := href.unique href'
      rw [ih hs']
    | char hno => exact absurd href (hno _ _)
  | char hno _ ih =>
    cases h' with
    | ref href => exact absurd href (hno _ _)
    | char _ hs' => rw [ih hs']

/-- Characters that begin no reference. -/
theorem Substituted.skip (hpre : ∀ c ∈ pre, c ≠ 123) (h : Substituted names rest out) :
    Substituted names (pre ++ rest) (pre ++ out) := by
  induction pre with
  | nil => exact h
  | cons c pre ih =>
    rw [List.forall_mem_cons] at hpre
    refine .char (fun n rest' href => ?_) (ih hpre.2)
    obtain ⟨ds, hds, -⟩ := href
    exact hpre.1 (List.cons.inj hds).1

theorem isNum_ne {c : UInt8} (h : isNum c = true) : c ≠ 123 := by
  rintro rfl
  cases h

/-- A brace with digits, or without, that no brace ends. -/
theorem Substituted.skipOpen {ds : Bytes} (hds : ∀ c ∈ ds, isNum c = true)
    (hnum : isNum (rest.headD 0) = false) (hend : ds = [] ∨ rest.headD 0 ≠ 125)
    (h : Substituted names rest out) :
    Substituted names (123 :: (ds ++ rest)) (123 :: (ds ++ out)) := by
  refine .char (fun n rest' href => ?_) (h.skip fun c hc => isNum_ne (hds c hc))
  obtain ⟨ds', ht, hne', hds', -⟩ := href
  have ht : ds ++ rest = ds' ++ 125 :: rest' := (List.cons.inj ht).2
  obtain rfl : ds = ds' := by rw [← takeWhile_isNum hds hnum, ht, takeWhile_isNum hds' rfl]
  rw [List.append_cancel_left ht] at hend
  exact hend.elim hne' fun h => h rfl

/-! ## Characters of a line -/

theorem charAt_drop {pos : Nat} (h : l.drop pos = s) (hpos : pos ≤ l.length) :
    charAt l pos = .ok (s.headD 0) := by
  subst h
  unfold charAt
  split
  · next hend =>
    rw [List.drop_of_length_le hend.ge]
    rfl
  · next hend =>
    have hlt : pos < l.length := by omega
    rw [at', List.getElem?_eq_getElem hlt, List.drop_eq_getElem_cons hlt]
    rfl

theorem drop_after {pos : Nat} (h : l.drop pos = pre ++ s) : l.drop (pos + pre.length) = s := by
  rw [← List.drop_drop, h, List.drop_left]

theorem find_none {pos : Nat} (h : find l c pos = none) : ∀ x ∈ l.drop pos, x ≠ c := by
  rw [find, Option.map_eq_none_iff, List.findIdx?_eq_none_iff] at h
  intro x hx
  simpa using h x hx

theorem find_some {pos begPos : Nat} (h : find l c pos = some begPos) :
    ∃ pre rest, l.drop pos = pre ++ c :: rest ∧ (∀ x ∈ pre, x ≠ c) ∧
      begPos = pos + pre.length := by
  obtain ⟨i, hi, rfl⟩ := Option.map_eq_some_iff.mp h
  obtain ⟨hlt, hc, hpre⟩ := List.findIdx?_eq_some_iff_getElem.mp hi
  obtain rfl : (l.drop pos)[i] = c := by simpa using hc
  refine ⟨(l.drop pos).take i, (l.drop pos).drop (i + 1), ?_, ?_, ?_⟩
  · rw [← List.drop_eq_getElem_cons hlt, List.take_append_drop]
  · intro x hx
    obtain ⟨j, hj, rfl⟩ := List.mem_iff_getElem.mp hx
    rw [List.length_take] at hj
    rw [List.getElem_take]
    simpa using hpre j (by omega)
  · rw [List.length_take]
    omega

/-- The value of digits, wrapped around as the code does. -/
theorem readId_ok {ds : Bytes} {pos rounds : Nat} (h : l.drop pos = ds ++ rest)
    (hpos : pos ≤ l.length) (hds : ∀ c ∈ ds, isNum c = true) (hnum : isNum (rest.headD 0) = false)
    (hrounds : ds.length < rounds) (id : VmSym) :
    readId l rounds id pos =
      .ok (ds.foldl (fun id c => 10 * id + (c - 48).toUInt32) id, pos + ds.length) := by
  induction ds generalizing pos rounds id with
  | nil =>
    obtain _ | rounds := rounds
    · cases hrounds
    · have h : l.drop pos = rest := h
      rw [readId, charAt_drop h hpos, ok_bind, if_neg (by rw [hnum]; decide)]
      rfl
  | cons c ds ih =>
    obtain _ | rounds := rounds
    · cases hrounds
    · rw [List.forall_mem_cons] at hds
      have hlt : pos + 1 ≤ l.length := by
        have := congrArg List.length h
        simp only [List.length_drop, List.cons_append, List.length_cons] at this
        omega
      have hdrop : l.drop (pos + 1) = ds ++ rest := @drop_after _ l [c] pos h
      rw [readId, charAt_drop h hpos, ok_bind, List.cons_append, List.headD_cons, if_pos hds.1,
        ih hdrop hlt hds.2 (by simpa using hrounds), List.foldl_cons, List.length_cons]
      congr 2
      omega

theorem digit_toNat (hc : isNum c = true) :
    (c - 48).toUInt32.toNat = c.toNat - 48 ∧ Stoll.digitVal c = c.toNat - 48 := by
  have hc : 48 ≤ c ∧ c ≤ 57 := by simpa [isNum] using hc
  refine ⟨?_, by rw [Stoll.digitVal, if_pos hc]⟩
  rw [UInt8.toNat_toUInt32, UInt8.toNat_sub_of_le _ _ hc.1]
  rfl

theorem isNum_digit (hc : isNum c = true) : Stoll.digitVal c < 10 := by
  have hc' : 48 ≤ c ∧ c ≤ 57 := by simpa [isNum] using hc
  have hle := UInt8.le_iff_toNat_le.mp hc'.2
  have h57 : (57 : UInt8).toNat = 57 := rfl
  rw [(digit_toNat hc).2]
  omega

/-- The digits of a number that fits are read without wrapping around. -/
theorem foldl_toNat {ds : Bytes} (hds : ∀ c ∈ ds, isNum c = true) (id : VmSym) :
    (ds.foldl (fun id c => 10 * id + (c - 48).toUInt32) id).toNat =
      ds.foldl (fun n c => 10 * n + Stoll.digitVal c) id.toNat % 2 ^ 32 := by
  induction ds using List.reverseRecOn with
  | nil => exact (Nat.mod_eq_of_lt id.toNat_lt).symm
  | append_singleton ds c ih =>
    rw [List.forall_mem_append, List.forall_mem_singleton] at hds
    obtain ⟨hval, hdigit⟩ := digit_toNat hds.2
    rw [List.foldl_append, List.foldl_append, List.foldl_cons, List.foldl_cons, List.foldl_nil,
      List.foldl_nil, UInt32.toNat_add, UInt32.toNat_mul, ih hds.1, hval, hdigit]
    show (10 * _ % 2 ^ 32 + _) % 2 ^ 32 = _
    omega

/-! ## References of a line -/

/-- The references are of the line `i`, one after the other, from `pos` on. -/
inductive Marks (i : Nat) (l : Bytes) : Nat → List Ref → Prop where
  | nil {pos : Nat} : pos ≤ l.length → Marks i l pos []
  | cons {pos : Nat} {ref : Ref} {refs : List Ref} : ref.line = i → pos ≤ ref.begPos →
    ref.begPos ≤ ref.endPos → IsRef ref.id.toNat (l.drop ref.begPos) (l.drop ref.endPos) →
    Marks i l ref.endPos refs → Marks i l pos (ref :: refs)

/-- What is printed of the line from `pos` on. -/
def printed (names : Nat → Bytes) (l : Bytes) : Nat → List Ref → Bytes
  | pos, [] => l.drop pos
  | pos, ref :: refs => (l.drop pos).take (ref.begPos - pos) ++
    (names ref.id.toNat ++ printed names l ref.endPos refs)

variable {i pos pos' : Nat} {refs : List Ref}

theorem Marks.le_length (h : Marks i l pos refs) : pos ≤ l.length := by
  induction h with
  | nil hpos => exact hpos
  | cons _ hbeg hend _ _ ih => omega

theorem Marks.line (h : Marks i l pos refs) : ∀ ref ∈ refs, ref.line = i := by
  induction h with
  | nil => exact List.forall_mem_nil _
  | cons hline _ _ _ _ ih => exact List.forall_mem_cons.mpr ⟨hline, ih⟩

theorem Marks.refers (h : Marks i l pos refs) : ∀ ref ∈ refs, Refers l ref.id.toNat := by
  induction h with
  | nil => exact List.forall_mem_nil _
  | cons _ _ _ href _ ih =>
    exact List.forall_mem_cons.mpr ⟨⟨_, _, _, (List.take_append_drop _ l).symm, href⟩, ih⟩

theorem Marks.nil_of_nil (h : Marks i l pos refs) (hl : l = []) : refs = [] := by
  cases h with
  | nil => rfl
  | cons _ _ _ href =>
    obtain ⟨ds, hds, -⟩ := href
    rw [hl, List.drop_nil] at hds
    cases hds

theorem Marks.mono (h : Marks i l pos' refs) (hle : pos ≤ pos') : Marks i l pos refs := by
  cases h with
  | nil hpos => exact .nil (hle.trans hpos)
  | cons hline hbeg hend href h => exact .cons hline (hle.trans hbeg) hend href h

/-- Characters before the first reference are printed as they are. -/
theorem Marks.printed_skip (h : Marks i l (pos + pre.length) refs) (hpos : l.drop pos = pre ++ rest) :
    printed names l pos refs = pre ++ printed names l (pos + pre.length) refs := by
  cases h with
  | nil => rw [printed, printed, drop_after hpos, hpos]
  | @cons _ ref _ _ hbeg =>
    obtain ⟨k, hk⟩ := Nat.exists_eq_add_of_le hbeg
    rw [printed, printed, drop_after hpos, hpos, hk,
      show pos + pre.length + k - pos = pre.length + k by omega, Nat.add_sub_cancel_left,
      List.take_length_add_append, List.append_assoc]

/-- A brace that begins no reference, and its digits, are printed as they are. -/
theorem Marks.skipOpen {ds : Bytes} (hpos : l.drop pos = pre ++ 123 :: (ds ++ rest))
    (hpre : ∀ c ∈ pre, c ≠ 123) (hds : ∀ c ∈ ds, isNum c = true)
    (hnum : isNum (rest.headD 0) = false) (hend : ds = [] ∨ rest.headD 0 ≠ 125)
    (hpos' : pos' = pos + pre.length + 1 + ds.length) (h : Marks i l pos' refs)
    (hs : Substituted names rest (printed names l pos' refs)) :
    Marks i l pos refs ∧ Substituted names (l.drop pos) (printed names l pos refs) := by
  have hlen : pos' = pos + (pre ++ 123 :: ds).length := by
    rw [List.length_append, List.length_cons]
    omega
  have hsplit : l.drop pos = (pre ++ 123 :: ds) ++ rest := by
    rw [hpos, List.append_assoc, List.cons_append]
  subst hlen
  refine ⟨h.mono (Nat.le_add_right _ _), ?_⟩
  rw [h.printed_skip hsplit, hsplit, List.append_assoc, List.append_assoc]
  exact (hs.skipOpen hds hnum hend).skip hpre

/-- The scan of a line ends, reads nothing beyond the line, and finds its references. -/
theorem scanLine_marks (names : Nat → Bytes) (i : Nat) (hfit : ∀ n, Refers l n → n < 2 ^ 32)
    {rounds pos : Nat}
    (hpos : pos ≤ l.length) (hrounds : l.length - pos < rounds) :
    ∃ refs, scanLine i l rounds pos = .ok refs ∧ Marks i l pos refs ∧
      Substituted names (l.drop pos) (printed names l pos refs) := by
  induction rounds generalizing pos with
  | zero => cases hrounds
  | succ rounds ih =>
    unfold scanLine
    by_cases hend : l.length ≤ pos
    · refine ⟨[], by rw [if_pos hend]; rfl, .nil hpos, ?_⟩
      rw [printed, List.drop_of_length_le hend]
      exact .nil
    rw [if_neg hend]
    rcases hfind : find l 123 pos with _ | begPos
    · refine ⟨[], rfl, .nil hpos, ?_⟩
      rw [printed]
      simpa using Substituted.nil.skip (find_none hfind)
    obtain ⟨pre, s, hdrop, hpre, rfl⟩ := find_some hfind
    -- the digits after the brace, and what ends them
    obtain ⟨ds, rest, rfl, hds, hnum⟩ : ∃ ds rest, s = ds ++ rest ∧ (∀ c ∈ ds, isNum c = true) ∧
        isNum (rest.headD 0) = false := by
      refine ⟨s.takeWhile isNum, s.dropWhile isNum, List.takeWhile_append_dropWhile.symm,
        fun c hc => List.mem_takeWhile_imp hc, ?_⟩
      rcases hs : s.dropWhile isNum with _ | ⟨c, t⟩
      · rfl
      · have := List.head?_dropWhile_not isNum s
        rw [hs] at this
        simpa using this
    have hlen := congrArg List.length hdrop
    simp only [List.length_drop, List.length_append, List.length_cons] at hlen
    have hopen : l.drop (pos + pre.length + 1) = ds ++ rest := by
      rw [← List.drop_drop, drop_after hdrop]
      rfl
    have hafter := drop_after hopen
    dsimp only
    rw [charAt_drop hopen (by omega), ok_bind]
    by_cases hfirst : isNum ((ds ++ rest).headD 0) = true
    · rw [if_pos hfirst, readId_ok hopen (by omega) hds hnum (by omega), ok_bind]
      dsimp only
      rw [charAt_drop hafter (by omega), ok_bind]
      by_cases hclose : rest.headD 0 = 125
      · rw [if_pos hclose]
        obtain _ | ⟨c, rest⟩ := rest
        · cases hclose
        obtain rfl : c = 125 := hclose
        have hne : ds ≠ [] := by
          rintro rfl
          cases hfirst
        have hlast : l.drop (pos + pre.length + 1 + ds.length + 1) = rest := by
          rw [← List.drop_drop, hafter]
          rfl
        simp only [List.length_cons] at hlen
        obtain ⟨refs, hscan, hmarks, hs⟩ := @ih (pos + pre.length + 1 + ds.length + 1) (by omega) (by omega)
        rw [hscan]
        have href : IsRef (Stoll.value 10 ds) (123 :: (ds ++ 125 :: rest)) rest :=
          ⟨ds, rfl, hne, hds, rfl⟩
        have hsmall : Stoll.value 10 ds < 2 ^ 32 := by
          refine hfit _ ⟨l.take pos ++ pre, _, _, ?_, href⟩
          rw [List.append_assoc, ← hdrop, List.take_append_drop]
        have hid := foldl_toNat hds 0
        rw [show ds.foldl (fun n c => 10 * n + Stoll.digitVal c) (0 : VmSym).toNat =
          Stoll.value 10 ds from rfl, Nat.mod_eq_of_lt hsmall] at hid
        refine ⟨_, rfl, .cons rfl (Nat.le_add_right _ _) (by dsimp only; omega) ?_ hmarks, ?_⟩
        · rw [hid, drop_after hdrop, hlast]
          exact href
        · rw [printed, hdrop, Nat.add_sub_cancel_left, List.take_left, hid]
          rw [hlast] at hs
          exact (Substituted.ref href hs).skip hpre
      · rw [if_neg hclose]
        obtain ⟨refs, hscan, hmarks, hs⟩ := @ih (pos + pre.length + 1 + ds.length) (by omega) (by omega)
        rw [hafter] at hs
        exact ⟨refs, hscan, hmarks.skipOpen hdrop hpre hds hnum (.inr hclose) rfl hs⟩
    · rw [if_neg hfirst]
      have hnil : ds = [] := by
        by_contra hne
        obtain ⟨c, t, rfl⟩ := List.exists_cons_of_ne_nil hne
        exact hfirst (hds c (by simp))
      subst hnil
      obtain ⟨refs, hscan, hmarks, hs⟩ := @ih (pos + pre.length + 1) (by omega) (by omega)
      rw [hopen] at hs
      exact ⟨refs, hscan, hmarks.skipOpen hdrop hpre hds hnum (.inl rfl) rfl hs⟩

theorem substr_ok {n : Nat} (h : pos ≤ l.length) : substr l pos n = .ok ((l.drop pos).take n) :=
  if_pos h

theorem printRefs_others {others : List (Ref × SymbolInfos)}
    (h : ∀ p ∈ others.head?, p.1.line ≠ i) (off : Nat) :
    printRefs i l others off = .ok ([], off, others) := by
  obtain _ | ⟨⟨ref, sym⟩, others⟩ := others
  · rfl
  · rw [printRefs, if_neg (h (ref, sym) rfl)]
    rfl

/-- The loop prints the references of its line, and stops at the first of another. -/
theorem printRefs_marks {syms : List SymbolInfos} {others : List (Ref × SymbolInfos)}
    (h : Marks i l pos refs)
    (hsyms : syms.map SymbolInfos.name = refs.map fun ref => names ref.id.toNat)
    (hothers : ∀ p ∈ others.head?, p.1.line ≠ i) :
    ∃ text off, printRefs i l (refs.zip syms ++ others) pos = .ok (text, off, others) ∧
      off ≤ l.length ∧ text ++ l.drop off = printed names l pos refs := by
  induction h generalizing syms with
  | @nil pos hpos => exact ⟨[], pos, printRefs_others hothers pos, hpos, rfl⟩
  | @cons pos ref refs hline hbeg hend _ hmarks ih =>
    obtain _ | ⟨sym, syms⟩ := syms
    · cases hsyms
    obtain ⟨hname, hsyms⟩ := List.cons.inj hsyms
    obtain ⟨text, off, hrun, hoff, htext⟩ := ih hsyms
    have hpos : pos ≤ l.length := hbeg.trans (hend.trans hmarks.le_length)
    refine ⟨(l.drop pos).take (ref.begPos - pos) ++ sym.name ++ text, off, ?_, hoff, ?_⟩
    · rw [List.zip_cons_cons, List.cons_append, printRefs, if_pos hline, subSize, if_pos hbeg,
        substr_ok hpos, ok_bind, hrun]
      rfl
    · have hname : sym.name = names ref.id.toNat := hname
      rw [printed, ← htext, hname]
      simp only [List.append_assoc]

/-! ## All lines -/

/-- A line of code as it is shown, its text given. -/
def shownLine (actAddr addr : VmPtr) (text : Bytes) : Bytes :=
  (if addr = actAddr then lit "  ->  " else lit "      ") ++ lit "0x" ++ hex addr.toNat ++
    lit ":    " ++ text ++ lit "\n"

/-- The label of the address, if the next symbol is there, and the symbols after it. -/
def label (addr : VmPtr) (first : Bool) : List SymbolInfos → Bytes × List SymbolInfos
  | [] => ([], [])
  | sym :: symDefs =>
    if sym.addr = addr then
      ((if first then [] else lit "\n") ++ lit "     0x0" ++ hex addr.toNat ++ lit " <" ++ sym.name ++
        lit ">:\n", symDefs)
    else ([], sym :: symDefs)

/-- The listing of the lines with their texts at their addresses; `first` as long as none is shown.
An empty line is not shown, its label is. -/
def listing (actAddr : VmPtr) :
    List Bytes → List Bytes → List VmPtr → List SymbolInfos → Bool → Bytes
  | l :: rawCode, text :: texts, addr :: addrs, symDefs, first =>
    (label addr first symDefs).1 ++
      if l = [] then listing actAddr rawCode texts addrs (label addr first symDefs).2 first
      else shownLine actAddr addr text ++
        listing actAddr rawCode texts addrs (label addr first symDefs).2 false
  | _, _, _, _, _ => []

/-- What the scan finds in a line, and what is printed for it. -/
def Scanned (names : Nat → Bytes) (p : Bytes × Nat) (refs : List Ref) : Prop :=
  Marks p.2 p.1 0 refs ∧ Substituted names p.1 (printed names p.1 0 refs)

theorem scan_ok (names : Nat → Bytes) {rawCode : List Bytes}
    (hfit : ∀ l ∈ rawCode, ∀ n, Refers l n → n < 2 ^ 32) (k : Nat) :
    ∃ refss, (rawCode.zipIdx k).mapM (fun p => scanLine p.2 p.1 (p.1.length + 1) 0) = .ok refss ∧
      List.Forall₂ (Scanned names) (rawCode.zipIdx k) refss := by
  induction rawCode generalizing k with
  | nil => exact ⟨[], rfl, .nil⟩
  | cons l rawCode ih =>
    rw [List.forall_mem_cons] at hfit
    obtain ⟨refs, hscan, hmarks, hs⟩ := scanLine_marks names k hfit.1 (Nat.zero_le _)
      (show l.length - 0 < l.length + 1 by omega)
    obtain ⟨refss, hrun, hall⟩ := ih hfit.2 (k + 1)
    refine ⟨refs :: refss, ?_, .cons ⟨hmarks, hs⟩ hall⟩
    rw [List.zipIdx_cons, List.mapM_cons]
    simp only [hscan, hrun]
    rfl

theorem printDef_ok {addrs : List VmPtr} {addr : VmPtr} (h : addrs[i]? = some addr) (first : Bool)
    (symDefs : List SymbolInfos) :
    printDef addrs i first symDefs = .ok (label addr first symDefs) := by
  obtain _ | ⟨sym, symDefs⟩ := symDefs
  · rfl
  · rw [printDef, label, at', h, ok_bind]
    split <;> rfl

theorem printLines_ok (names : Nat → Bytes) (actAddr : VmPtr) {addrs : List VmPtr}
    {rawCode : List Bytes} {refss : List (List Ref)} {syms : List SymbolInfos}
    (hscan : List.Forall₂ (Scanned names) (rawCode.zipIdx i) refss)
    (haddrs : i + rawCode.length ≤ addrs.length)
    (hsyms : syms.map SymbolInfos.name = refss.flatten.map fun ref => names ref.id.toNat)
    (symDefs : List SymbolInfos) (first : Bool) :
    printLines actAddr addrs rawCode i (refss.flatten.zip syms) symDefs first =
      .ok (listing actAddr rawCode (List.zipWith (printed names · 0 ·) rawCode refss)
        (addrs.drop i) symDefs first) := by
  induction rawCode generalizing i refss syms symDefs first with
  | nil => rfl
  | cons l rawCode ih =>
    rw [List.zipIdx_cons] at hscan
    obtain _ | ⟨⟨hmarks, hs⟩, hscan⟩ := hscan
    rename_i refs refss
    rw [List.length_cons] at haddrs
    have hi : i < addrs.length := by omega
    have haddr : addrs[i]? = some addrs[i] := List.getElem?_eq_getElem hi
    -- the symbols of this line, and of the others
    obtain ⟨syms₁, syms₂, rfl, hsyms₁, hsyms₂⟩ := List.map_eq_append_iff.mp
      (hsyms.trans (by rw [List.flatten_cons, List.map_append]))
    have hlen : refs.length = syms₁.length := by simpa using (congrArg List.length hsyms₁).symm
    have hothers : ∀ p ∈ (refss.flatten.zip syms₂).head?, p.1.line ≠ i := by
      intro p hp
      have hmem := List.of_mem_zip (List.mem_of_mem_head? hp)
      obtain ⟨refs', hrefs', hp⟩ := List.mem_flatten.mp hmem.1
      obtain ⟨q, hq, hmarks', -⟩ := forall₂_mem_right hscan hrefs'
      have := List.le_snd_of_mem_zipIdx hq
      rw [hmarks'.line p.1 hp]
      omega
    obtain ⟨text, off, hrun, hoff, htext⟩ := printRefs_marks hmarks hsyms₁ hothers
    have ih := fun symDefs first => ih hscan (by omega) hsyms₂ symDefs first
    rw [List.flatten_cons, List.zip_append hlen, printLines, printDef_ok haddr, ok_bind,
      List.drop_eq_getElem_cons hi]
    dsimp only
    rw [List.zipWith_cons_cons, listing]
    split
    · next hnil =>
      obtain rfl := hmarks.nil_of_nil hnil
      obtain rfl : syms₁ = [] := List.map_eq_nil_iff.mp hsyms₁
      rw [List.zip_nil_left, List.nil_append, ih]
      rfl
    · next hne =>
      rw [at', haddr, ok_bind, hrun, ok_bind]
      dsimp only
      rw [← htext, shownLine]
      have hoff : off ≤ l.length := hoff
      by_cases hmore : off < l.length
      · rw [if_pos hmore, substr_ok hoff, ok_bind, ih, ok_bind,
          List.take_of_length_le (by rw [List.length_drop]; omega)]
        simp only [List.append_assoc]
        rfl
      · rw [if_neg hmore, ih, List.drop_of_length_le (Nat.le_of_not_lt hmore)]
        simp only [List.append_assoc]
        rfl

theorem texts_substituted {rawCode : List Bytes} {refss : List (List Ref)} {k : Nat}
    (h : List.Forall₂ (Scanned names) (rawCode.zipIdx k) refss) :
    List.Forall₂ (Substituted names) rawCode
      (List.zipWith (printed names · 0 ·) rawCode refss) := by
  induction rawCode generalizing refss k with
  | nil => exact .nil
  | cons l rawCode ih =>
    rw [List.zipIdx_cons] at h
    obtain _ | ⟨hscanned, h⟩ := h
    exact .cons hscanned.2 (ih h)

theorem length_codeAddrs (addr : VmPtr) (sizes : List VmSize) :
    (codeAddrs addr sizes).length = sizes.length := by
  induction sizes generalizing addr with
  | nil => rfl
  | cons size sizes ih => rw [codeAddrs, List.length_cons, List.length_cons, ih]

/-- Twice a number and one is not zero, wrapped around or not. -/
theorem odd_pos (n : VmSize) : 0 < (2 * n + 1).toNat := by
  rw [UInt64.toNat_add, UInt64.toNat_mul]
  show 0 < (2 * n.toNat % 2 ^ 64 + 1) % 2 ^ 64
  omega

/-- The command after what it asks for: the loop that prints. -/
theorem cmdCode_on {σ : Type} {impl : DBClientImpl σ} {w w₁ w₂ w₃ : World σ} {cmd : List Bytes}
    {n : VmSize} {rawCode : List Bytes} {codeSizes : List VmSize} {front back : VmPtr}
    {symDefs syms : List SymbolInfos} {refs : List Ref}
    (hstopped : w.client.state = .vmStopped) (hn : lineCount cmd = .ok n)
    (hcode : (getCodeText impl (startAddr w.client.udp.addr n) (2 * n + 1)).on w =
      (.ok (rawCode, codeSizes), w₁))
    (hfront : (codeAddrs (startAddr w.client.udp.addr n) codeSizes).head? = some front)
    (hback : (codeAddrs (startAddr w.client.udp.addr n) codeSizes).getLast? = some back)
    (hdefs : (getSymbolsByAddr impl front (back - front + 1)).on w₁ = (.ok symDefs, w₂))
    (hscan : scan rawCode = .ok refs)
    (hsyms : (getSymbolsByIds impl (refs.map Ref.id) (List.replicate refs.length Serial.blank)).on
      w₂ = (.ok syms, w₃)) :
    (cmdCode impl cmd).on w = (printLines w.client.udp.addr
      (codeAddrs (startAddr w.client.udp.addr n) codeSizes) rawCode 0 (refs.zip syms) symDefs true,
      w₃) := by
  unfold cmdCode getExecutionPoint
  rw [on_bind_ok (getter_on hstopped), hn, lift_ok, pure_bind, on_bind_ok hcode]
  dsimp only
  rw [hfront, item, lift_ok, pure_bind, hback, item, lift_ok, pure_bind, on_bind_ok hdefs, hscan,
    lift_ok, pure_bind, on_bind_ok hsyms]
  rfl

/-- The command lists as many lines as it asks for, each with its references replaced by the names of
the symbols, whatever else is in it. -/
theorem cmdCode_prints {σ : Type} {impl : DBClientImpl σ} {w w₁ w₂ : World σ} {cmd : List Bytes}
    {n : VmSize} {rawCode : List Bytes} {codeSizes : List VmSize} {symDefs : List SymbolInfos}
    (hstopped : w.client.state = .vmStopped) (hn : lineCount cmd = .ok n)
    (hcode : (getCodeText impl (startAddr w.client.udp.addr n) (2 * n + 1)).on w =
      (.ok (rawCode, codeSizes), w₁))
    (hlines : rawCode.length = (2 * n + 1).toNat) (hsizes : codeSizes.length = (2 * n + 1).toNat)
    (hdefs : ∀ front ∈ (codeAddrs (startAddr w.client.udp.addr n) codeSizes).head?,
      ∀ back ∈ (codeAddrs (startAddr w.client.udp.addr n) codeSizes).getLast?,
      (getSymbolsByAddr impl front (back - front + 1)).on w₁ = (.ok symDefs, w₂))
    (names : Nat → Bytes)
    (hnames : ∀ ids : List VmSym, (∀ id ∈ ids, ∃ l ∈ rawCode, Refers l id.toNat) → ∃ infos w₃,
      (getSymbolsByIds impl ids (List.replicate ids.length Serial.blank)).on w₂ = (.ok infos, w₃) ∧
      infos.map SymbolInfos.name = ids.map fun id => names id.toNat)
    (hfit : ∀ l ∈ rawCode, ∀ m, Refers l m → m < 2 ^ 32) :
    ∃ texts w', List.Forall₂ (Substituted names) rawCode texts ∧ (cmdCode impl cmd).on w =
      (.ok (listing w.client.udp.addr rawCode texts
        (codeAddrs (startAddr w.client.udp.addr n) codeSizes) symDefs true), w') := by
  obtain ⟨refss, hscan, hall⟩ := scan_ok names hfit 0
  set addrs := codeAddrs (startAddr w.client.udp.addr n) codeSizes with haddrs
  have hlen : addrs.length = rawCode.length := by
    rw [haddrs, length_codeAddrs, hsizes, hlines]
  have hpos : addrs ≠ [] := by
    rw [← List.length_pos_iff, hlen, hlines]
    exact odd_pos n
  have hfront : addrs.head? = some (addrs.head hpos) := List.head?_eq_some_head hpos
  have hback : addrs.getLast? = some (addrs.getLast hpos) := List.getLast?_eq_some_getLast hpos
  obtain ⟨infos, w₃, hinfos, hmap⟩ := hnames (refss.flatten.map Ref.id) (by
    rw [List.forall_mem_map]
    intro ref href
    obtain ⟨refs, hrefs, href⟩ := List.mem_flatten.mp href
    obtain ⟨p, hp, hmarks, -⟩ := forall₂_mem_right hall hrefs
    exact ⟨p.1, List.fst_mem_of_mem_zipIdx hp, hmarks.refers ref href⟩)
  have hprint := @printLines_ok 0 names w.client.udp.addr addrs rawCode refss infos hall (by omega)
    (by rw [hmap, List.map_map]; rfl) symDefs true
  refine ⟨_, w₃, texts_substituted hall, ?_⟩
  rw [List.length_map] at hinfos
  have hscan : scan rawCode = .ok refss.flatten := congrArg (List.flatten <$> ·) hscan
  rw [cmdCode_on hstopped hn hcode hfront hback (hdefs _ hfront _ hback) hscan hinfos]
  exact congrArg (·, w₃) hprint

/-! ### Three lines, two of them with references -/

/-- A line has no number with more digits than the line has characters. -/
theorem Refers.lt (h : Refers s m) : m < 10 ^ s.length := by
  obtain ⟨pre, t, rest, rfl, ds, rfl, -, hds, rfl⟩ := h
  have hval := @Stoll.value_lt 10 ds fun c hc => isNum_digit (hds c hc)
  refine hval.trans_le (Nat.pow_le_pow_right (by decide) ?_)
  simp only [List.length_append, List.length_cons]
  omega

/-- The code. -/
def threeLines : List Bytes := [lit "{1}x{22}", lit "add", lit "{22},{7}"]

/-- The names of the symbols. -/
def threeNames (n : Nat) : Bytes := if n = 22 then lit "loop" else lit "f"

/-- A symbol at the second line. -/
def threeDefs : List SymbolInfos := [⟨1, lit "f", 1⟩]

/-- A client implementation with this code, each instruction of one byte, and these symbols. -/
def threeImpl : DBClientImpl Unit
  | _, .getCodeText _ _ => return (threeLines, [1, 1, 1])
  | _, .getSymbolsByAddr _ _ => return threeDefs
  | _, .getSymbolsByIds ids _ => return ids.map fun id => ⟨id, threeNames id.toNat, 0⟩
  | _, _ => throw .stdException

/-- A client that is connected to it. -/
def threeClient : World Unit := ⟨{ new Serial.blank with state := .vmStopped }, ()⟩

theorem threeLines_short {l : Bytes} (hl : l ∈ threeLines) {m : Nat} (h : Refers l m) : m < 2 ^ 32 := by
  have hlen : ∀ l ∈ threeLines, l.length ≤ 9 := by decide
  have hlt := h.lt.trans_le (Nat.pow_le_pow_right (by decide) (hlen l hl))
  omega

/-- The names stand in the place of the references of both lines. -/
theorem cmdCode_prints_three :
    ∃ texts w', List.Forall₂ (Substituted threeNames) threeLines texts ∧
      (cmdCode threeImpl [lit "code", lit "1"]).on threeClient =
        (.ok (listing 0 threeLines texts (codeAddrs 0 [1, 1, 1]) threeDefs true), w') :=
  @cmdCode_prints Unit threeImpl threeClient threeClient threeClient [lit "code", lit "1"] 1
    threeLines [1, 1, 1] threeDefs rfl (rfl) rfl rfl rfl (fun _ _ _ _ => rfl) threeNames
    (fun ids _ => ⟨ids.map fun id => ⟨id, threeNames id.toNat, 0⟩, threeClient, rfl, List.map_map ..⟩)
    fun _ hl _ => threeLines_short hl

end SimpleCLIClient

end Odb
