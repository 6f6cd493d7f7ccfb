import Odb.Mess.Listing

/-!
# The labels of the command `code` (`mess/simple-cli-client.cc`)

The command prints the symbols of the listed range in their order, and only goes on to the next symbol
where it has printed one.

* `labelled`: the listing with the label of every symbol that is where an instruction is.
* `listing_eq_labelled_iff`: whether that is what the command prints.
* `cmdCode_labelled_iff`: so for every run of the command that returns.
-/

namespace Odb

namespace SimpleCLIClient

open Prog DBClient

/-- The label of a symbol. -/
def header (addr : VmPtr) (first : Bool) (sym : SymbolInfos) : Bytes :=
  (if first then [] else lit "\n") ++ lit "     0x0" ++ hex addr.toNat ++ lit " <" ++ sym.name ++
    lit ">:\n"

/-- The listing with a label before the instruction of every symbol that has one, once. -/
def labelled (actAddr : VmPtr) :
    List Bytes → List Bytes → List VmPtr → List SymbolInfos → Bool → Bytes
  | l :: rawCode, text :: texts, addr :: addrs, symDefs, first =>
    ((symDefs.find? (·.addr = addr)).map (header addr first)).getD [] ++
      if l = [] then
        labelled actAddr rawCode texts addrs (symDefs.filter (·.addr ≠ addr)) first
      else shownLine actAddr addr text ++
        labelled actAddr rawCode texts addrs (symDefs.filter (·.addr ≠ addr)) false
  | _, _, _, _, _ => []

/-- Before an instruction that has a symbol, there are the instructions of all the symbols that come
before it. -/
def InOrder (addrs : List VmPtr) (symDefs : List SymbolInfos) : Prop :=
  ∀ s₁ s₂, [s₁, s₂].Sublist symDefs → ∀ i : Nat, addrs[i]? = some s₂.addr →
    ∃ j < i, addrs[j]? = some s₁.addr

/-! ## Numbers in hexadecimal -/

theorem hex_lt : ∀ n < 16, Stoll.value 16 (hex n) = n ∧ ∀ c ∈ hex n, c ≠ 32 := by decide +kernel

/-- The digits tell the number, and none is a blank. -/
theorem hex_spec (n : Nat) : Stoll.value 16 (hex n) = n ∧ ∀ c ∈ hex n, c ≠ 32 := by
  induction n using Nat.strongRecOn with
  | _ n ih =>
    by_cases h : n < 16
    · exact hex_lt n h
    obtain ⟨hhigh, hhigh'⟩ := ih (n / 16) (by omega)
    obtain ⟨hlow, hlow'⟩ := hex_lt (n % 16) (Nat.mod_lt n (by decide))
    have hsplit : hex n = hex (n / 16) ++ hex (n % 16) := by
      unfold hex
      rw [← List.map_append, Nat.toDigits_of_base_le (by decide) (by omega),
        Nat.toDigits_of_lt_base (Nat.mod_lt n (by decide))]
    rw [hsplit]
    refine ⟨?_, List.forall_mem_append.mpr ⟨hhigh', hlow'⟩⟩
    obtain ⟨c, hc⟩ : ∃ c, hex (n % 16) = [c] := by
      unfold hex
      rw [Nat.toDigits_of_lt_base (Nat.mod_lt n (by decide))]
      exact ⟨_, rfl⟩
    have hvalue : Stoll.value 16 (hex (n / 16) ++ hex (n % 16)) =
        16 * Stoll.value 16 (hex (n / 16)) + Stoll.value 16 (hex (n % 16)) := by
      rw [hc]
      unfold Stoll.value
      rw [List.foldl_append, List.foldl_cons, List.foldl_nil, List.foldl_cons, List.foldl_nil,
        Nat.mul_zero, Nat.zero_add]
    rw [hvalue, hhigh, hlow]
    exact Nat.div_add_mod n 16

theorem hex_inj {a b : Nat} {x y : Bytes} (h : hex a ++ 32 :: x = hex b ++ 32 :: y) : a = b := by
  have htake (n : Nat) (x : Bytes) : (hex n ++ 32 :: x).takeWhile (· ≠ 32) = hex n := by
    rw [List.takeWhile_append_of_pos (by simpa using (hex_spec n).2),
      List.takeWhile_cons_of_neg (by decide), List.append_nil]
  have := congrArg (List.takeWhile (· ≠ 32)) h
  rw [htake, htake] at this
  rw [← (hex_spec a).1, this, (hex_spec b).1]

variable {actAddr addr addr' : VmPtr} {first : Bool} {sym sym' : SymbolInfos} {x y text : Bytes}

/-- Labels of different addresses differ. -/
theorem header_inj (h : header addr first sym ++ x = header addr' first sym' ++ y) :
    addr = addr' := by
  unfold header at h
  simp only [List.append_assoc] at h
  have h := List.append_cancel_left (List.append_cancel_left h)
  have hblank : lit " <" = [32, 60] := rfl
  rw [hblank] at h
  exact UInt64.toNat_inj.mp (hex_inj h)

/-- A label is no line of code. -/
theorem shownLine_ne_header : shownLine actAddr addr text ++ x ≠ header addr' first sym ++ y := by
  intro h
  have harrow : lit "  ->  " = [32, 32, 45, 62, 32, 32] := rfl
  have hblanks : lit "      " = [32, 32, 32, 32, 32, 32] := rfl
  have hlabel : lit "     0x0" = [32, 32, 32, 32, 32, 48, 120, 48] := rfl
  have hline : lit "\n" = [10] := rfl
  unfold shownLine header at h
  rw [harrow, hblanks, hlabel, hline] at h
  have h := congrArg (List.take 6) h
  split at h <;> cases first <;> simp at h

theorem header_ne_nil : header addr first sym ++ y ≠ [] := by
  have hlabel : lit "     0x0" ≠ [] := by decide
  simp [header, hlabel]

/-! ## The first label that is missing -/

variable {rawCode texts : List Bytes} {addrs : List VmPtr} {symDefs : List SymbolInfos}

theorem label_cons : label addr first (sym :: symDefs) =
    if sym.addr = addr then (header addr first sym, symDefs) else ([], sym :: symDefs) := rfl

theorem label_of_ne (h : ∀ s ∈ symDefs.head?, s.addr ≠ addr) :
    label addr first symDefs = ([], symDefs) := by
  obtain _ | ⟨s, symDefs⟩ := symDefs
  · rfl
  · rw [label_cons, if_neg (h s rfl)]

/-- A listing begins with no label but that of the next symbol. -/
theorem listing_ne_header (hne : ∀ s ∈ symDefs.head?, s.addr ≠ addr') :
    listing actAddr rawCode texts addrs symDefs first ≠ header addr' first sym ++ y := by
  induction rawCode generalizing texts addrs with
  | nil => exact header_ne_nil.symm
  | cons l rawCode ih =>
    obtain _ | ⟨text, texts⟩ := texts
    · exact header_ne_nil.symm
    obtain _ | ⟨addr, addrs⟩ := addrs
    · exact header_ne_nil.symm
    rw [listing]
    by_cases hlabel : ∀ s ∈ symDefs.head?, s.addr ≠ addr
    · rw [label_of_ne hlabel, List.nil_append]
      split
      · exact ih
      · exact shownLine_ne_header
    · push Not at hlabel
      obtain ⟨s, hs, rfl⟩ := hlabel
      obtain ⟨symDefs', rfl⟩ := List.head?_eq_some_iff.mp hs
      rw [label_cons, if_pos rfl]
      intro h
      exact hne s rfl (header_inj h)

/-! ## The order of the symbols -/

theorem inOrder_nil : InOrder [] symDefs := by
  intro s₁ s₂ _ i hi
  cases hi

theorem inOrder_cons_iff (h : ∀ s ∈ symDefs, s.addr ≠ addr) :
    InOrder (addr :: addrs) symDefs ↔ InOrder addrs symDefs := by
  refine forall_congr' fun s₁ => forall_congr' fun s₂ => forall_congr' fun hsub => ?_
  have hs₁ : addr ≠ s₁.addr := (h s₁ (hsub.subset (by simp))).symm
  have hs₂ : addr ≠ s₂.addr := (h s₂ (hsub.subset (by simp))).symm
  constructor
  · intro hall i hi
    obtain ⟨j, hj, haddr⟩ := hall (i + 1) hi
    obtain _ | j := j
    · exact absurd (Option.some.inj haddr) hs₁
    · exact ⟨j, by omega, haddr⟩
  · intro hall i hi
    obtain _ | i := i
    · exact absurd (Option.some.inj hi) hs₂
    · obtain ⟨j, hj, haddr⟩ := hall i hi
      exact ⟨j + 1, by omega, haddr⟩

/-- The first symbol is at the first instruction. -/
theorem inOrder_cons_cons_iff (hsym : sym.addr = addr) (h : ∀ s ∈ symDefs, s.addr ≠ addr) :
    InOrder (addr :: addrs) (sym :: symDefs) ↔ InOrder addrs symDefs := by
  rw [← inOrder_cons_iff h]
  constructor
  · intro hall s₁ s₂ hsub
    exact hall s₁ s₂ (hsub.cons sym)
  · intro hall s₁ s₂ hsub i hi
    rcases List.sublist_cons_iff.mp hsub with hsub | ⟨t, ht, hsub⟩
    · exact hall s₁ s₂ hsub i hi
    · obtain ⟨rfl, rfl⟩ := List.cons.inj ht
      have hs₂ : addr ≠ s₂.addr := (h s₂ (hsub.subset (by simp))).symm
      obtain _ | i := i
      · exact absurd (Option.some.inj hi) hs₂
      · exact ⟨0, by omega, congrArg some hsym.symm⟩

/-- Another symbol is at the first instruction. -/
theorem not_inOrder_cons (hs : ∃ s ∈ symDefs, s.addr = addr) :
    ¬ InOrder (addr :: addrs) (sym :: symDefs) := by
  obtain ⟨s, hs, rfl⟩ := hs
  intro h
  obtain ⟨j, hj, -⟩ := h sym s ((List.singleton_sublist.mpr hs).cons_cons sym) 0 rfl
  exact Nat.not_lt_zero j hj

theorem find?_of_ne (h : ∀ s ∈ symDefs, s.addr ≠ addr) :
    symDefs.find? (·.addr = addr) = none ∧ symDefs.filter (·.addr ≠ addr) = symDefs := by
  refine ⟨?_, ?_⟩
  · rw [List.find?_eq_none]
    simpa using h
  · rw [List.filter_eq_self]
    simpa using h

/-- The command prints all labels if and only if no symbol without an instruction comes before one
that has one. -/
theorem listing_eq_labelled_iff (htexts : texts.length = rawCode.length)
    (haddrs : addrs.length = rawCode.length) (hdistinct : (symDefs.map SymbolInfos.addr).Nodup) :
    listing actAddr rawCode texts addrs symDefs first =
      labelled actAddr rawCode texts addrs symDefs first ↔ InOrder addrs symDefs := by
  induction rawCode generalizing texts addrs symDefs first with
  | nil =>
    obtain rfl := List.eq_nil_of_length_eq_zero haddrs
    exact iff_of_true rfl inOrder_nil
  | cons l rawCode ih =>
    obtain _ | ⟨text, texts⟩ := texts
    · cases htexts
    obtain _ | ⟨addr, addrs⟩ := addrs
    · cases haddrs
    have ih (symDefs : List SymbolInfos) (first : Bool)
        (hdistinct : (symDefs.map SymbolInfos.addr).Nodup) :
        listing actAddr rawCode texts addrs symDefs first =
          labelled actAddr rawCode texts addrs symDefs first ↔ InOrder addrs symDefs :=
      ih (Nat.succ.inj htexts) (Nat.succ.inj haddrs) hdistinct
    rw [listing, labelled]
    -- where the label is the same on both sides, the rest decides
    have hrest (lbl : Bytes) (symDefs' : List SymbolInfos)
        (hdistinct : (symDefs'.map SymbolInfos.addr).Nodup) :
        lbl ++ (if l = [] then listing actAddr rawCode texts addrs symDefs' first
          else shownLine actAddr addr text ++ listing actAddr rawCode texts addrs symDefs' false) =
        lbl ++ (if l = [] then labelled actAddr rawCode texts addrs symDefs' first
          else shownLine actAddr addr text ++ labelled actAddr rawCode texts addrs symDefs' false) ↔
        InOrder addrs symDefs' := by
      rw [List.append_cancel_left_eq]
      split
      · exact ih symDefs' first hdistinct
      · rw [List.append_cancel_left_eq]
        exact ih symDefs' false hdistinct
    by_cases hnone : ∀ s ∈ symDefs, s.addr ≠ addr
    · obtain ⟨hfind, hfilter⟩ := find?_of_ne hnone
      rw [label_of_ne fun s hs => hnone s (List.mem_of_mem_head? hs), hfind, hfilter,
        inOrder_cons_iff hnone]
      exact hrest [] symDefs hdistinct
    obtain _ | ⟨sym, symDefs⟩ := symDefs
    · exact absurd (List.forall_mem_nil _) hnone
    rw [List.map_cons, List.nodup_cons] at hdistinct
    by_cases hsym : sym.addr = addr
    · have hothers : ∀ s ∈ symDefs, s.addr ≠ addr := by
        intro s hs heq
        exact hdistinct.1 (List.mem_map.mpr ⟨s, hs, heq.trans hsym.symm⟩)
      rw [label_cons, if_pos hsym, List.find?_cons_of_pos (by simpa using hsym),
        List.filter_cons_of_neg (by simpa using hsym), (find?_of_ne hothers).2,
        inOrder_cons_cons_iff hsym hothers]
      exact hrest _ symDefs hdistinct.2
    · obtain ⟨s, hs, hsaddr⟩ : ∃ s ∈ symDefs, s.addr = addr := by
        push Not at hnone
        obtain ⟨s, hs, hsaddr⟩ := hnone
        rcases List.mem_cons.mp hs with rfl | hs
        · exact absurd hsaddr hsym
        · exact ⟨s, hs, hsaddr⟩
      refine iff_of_false (fun h => ?_) (not_inOrder_cons ⟨s, hs, hsaddr⟩)
      obtain ⟨s', hs'⟩ : ∃ s', (sym :: symDefs).find? (·.addr = addr) = some s' := by
        rw [← Option.isSome_iff_exists, List.find?_isSome]
        exact ⟨s, List.mem_cons_of_mem sym hs, by simpa using hsaddr⟩
      rw [hs'] at h
      have h : listing actAddr (l :: rawCode) (text :: texts) (addr :: addrs) (sym :: symDefs) first =
        header addr first s' ++ _ := h
      refine listing_ne_header (fun t ht => ?_) h
      obtain rfl : sym = t := Option.some.inj ht
      exact hsym

/-! ## The command -/

/-- What the command prints is a listing, with some text for each line. -/
theorem printLines_listing {addrs : List VmPtr} {i : Nat} {refs : List (Ref × SymbolInfos)}
    {out : Bytes}
    (h : printLines actAddr addrs rawCode i refs symDefs first = .ok out)
    (haddrs : i + rawCode.length ≤ addrs.length) :
    ∃ texts, texts.length = rawCode.length ∧
      out = listing actAddr rawCode texts (addrs.drop i) symDefs first := by
  induction rawCode generalizing i refs symDefs first out with
  | nil => exact ⟨[], rfl, (Except.ok.inj h).symm⟩
  | cons l rawCode ih =>
    rw [List.length_cons] at haddrs
    have hi : i < addrs.length := by omega
    have haddr : addrs[i]? = some addrs[i] := List.getElem?_eq_getElem hi
    rw [printLines, printDef_ok haddr, ok_bind] at h
    dsimp only at h
    rw [List.drop_eq_getElem_cons hi]
    by_cases hnil : l = []
    · rw [if_pos hnil] at h
      rcases hrest : printLines actAddr addrs rawCode (i + 1) refs (label addrs[i] first symDefs).2
        first with e | rest <;> rw [hrest] at h
      · cases h
      obtain ⟨texts, hlen, rfl⟩ := ih hrest (by omega)
      refine ⟨[] :: texts, congrArg Nat.succ hlen, ?_⟩
      rw [listing, if_pos hnil]
      exact (Except.ok.inj h).symm
    · rw [if_neg hnil, at', haddr, ok_bind] at h
      rcases hrefs : printRefs i l refs 0 with e | ⟨text, off, refs'⟩ <;> rw [hrefs] at h
      · cases h
      rw [ok_bind] at h
      dsimp only at h
      obtain ⟨rem, rest, hrest, rfl⟩ : ∃ rem rest,
          printLines actAddr addrs rawCode (i + 1) refs' (label addrs[i] first symDefs).2 false =
            .ok rest ∧
          out = (label addrs[i] first symDefs).1 ++
            (if addrs[i] = actAddr then lit "  ->  " else lit "      ") ++ lit "0x" ++
            hex addrs[i].toNat ++ lit ":    " ++ text ++ rem ++ lit "\n" ++ rest := by
        rcases hsub : substr l off l.length with e | rem <;>
          rcases hrest : printLines actAddr addrs rawCode (i + 1) refs'
            (label addrs[i] first symDefs).2 false with e' | rest <;>
          rw [hsub, hrest] at h <;> split at h <;> cases h
        · exact ⟨[], rest, rfl, rfl⟩
        · exact ⟨rem, rest, rfl, rfl⟩
        · exact ⟨[], rest, rfl, rfl⟩
      obtain ⟨texts, hlen, rfl⟩ := ih hrest (by omega)
      refine ⟨(text ++ rem) :: texts, congrArg Nat.succ hlen, ?_⟩
      rw [listing, if_neg hnil]
      unfold shownLine
      simp only [List.append_assoc]

section Command

variable {σ : Type} {impl : DBClientImpl σ} {w w₁ w₂ w' : World σ} {cmd : List Bytes} {n : VmSize}
  {codeSizes : List VmSize} {out : Bytes}

/-- The output of a run of the command that returns. -/
theorem cmdCode_listing (hstopped : w.client.state = .vmStopped) (hn : lineCount cmd = .ok n)
    (hcode : (getCodeText impl (startAddr w.client.udp.addr n) (2 * n + 1)).on w =
      (.ok (rawCode, codeSizes), w₁))
    (hlines : codeSizes.length = rawCode.length)
    (hdefs : ∀ front ∈ (codeAddrs (startAddr w.client.udp.addr n) codeSizes).head?,
      ∀ back ∈ (codeAddrs (startAddr w.client.udp.addr n) codeSizes).getLast?,
      (getSymbolsByAddr impl front (back - front + 1)).on w₁ = (.ok symDefs, w₂))
    (hrun : (cmdCode impl cmd).on w = (.ok out, w')) :
    ∃ texts, texts.length = rawCode.length ∧ out = listing w.client.udp.addr rawCode texts
      (codeAddrs (startAddr w.client.udp.addr n) codeSizes) symDefs true := by
  set addrs := codeAddrs (startAddr w.client.udp.addr n) codeSizes with haddrs
  have hlen : addrs.length = rawCode.length := by rw [haddrs, length_codeAddrs, hlines]
  have hrun' := hrun
  unfold cmdCode getExecutionPoint at hrun'
  rw [on_bind_ok (getter_on hstopped), hn, lift_ok, pure_bind, on_bind_ok hcode] at hrun'
  dsimp only at hrun'
  rw [← haddrs] at hrun'
  rcases hfront : addrs.head? with _ | front <;> rw [hfront] at hrun'
  · cases hrun'
  rw [item, lift_ok, pure_bind] at hrun'
  rcases hback : addrs.getLast? with _ | back <;> rw [hback] at hrun'
  · cases hrun'
  rw [item, lift_ok, pure_bind, on_bind_ok (hdefs front hfront back hback)] at hrun'
  rcases hscan : scan rawCode with e | refs <;> rw [hscan] at hrun'
  · cases hrun'
  rw [lift_ok, pure_bind] at hrun'
  obtain ⟨syms, w₃, hsyms, -⟩ := bind_eq_ok.mp hrun'
  rw [cmdCode_on hstopped hn hcode hfront hback (hdefs front hfront back hback) hscan hsyms] at hrun
  exact printLines_listing (congrArg Prod.fst hrun) (by rw [Nat.zero_add]; exact hlen.ge)

/-- Every run of the command that returns prints all labels, each once and before its instruction, if
and only if no symbol without an instruction comes before one that has one. -/
theorem cmdCode_labelled_iff (hstopped : w.client.state = .vmStopped) (hn : lineCount cmd = .ok n)
    (hcode : (getCodeText impl (startAddr w.client.udp.addr n) (2 * n + 1)).on w =
      (.ok (rawCode, codeSizes), w₁))
    (hlines : codeSizes.length = rawCode.length)
    (hdefs : ∀ front ∈ (codeAddrs (startAddr w.client.udp.addr n) codeSizes).head?,
      ∀ back ∈ (codeAddrs (startAddr w.client.udp.addr n) codeSizes).getLast?,
      (getSymbolsByAddr impl front (back - front + 1)).on w₁ = (.ok symDefs, w₂))
    (hdistinct : (symDefs.map SymbolInfos.addr).Nodup)
    (hrun : (cmdCode impl cmd).on w = (.ok out, w')) :
    ∃ texts, texts.length = rawCode.length ∧
      out = listing w.client.udp.addr rawCode texts
        (codeAddrs (startAddr w.client.udp.addr n) codeSizes) symDefs true ∧
      (out = labelled w.client.udp.addr rawCode texts
          (codeAddrs (startAddr w.client.udp.addr n) codeSizes) symDefs true ↔
        InOrder (codeAddrs (startAddr w.client.udp.addr n) codeSizes) symDefs) := by
  obtain ⟨texts, hlen, rfl⟩ := cmdCode_listing hstopped hn hcode hlines hdefs hrun
  have haddrs := length_codeAddrs (startAddr w.client.udp.addr n) codeSizes
  exact ⟨texts, hlen, rfl, listing_eq_labelled_iff hlen (haddrs.trans hlines) hdistinct⟩

end Command

/-! ### A symbol in the middle of an instruction -/

/-- Three instructions, the first of two bytes. -/
def gapCode : List Bytes := [lit "a", lit "b", lit "c"]

/-- A symbol at the second byte, and one at the next instruction. -/
def gapDefs : List SymbolInfos := [⟨0, lit "mid", 1⟩, ⟨1, lit "f", 2⟩]

/-- A client implementation with this code and these symbols. -/
def gap : DBClientImpl Unit
  | _, .getCodeText _ _ => return (gapCode, [2, 1, 1])
  | _, .getSymbolsByAddr _ _ => return gapDefs
  | _, .getSymbolsByIds _ _ => return []
  | _, _ => throw .stdException

theorem gap_lineCount : lineCount [lit "code", lit "1"] = .ok 1 := rfl

theorem gap_prints : (cmdCode gap [lit "code", lit "1"]).on threeClient =
    (.ok (listing 0 gapCode gapCode [0, 2, 3] gapDefs true), threeClient) := by
  have hscan : scan gapCode = .ok [] := rfl
  have hprint : printLines 0 [0, 2, 3] gapCode 0 [] gapDefs true =
      .ok (listing 0 gapCode gapCode [0, 2, 3] gapDefs true) := rfl
  rw [@cmdCode_on Unit gap threeClient threeClient threeClient threeClient
    [lit "code", lit "1"] 1 gapCode [2, 1, 1] 0 3 gapDefs [] [] rfl gap_lineCount rfl rfl rfl rfl
    hscan rfl]
  exact congrArg (·, threeClient) hprint

/-- For this code and these symbols. -/
theorem cmdCode_labelled_iff_gap :
    ∃ texts, texts.length = gapCode.length ∧
      listing 0 gapCode gapCode [0, 2, 3] gapDefs true =
        listing 0 gapCode texts [0, 2, 3] gapDefs true ∧
      (listing 0 gapCode gapCode [0, 2, 3] gapDefs true =
          labelled 0 gapCode texts [0, 2, 3] gapDefs true ↔ InOrder [0, 2, 3] gapDefs) :=
  @cmdCode_labelled_iff gapCode gapDefs Unit gap threeClient threeClient threeClient
    threeClient [lit "code", lit "1"] 1 [2, 1, 1] _ rfl gap_lineCount rfl rfl
    (fun _ _ _ _ => rfl) (by decide) gap_prints

/-- The label of `f` is missing. -/
theorem gap_label :
    (gapDefs.map SymbolInfos.addr).Pairwise (· < ·) ∧
    (cmdCode gap [lit "code", lit "1"]).on threeClient =
      (.ok (listing 0 gapCode gapCode [0, 2, 3] gapDefs true), threeClient) ∧
    listing 0 gapCode gapCode [0, 2, 3] gapDefs true ≠
      labelled 0 gapCode gapCode [0, 2, 3] gapDefs true := by
  refine ⟨by decide, gap_prints, fun h => ?_⟩
  rw [listing_eq_labelled_iff rfl rfl (by decide)] at h
  obtain ⟨j, hj, hmid⟩ := h ⟨0, lit "mid", 1⟩ ⟨1, lit "f", 2⟩ (.refl _) 1 rfl
  obtain rfl : j = 0 := by omega
  cases hmid

end SimpleCLIClient

end Odb
