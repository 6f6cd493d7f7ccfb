import Odb.Mess.Listing
import Odb.Server.SafeCalls

/-!
# Where the program is in the code view

`code n` decodes `2 * n + 1` instructions one after the other, from `n` bytes before the execution
point on.

* `instrAddrs`: the addresses of instructions that follow each other.
* `arrows`: the lines of a listing that have the arrow.
* `cmdCode_shows`: what the command prints where the VM decodes and answers.
* `showsProgram_iff`: exactly one line has the arrow, and it is that of the execution point, if and
  only if the decoding meets the execution point exactly once.
-/

namespace Odb

/-- At `addr`, a VM in a state in `P` decodes `text addr`, of `size addr` bytes, and stays in `P`. -/
def VMApi.Decodes {V : Type} (api : VMApi V) (P : V → Prop) (text : VmPtr → Bytes)
    (size : VmPtr → VmSize) (addr : VmPtr) : Prop :=
  ∀ vm, P vm → ∃ vm', api.getCodeText addr vm = (.ok (text addr, size addr), vm') ∧ P vm'

/-- The addresses of `m` instructions that are decoded one after the other, from `addr` on. -/
def instrAddrs (size : VmPtr → VmSize) : Nat → VmPtr → List VmPtr
  | 0, _ => []
  | m + 1, addr => addr :: instrAddrs size m (addr + size addr)

/-- The name of a symbol that the debugger has loaded. -/
def Debugger.symName {V : Type} (db : Debugger V) (n : Nat) : Bytes :=
  ((db.mapSyms[n.toUInt32]?).map SymbolInfos.name).getD []

namespace SimpleCLIClient

open Prog DBClient

/-- The lines of a listing that have the arrow. -/
def arrows (actAddr : VmPtr) : List Bytes → List Bytes → List VmPtr → List Bytes
  | l :: rawCode, text :: texts, addr :: addrs =>
    if l ≠ [] ∧ addr = actAddr then
      shownLine actAddr addr text :: arrows actAddr rawCode texts addrs
    else arrows actAddr rawCode texts addrs
  | _, _, _ => []

variable {V : Type}

/-- The addresses that the command lists at an execution point. -/
def listedAddrs (size : VmPtr → VmSize) (actAddr n : VmPtr) : List VmPtr :=
  instrAddrs size (2 * n + 1).toNat (startAddr actAddr n)

/-- The calls of the debugger that a listing makes return: for the symbols of the part of memory that
is listed, and for those that the lines refer to. -/
def SymbolsAnswered (api : VMApi V) (text : VmPtr → Bytes) (addrs : List VmPtr) (db : Debugger V) :
    Prop :=
  ∃ front ∈ addrs.head?, ∃ back ∈ addrs.getLast?, ∃ symDefs db₁ refs syms db₂,
    (VMSide.getSymbolsByAddr api front (back - front + 1)).on db = (.ok symDefs, db₁) ∧
    scan (addrs.map text) = .ok refs ∧
    (VMSide.getSymbolsByIds api (refs.map Ref.id) (List.replicate refs.length Serial.blank)).on db₁ =
      (.ok syms, db₂)

/-- The command prints a listing of the instructions at `addrs` in which exactly one line has the
arrow: that of the execution point, with its instruction. -/
def ShowsProgram (api : VMApi V) (text : VmPtr → Bytes) (cmd : List Bytes) (addrs : List VmPtr)
    (w : World (Debugger V)) : Prop :=
  ∃ texts symDefs w', (cmdCode (VMSide.impl api) cmd).on w =
      (.ok (listing w.client.udp.addr (addrs.map text) texts addrs symDefs true), w') ∧
    List.Forall₂ (Substituted w'.impl.symName) (addrs.map text) texts ∧
    ∃ t, Substituted w'.impl.symName (text w.client.udp.addr) t ∧
      arrows w.client.udp.addr (addrs.map text) texts addrs =
        [shownLine w.client.udp.addr w.client.udp.addr t]

/-! ## The lines with the arrow -/

variable {text : VmPtr → Bytes} {size : VmPtr → VmSize} {actAddr start : VmPtr} {addrs : List VmPtr}
  {m : Nat}

/-- As often as the execution point is among the addresses, its line has the arrow. -/
theorem arrows_eq {names : Nat → Bytes} {texts : List Bytes} {t : Bytes} (htext : text actAddr ≠ [])
    (ht : Substituted names (text actAddr) t)
    (htexts : List.Forall₂ (Substituted names) (addrs.map text) texts) :
    arrows actAddr (addrs.map text) texts addrs =
      List.replicate (addrs.count actAddr) (shownLine actAddr actAddr t) := by
  induction addrs generalizing texts with
  | nil => rfl
  | cons addr addrs ih =>
    rw [List.map_cons] at htexts ⊢
    obtain _ | ⟨htext', htexts⟩ := htexts
    rw [arrows, ih htexts]
    by_cases haddr : addr = actAddr
    · subst haddr
      rw [if_pos ⟨htext, rfl⟩, List.count_cons_self, htext'.unique ht]
      rfl
    · rw [if_neg fun h => haddr h.2, List.count_cons_of_ne haddr]

theorem arrows_eq_singleton_iff {names : Nat → Bytes} {texts : List Bytes} (htext : text actAddr ≠ [])
    (htexts : List.Forall₂ (Substituted names) (addrs.map text) texts) :
    (∃ t, Substituted names (text actAddr) t ∧
      arrows actAddr (addrs.map text) texts addrs = [shownLine actAddr actAddr t]) ↔
      addrs.count actAddr = 1 := by
  constructor
  · rintro ⟨t, ht, harrows⟩
    have hlen := congrArg List.length ((arrows_eq htext ht htexts).symm.trans harrows)
    rwa [List.length_replicate] at hlen
  · intro hone
    have hmem : actAddr ∈ addrs := List.count_pos_iff.mp (by omega)
    obtain ⟨t, -, ht⟩ := forall₂_mem_left htexts (List.mem_map_of_mem hmem)
    exact ⟨t, ht, by rw [arrows_eq htext ht htexts, hone]; rfl⟩

/-! ## Decoding -/

theorem codeAddrs_instrAddrs (m : Nat) (start : VmPtr) :
    codeAddrs start ((instrAddrs size m start).map size) = instrAddrs size m start := by
  induction m generalizing start with
  | zero => rfl
  | succ m ih => rw [instrAddrs, List.map_cons, codeAddrs, ih]

variable {api : VMApi V} {P : V → Prop} {db db' : Debugger V}

theorem codeTexts_on (h : ∀ addr ∈ instrAddrs size m start, api.Decodes P text size addr)
    (hdb : P db.vm) : ∃ db', (VMSide.codeTexts api m start).on db =
      (.ok ((instrAddrs size m start).map fun addr => (text addr, size addr)), db') := by
  induction m generalizing start db with
  | zero => exact ⟨db, rfl⟩
  | succ m ih =>
    rw [instrAddrs, List.forall_mem_cons] at h
    obtain ⟨vm', hvm, hvm'⟩ := h.1 db.vm hdb
    obtain ⟨db', hrun⟩ := @ih (start + size start) { db with vm := vm' } h.2 hvm'
    refine ⟨db', ?_⟩
    unfold VMSide.codeTexts Debugger.getCodeText
    rw [on_bind_ok (Debugger.callVM_eq_ok.mpr ⟨vm', hvm, rfl⟩)]
    dsimp only
    rw [on_bind_ok hrun]
    rfl

/-- The lines are decoded if there can be as many. -/
theorem getCodeText_on {nins : VmSize}
    (h : ∀ addr ∈ instrAddrs size nins.toNat start, api.Decodes P text size addr)
    (hfit : nins.toNat ≤ maxBytes / Serial.sizeof Bytes) (hdb : P db.vm) :
    (VMSide.getCodeText api start nins).on db =
      (.ok ((instrAddrs size nins.toNat start).map text, (instrAddrs size nins.toNat start).map size),
        ((VMSide.codeTexts api nins.toNat start).on db).2) := by
  obtain ⟨db', hrun⟩ := codeTexts_on h hdb
  have hfit' : nins.toNat ≤ maxBytes / Serial.sizeof VmSize := le_trans hfit (by decide)
  unfold VMSide.getCodeText
  rw [resize, if_pos hfit, lift_ok, pure_bind, resize, if_pos hfit', lift_ok, pure_bind,
    on_bind_ok hrun, hrun, List.unzip_eq_map, List.map_map, List.map_map]
  rfl

theorem getCodeText_fit {nins : VmSize} {r : List Bytes × List VmSize}
    (h : (VMSide.getCodeText api start nins).on db = (.ok r, db')) :
    nins.toNat ≤ maxBytes / Serial.sizeof Bytes := by
  by_contra hfit
  unfold VMSide.getCodeText at h
  rw [resize, if_neg hfit] at h
  cases h

theorem item_ok {α : Type} {o : Option α} {x : α} (h : item o = .ok x) : x ∈ o := by
  cases o <;> cases h
  rfl

/-! ## The names of the symbols -/

/-- What was loaded stays, and so does what the request adds. -/
theorem getSymbolInfos_loaded {id : VmSym} {infos : SymbolInfos}
    (h : (Debugger.getSymbolInfos api id).on db = (.ok infos, db')) :
    db'.mapSyms[id]? = some infos ∧
      ∀ (id' : VmSym) infos', db.mapSyms[id']? = some infos' → db'.mapSyms[id']? = some infos' := by
  obtain ⟨_, db₁, hload, h⟩ := bind_eq_ok.mp h
  have hinfos : db₁ = db' ∧ db₁.mapSyms[id]? = some infos := by
    rw [on_bind_ok (on_get db₁)] at h
    rcases hid : db₁.mapSyms[id]? with _ | infos' <;> rw [hid] at h <;> cases h
    exact ⟨rfl, rfl⟩
  obtain ⟨rfl, hinfos⟩ := hinfos
  refine ⟨hinfos, fun id' infos' hid' => ?_⟩
  unfold Debugger.loadSymbol at hload
  rw [on_bind_ok (on_get db)] at hload
  split at hload
  · cases hload
    exact hid'
  · obtain ⟨infos₁, db₂, hcall, hload⟩ := bind_eq_ok.mp hload
    obtain ⟨vm', -, rfl⟩ := Debugger.callVM_eq_ok.mp hcall
    cases hload
    exact (SymCache.getElem?_emplace _ _ _ _ _).mpr (.inr hid')

theorem mapM_getSymbolInfos {ids : List VmSym} {syms : List SymbolInfos}
    (h : (ids.mapM (Debugger.getSymbolInfos api)).on db = (.ok syms, db')) :
    List.Forall₂ (fun (id : VmSym) infos => db'.mapSyms[id]? = some infos) ids syms ∧
      ∀ (id : VmSym) infos, db.mapSyms[id]? = some infos → db'.mapSyms[id]? = some infos := by
  induction ids generalizing db syms with
  | nil =>
    cases h
    exact ⟨.nil, fun _ _ h => h⟩
  | cons id ids ih =>
    rw [List.mapM_cons] at h
    obtain ⟨infos, db₁, hinfos, h⟩ := bind_eq_ok.mp h
    obtain ⟨syms, db₂, hsyms, h⟩ := bind_eq_ok.mp h
    cases h
    obtain ⟨hid, hmono⟩ := getSymbolInfos_loaded hinfos
    obtain ⟨hall, hmono'⟩ := ih hsyms
    exact ⟨.cons (hmono' id infos hid) hall, fun id' infos' h => hmono' _ _ (hmono _ _ h)⟩

/-- The symbols that the lines refer to have the names that the debugger then has for them. -/
theorem getSymbolsByIds_names {ids : List VmSym} {syms : List SymbolInfos}
    (h : (VMSide.getSymbolsByIds api ids (List.replicate ids.length Serial.blank)).on db =
      (.ok syms, db')) :
    syms.map SymbolInfos.name = ids.map fun id => db'.symName id.toNat := by
  unfold VMSide.getSymbolsByIds at h
  rw [VMSide.fill_eq (List.length_replicate ..)] at h
  have hall := (mapM_getSymbolInfos h).1
  clear h
  induction hall with
  | nil => rfl
  | @cons id infos ids syms hid _ ih =>
    have hname : db'.symName id.toNat = infos.name := by
      rw [Debugger.symName, show id.toNat.toUInt32 = id from UInt32.ofNat_toNat, hid]
      rfl
    rw [List.map_cons, List.map_cons, ih, hname]

/-! ## The command -/

variable {w w' : World (Debugger V)} {cmd : List Bytes} {n : VmSize} {out : Bytes}

/-- What the command prints where the VM decodes and answers. -/
theorem cmdCode_shows (hstopped : w.client.state = .vmStopped) (hn : lineCount cmd = .ok n)
    (hdecodes : ∀ addr ∈ listedAddrs size w.client.udp.addr n, api.Decodes P text size addr)
    (hvm : P w.impl.vm)
    (hids : ∀ addr ∈ listedAddrs size w.client.udp.addr n, ∀ k, Refers (text addr) k → k < 2 ^ 32)
    (hfit : (2 * n + 1).toNat ≤ maxBytes / Serial.sizeof Bytes)
    (hsyms : SymbolsAnswered api text (listedAddrs size w.client.udp.addr n)
      ((VMSide.codeTexts api (2 * n + 1).toNat (startAddr w.client.udp.addr n)).on w.impl).2) :
    ∃ texts symDefs w', (cmdCode (VMSide.impl api) cmd).on w =
        (.ok (listing w.client.udp.addr ((listedAddrs size w.client.udp.addr n).map text) texts
          (listedAddrs size w.client.udp.addr n) symDefs true), w') ∧
      List.Forall₂ (Substituted w'.impl.symName) ((listedAddrs size w.client.udp.addr n).map text)
        texts := by
  have hcode := getCodeText_on hdecodes hfit hvm
  have haddrs : codeAddrs (startAddr w.client.udp.addr n)
      ((listedAddrs size w.client.udp.addr n).map size) = listedAddrs size w.client.udp.addr n :=
    codeAddrs_instrAddrs _ _
  set addrs := listedAddrs size w.client.udp.addr n
  set db₀ := ((VMSide.codeTexts api (2 * n + 1).toNat (startAddr w.client.udp.addr n)).on w.impl).2
  have hcode : (getCodeText (VMSide.impl api) (startAddr w.client.udp.addr n) (2 * n + 1)).on w =
      (.ok (addrs.map text, addrs.map size), ⟨w.client, db₀⟩) := forward_on hstopped hcode
  obtain ⟨front, hfront, back, hback, symDefs, db₁, refs, syms, db₂, hdefs, hscan, hsyms⟩ := hsyms
  have hnames := @getSymbolsByIds_names V api db₁ db₂ (refs.map Ref.id) syms
    (by rw [List.length_map]; exact hsyms)
  have hdefs : (getSymbolsByAddr (VMSide.impl api) front (back - front + 1)).on ⟨w.client, db₀⟩ =
      (.ok symDefs, ⟨w.client, db₁⟩) := forward_on hstopped hdefs
  have hsyms : (getSymbolsByIds (VMSide.impl api) (refs.map Ref.id)
      (List.replicate refs.length Serial.blank)).on ⟨w.client, db₁⟩ = (.ok syms, ⟨w.client, db₂⟩) :=
    forward_on hstopped hsyms
  -- the scan finds the references of the lines, for the names that the debugger has in the end
  obtain ⟨refss, hscan', hall⟩ := scan_ok db₂.symName (List.forall_mem_map.mpr hids) 0
  obtain rfl : refss.flatten = refs :=
    Except.ok.inj ((congrArg (List.flatten <$> ·) hscan').symm.trans hscan)
  have hprint := @printLines_ok 0 db₂.symName w.client.udp.addr addrs (addrs.map text) refss syms hall
    (by rw [List.length_map, Nat.zero_add]) (by rw [hnames, List.map_map]; rfl) symDefs true
  refine ⟨_, symDefs, ⟨w.client, db₂⟩, ?_, texts_substituted hall⟩
  rw [cmdCode_on hstopped hn hcode (by rw [haddrs]; exact hfront) (by rw [haddrs]; exact hback)
    hdefs hscan hsyms, haddrs]
  exact congrArg (·, (⟨w.client, db₂⟩ : World (Debugger V))) hprint

/-- Where the command returns, there could be as many lines, and the VM answered. -/
theorem cmdCode_answered (hstopped : w.client.state = .vmStopped) (hn : lineCount cmd = .ok n)
    (hdecodes : ∀ addr ∈ listedAddrs size w.client.udp.addr n, api.Decodes P text size addr)
    (hvm : P w.impl.vm)
    (hrun : (cmdCode (VMSide.impl api) cmd).on w = (.ok out, w')) :
    (2 * n + 1).toNat ≤ maxBytes / Serial.sizeof Bytes ∧
      SymbolsAnswered api text (listedAddrs size w.client.udp.addr n)
        ((VMSide.codeTexts api (2 * n + 1).toNat (startAddr w.client.udp.addr n)).on w.impl).2 := by
  unfold cmdCode getExecutionPoint at hrun
  rw [on_bind_ok (getter_on hstopped), hn, lift_ok, pure_bind] at hrun
  obtain ⟨⟨rawCode, codeSizes⟩, w₁, hcode, hrun⟩ := bind_eq_ok.mp hrun
  obtain ⟨-, db₁, hdecoded, rfl⟩ := forward_ok.mp hcode
  have hdecoded : (VMSide.getCodeText api (startAddr w.client.udp.addr n) (2 * n + 1)).on w.impl =
    (.ok (rawCode, codeSizes), db₁) := hdecoded
  have hfit := getCodeText_fit hdecoded
  obtain ⟨hcodes, rfl⟩ := Prod.mk.inj (hdecoded.symm.trans (getCodeText_on hdecodes hfit hvm))
  obtain ⟨rfl, rfl⟩ := Prod.mk.inj (Except.ok.inj hcodes)
  dsimp only at hrun
  rw [codeAddrs_instrAddrs] at hrun
  refine ⟨hfit, ?_⟩
  obtain ⟨front, w₂, hfront, hrun⟩ := bind_eq_ok.mp hrun
  obtain ⟨hfront', rfl⟩ := lift_eq_ok.mp hfront
  obtain ⟨back, w₃, hback, hrun⟩ := bind_eq_ok.mp hrun
  obtain ⟨hback', rfl⟩ := lift_eq_ok.mp hback
  obtain ⟨symDefs, w₄, hdefs, hrun⟩ := bind_eq_ok.mp hrun
  obtain ⟨-, db₂, hdefs', rfl⟩ := forward_ok.mp hdefs
  obtain ⟨refs, w₅, hscan, hrun⟩ := bind_eq_ok.mp hrun
  obtain ⟨hscan', rfl⟩ := lift_eq_ok.mp hscan
  obtain ⟨syms, w₆, hsyms, -⟩ := bind_eq_ok.mp hrun
  obtain ⟨-, db₃, hsyms', rfl⟩ := forward_ok.mp hsyms
  exact ⟨front, item_ok hfront', back, item_ok hback', symDefs, db₂, refs, syms, db₃, hdefs', hscan',
    hsyms'⟩

/-- The listing shows where the program is if and only if there can be as many lines, the VM answers
the requests for their symbols, and the decoding meets the execution point exactly once. -/
theorem showsProgram_iff (hstopped : w.client.state = .vmStopped) (hn : lineCount cmd = .ok n)
    (hdecodes : ∀ addr ∈ listedAddrs size w.client.udp.addr n, api.Decodes P text size addr)
    (hvm : P w.impl.vm)
    (hids : ∀ addr ∈ listedAddrs size w.client.udp.addr n, ∀ k, Refers (text addr) k → k < 2 ^ 32)
    (htext : text w.client.udp.addr ≠ []) :
    ShowsProgram api text cmd (listedAddrs size w.client.udp.addr n) w ↔
      (2 * n + 1).toNat ≤ maxBytes / Serial.sizeof Bytes ∧
      SymbolsAnswered api text (listedAddrs size w.client.udp.addr n)
        ((VMSide.codeTexts api (2 * n + 1).toNat (startAddr w.client.udp.addr n)).on w.impl).2 ∧
      (listedAddrs size w.client.udp.addr n).count w.client.udp.addr = 1 := by
  constructor
  · rintro ⟨texts, symDefs, w', hrun, htexts, harrows⟩
    obtain ⟨hfit, hsyms⟩ := cmdCode_answered hstopped hn hdecodes hvm hrun
    exact ⟨hfit, hsyms, (arrows_eq_singleton_iff htext htexts).mp harrows⟩
  · rintro ⟨hfit, hsyms, hone⟩
    obtain ⟨texts, symDefs, w', hrun, htexts⟩ :=
      cmdCode_shows hstopped hn hdecodes hvm hids hfit hsyms
    exact ⟨texts, symDefs, w', hrun, htexts, (arrows_eq_singleton_iff htext htexts).mpr hone⟩

/-! ### Instructions of one and of two bytes -/

/-- A VM with the instruction `x`, of `len` bytes, at every address. -/
def uniform (len : VmSize) : VMApi UpdateInfos :=
  { Debugger.tableVM [] with getCodeText := fun _ vm => (.ok (lit "x", len), vm) }

theorem uniform_decodes (len : VmSize) (addr : VmPtr) :
    (uniform len).Decodes (fun _ => True) (fun _ => lit "x") (fun _ => len) addr :=
  fun vm _ => ⟨vm, rfl, trivial⟩

/-- A client that is connected to it, stopped at 4. -/
def uniformClient : World (Debugger UpdateInfos) :=
  ⟨{ new Serial.blank with state := .vmStopped, udp := ⟨.ready, true, 4, []⟩ },
    { Debugger.scriptedDb with state := .stopped }⟩

theorem not_refers_x {k : Nat} : ¬ Refers (lit "x") k := by
  rintro ⟨pre, t, rest, hs, ds, rfl, -⟩
  have hmem : (123 : UInt8) ∈ lit "x" := by
    rw [hs]
    simp
  revert hmem
  decide

theorem uniform_scan : scan [lit "x", lit "x", lit "x"] = .ok [] := rfl

theorem uniform_lineCount : lineCount [lit "code", lit "1"] = .ok 1 := rfl

/-- With instructions of one byte, the listing shows where the program is. -/
theorem showsProgram_iff_uniform :
    ShowsProgram (uniform 1) (fun _ => lit "x") [lit "code", lit "1"] [3, 4, 5] uniformClient ↔
      3 ≤ maxBytes / Serial.sizeof Bytes ∧
      SymbolsAnswered (uniform 1) (fun _ => lit "x") [3, 4, 5]
        ((VMSide.codeTexts (uniform 1) 3 3).on uniformClient.impl).2 ∧
      ([3, 4, 5] : List VmPtr).count 4 = 1 :=
  @showsProgram_iff UpdateInfos (fun _ => lit "x") (fun _ => 1) (uniform 1) (fun _ => True) uniformClient
    [lit "code", lit "1"] 1 rfl uniform_lineCount (fun addr _ => uniform_decodes 1 addr) trivial
    (fun _ _ _ h => absurd h not_refers_x) (List.cons_ne_nil _ _)

/-- With instructions of two bytes, at the even addresses, the listing starts in the middle of one and
no line has the arrow. -/
theorem uniform_no_arrow :
    (4 : VmPtr) ∈ instrAddrs (fun _ => 2) 3 0 ∧
    ∃ w', (cmdCode (VMSide.impl (uniform 2)) [lit "code", lit "1"]).on uniformClient =
      (.ok (lit "      0x3:    x\n      0x5:    x\n      0x7:    x\n"), w') := by
  have hprint : printLines 4 [3, 5, 7] [lit "x", lit "x", lit "x"] 0 [] [] true =
      .ok (lit "      0x3:    x\n      0x5:    x\n      0x7:    x\n") := rfl
  have hrun := @cmdCode_on _ (VMSide.impl (uniform 2)) uniformClient _ _ _ [lit "code", lit "1"] 1
    [lit "x", lit "x", lit "x"] [2, 2, 2] 3 7 [] [] [] rfl uniform_lineCount rfl rfl rfl rfl
    uniform_scan rfl
  exact ⟨by decide, _, hrun.trans (congrArg (·, _) hprint)⟩

end SimpleCLIClient

end Odb
