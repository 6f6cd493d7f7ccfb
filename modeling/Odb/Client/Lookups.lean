import Odb.Client.RegCalls
import Odb.Mess.SimpleCLIClient

/-!
# The registers and the values of a command

A command names registers and symbols in any mix, and the client asks for what the names stand for.

* `RegVariant.Is`, `ValueVariant.Is`: the register and the number that an argument stands for.
* `SymDict`, `VMApi.HasSyms`: a VM that answers requests for symbols.
* `resolveRegs_serves`, `resolveVals_serves`: every argument gets its own answer.
-/

namespace Odb

open Prog

/-- The argument is the id of the register, or its own name, which no other register of the VM
has. -/
def RegVariant.Is (T : RegTable) (id : VmReg) : RegVariant → Prop
  | .regId id' => id' = id
  | .regName name => T.Owned (fun _ => True) name.1 ∧ T.find name.1 = some id

/-- The symbols of a VM, and the names it finds them under. -/
structure SymDict where
  info : VmSym → Option SymbolInfos
  find : Bytes → Option VmSym

/-- The symbol has the address `n`, which is one of a `long long`. -/
def SymDict.At (S : SymDict) (id : VmSym) (n : Int) : Prop :=
  ∃ y, S.info id = some y ∧ y.addr.toNat < 2 ^ 63 ∧ n = y.addr.toNat

/-- The argument is the number, or a symbol at this address. -/
def ValueVariant.Is {Double : Type} (S : SymDict) (n : Int) : ValueVariant Double → Prop
  | .ival n' => n' = n
  | .dval _ => False
  | .symId id => S.At id n
  | .symName name => ∃ id, S.find name.1 = some id ∧ S.At id n

/-- A VM in a state in `P` answers requests for symbols by `S`, and stays in `P`. -/
structure VMApi.HasSyms {V : Type} (api : VMApi V) (S : SymDict) (P : V → Prop) : Prop where
  infos : ∀ {id y vm}, P vm → S.info id = some y →
    ∃ vm', api.getSymbInfos id vm = (.ok y, vm') ∧ P vm'
  found : ∀ {name id vm}, P vm → S.find name = some id →
    ∃ vm', api.findSymId name vm = (.ok id, vm') ∧ P vm'

namespace Debugger

variable {V : Type} {api : VMApi V} {T : RegTable} {S : SymDict} {P : V → Prop} {L : VmReg → Prop}

/-- The symbols that the debugger has loaded are those of the VM. -/
def SymsOf (S : SymDict) (db : Debugger V) : Prop :=
  ∀ (id : VmSym) y, db.mapSyms[id]? = some y → S.info id = some y

/-- The debugger has loaded answers of the VM. -/
def Loads (T : RegTable) (S : SymDict) (P : V → Prop) (L : VmReg → Prop) (db : Debugger V) : Prop :=
  db.RegsOf T P L ∧ db.SymsOf S

variable (hvm : api.HasSyms S P)
include hvm

theorem loadSymbol_loads {id : VmSym} {y : SymbolInfos} (hy : S.info id = some y) :
    Spec (Loads T S P L) (loadSymbol api id)
      (fun _ db => Loads T S P L db ∧ db.mapSyms[id]? = some y) fun _ _ => False := by
  rintro db ⟨hregs, hsyms⟩
  unfold loadSymbol
  rw [on_bind_ok (on_get db)]
  by_cases hid : id ∈ db.mapSyms
  · rw [if_pos hid]
    obtain ⟨y', hy'⟩ := Option.isSome_iff_exists.mp (Std.TreeMap.mem_iff_isSome_getElem?.mp hid)
    obtain rfl := Option.some.inj (hy.symm.trans (hsyms id y' hy'))
    exact ⟨⟨hregs, hsyms⟩, hy'⟩
  · obtain ⟨vm', hcall, hvm'⟩ := hvm.infos hregs.vm hy
    rw [if_neg hid, on_bind_ok (callVM_eq_ok.mpr ⟨vm', hcall, rfl⟩)]
    refine ⟨⟨⟨hvm', hregs.regs, hregs.names⟩, fun id' y' hy' => ?_⟩, ?_⟩
    · rcases (SymCache.getElem?_emplace _ _ _ _ _).mp hy' with ⟨rfl, -, rfl⟩ | hy'
      · exact hy
      · exact hsyms id' y' hy'
    · exact (SymCache.getElem?_emplace _ _ _ _ _).mpr
        (.inl ⟨rfl, Std.TreeMap.getElem?_eq_none hid, rfl⟩)

theorem getSymbolInfos_loads {id : VmSym} {y : SymbolInfos} (hy : S.info id = some y) :
    Spec (Loads T S P L) (getSymbolInfos api id)
      (fun y' db => Loads T S P L db ∧ y' = y) fun _ _ => False := by
  refine .bind (loadSymbol_loads hvm hy) fun _ => ?_
  rintro db ⟨hdb, hid⟩
  rw [on_bind_ok (on_get db), hid]
  exact ⟨hdb, rfl⟩

theorem findSymId_loads {name : Bytes} {id : VmSym} {y : SymbolInfos} (hid : S.find name = some id)
    (hy : S.info id = some y) :
    Spec (Loads T S P L) (findSymId api name)
      (fun id' db => Loads T S P L db ∧ id' = id) fun _ _ => False := by
  rintro db ⟨hregs, hsyms⟩
  obtain ⟨vm', hcall, hvm'⟩ := hvm.found hregs.vm hid
  unfold findSymId
  rw [on_bind_ok (callVM_eq_ok.mpr ⟨vm', hcall, rfl⟩)]
  refine Spec.bind (loadSymbol_loads hvm hy) (fun _ => .ret fun db hdb => ⟨hdb.1, rfl⟩)
    { db with vm := vm' } ⟨hregs.with_vm hvm', hsyms⟩

end Debugger

namespace SimpleCLIClient

open DBClient

/-! ## Symbols -/

section Symbols

variable {V : Type} {api : VMApi V} {T : RegTable} {S : SymDict} {P : V → Prop}
  {R : VmReg → Bytes → Prop}

/-- The client may be asked about registers and symbols. -/
def Serves (T : RegTable) (S : SymDict) (P : V → Prop) (R : VmReg → Bytes → Prop)
    (w : World (Debugger V)) : Prop :=
  Ready T P (fun _ => True) R w ∧ w.impl.SymsOf S

theorem forward_serves {α : Type} {k : ImplCall α} {Q : α → Prop}
    (h : Spec (Debugger.Loads T S P fun _ => True) (VMSide.impl api k)
      (fun a db => db.Loads T S P (fun _ => True) ∧ Q a) fun _ _ => False) :
    Spec (Serves T S P R) (forward (VMSide.impl api) k) (fun a w => Serves T S P R w ∧ Q a)
      fun _ _ => False := by
  rintro w ⟨hready, hsyms⟩
  have := h w.impl ⟨hready.server, hsyms⟩
  rcases hrun : (VMSide.impl api k).on w.impl with ⟨e | a, db⟩ <;> rw [hrun] at this
  · exact this.elim
  · obtain ⟨⟨hregs, hsyms⟩, hQ⟩ := this
    rw [forward_on hready.stopped hrun]
    exact ⟨⟨⟨hready.stopped, hregs, hready.cache⟩, hsyms⟩, hQ⟩

variable (hvm : api.HasSyms S P)
include hvm

theorem getSymbolsByIds_serves {ids : List VmSym} (hids : ∀ id ∈ ids, ∃ n, S.At id n) :
    Spec (Serves T S P R)
      (getSymbolsByIds (VMSide.impl api) ids (List.replicate ids.length Serial.blank))
      (fun infos w => Serves T S P R w ∧ List.Forall₂ (fun id y => S.info id = some y) ids infos)
      fun _ _ => False := by
  refine forward_serves ?_
  show Spec _ (VMSide.getSymbolsByIds api ids _) _ _
  unfold VMSide.getSymbolsByIds
  rw [VMSide.fill_eq (List.length_replicate ..)]
  refine Spec.mapM ids fun id hid => ?_
  obtain ⟨n, y, hy, -⟩ := hids id hid
  refine (Debugger.getSymbolInfos_loads hvm hy).conseq (fun _ h => h) ?_ fun _ _ h => h
  rintro y' db ⟨hdb, rfl⟩
  exact ⟨hdb, hy⟩

theorem getSymbolsByNames_serves {names : List CStr}
    (hnames : ∀ name ∈ names, ∃ id n, S.find name.1 = some id ∧ S.At id n) :
    Spec (Serves T S P R)
      (getSymbolsByNames (VMSide.impl api) names (List.replicate names.length Serial.blank))
      (fun infos w => Serves T S P R w ∧
        List.Forall₂ (fun name y => ∃ id, S.find name.1 = some id ∧ S.info id = some y) names infos)
      fun _ _ => False := by
  refine forward_serves ?_
  show Spec _ (VMSide.getSymbolsByNames api names _) _ _
  unfold VMSide.getSymbolsByNames
  rw [VMSide.fill_eq (List.length_replicate ..)]
  refine Spec.mapM names fun name hname => ?_
  obtain ⟨id, n, hid, y, hy, -⟩ := hnames name hname
  refine .bind (Debugger.findSymId_loads hvm hid hy) fun id' => ?_
  rintro db ⟨hdb, rfl⟩
  refine Spec.conseq (Debugger.getSymbolInfos_loads hvm hy) (fun _ h => h) ?_ (fun _ _ h => h) db
    hdb
  rintro y' db ⟨hdb, rfl⟩
  exact ⟨hdb, id', hid, hy⟩

end Symbols

/-! ## Values -/

section Values

variable {F : Floats} {K : Type} {pick : ValueVariant F.Double → Option K}

/-- The values that `pick` picks are replaced by their numbers. -/
def replaced (pick : ValueVariant F.Double → Option K) (vv : List (ValueVariant F.Double))
    (ns : List Int) : List (ValueVariant F.Double) :=
  List.zipWith (fun v n => if (pick v).isSome then .ival n else v) vv ns

theorem replaced_of_none {vv : List (ValueVariant F.Double)} {ns : List Int}
    (hlen : vv.length = ns.length) (h : vv.filterMap pick = []) : replaced pick vv ns = vv := by
  induction vv generalizing ns with
  | nil => rfl
  | cons v vv ih =>
    obtain _ | ⟨n, ns⟩ := ns
    · cases hlen
    rcases hk : pick v with _ | k
    · rw [List.filterMap_cons_none hk] at h
      rw [replaced, List.zipWith_cons_cons, hk]
      exact congrArg (v :: ·) (ih (Nat.succ.inj hlen) h)
    · rw [List.filterMap_cons_some hk] at h
      cases h

theorem toInt_addr {addr : VmPtr} (h : addr.toNat < 2 ^ 63) : addr.toInt64.toInt = addr.toNat := by
  have h : 2 * addr.toBitVec.toNat < 2 ^ 64 := by
    rw [UInt64.toNat_toBitVec]
    omega
  exact BitVec.toInt_eq_toNat_of_lt h

/-- Every picked value gets its own symbol. -/
theorem fillAddrs_ok {key : K → SymbolInfos → Prop} {vv : List (ValueVariant F.Double)}
    {ns : List Int} {syms : List SymbolInfos}
    (hvv : List.Forall₂ (fun v (n : Int) => ∀ k, pick v = some k → ∀ y, key k y →
      y.addr.toNat < 2 ^ 63 ∧ n = y.addr.toNat) vv ns)
    (hsyms : List.Forall₂ key (vv.filterMap pick) syms) :
    fillAddrs pick vv syms = .ok (replaced pick vv ns) := by
  induction hvv generalizing syms with
  | nil => rfl
  | @cons v n vv ns hv _ ih =>
    unfold fillAddrs replaced
    rcases hk : pick v with _ | k
    · rw [List.filterMap_cons_none hk] at hsyms
      simp only [ih hsyms, List.zipWith_cons_cons, hk]
      rfl
    · rw [List.filterMap_cons_some hk] at hsyms
      obtain _ | ⟨hkey, hsyms⟩ := hsyms
      rename_i y syms
      obtain ⟨hsmall, rfl⟩ := hv k hk y hkey
      simp only [ih hsyms, List.zipWith_cons_cons, hk, toInt_addr hsmall]
      rfl

variable {V : Type} {api : VMApi V} {T : RegTable} {S : SymDict} {P : V → Prop}
  {R : VmReg → Bytes → Prop} {vv : List (ValueVariant F.Double)} {ns : List Int}

theorem resolveSyms_serves (key : K → SymbolInfos → Prop)
    {getSymbols : List K → List SymbolInfos → ClientM (Debugger V) (List SymbolInfos)}
    (hvv : List.Forall₂ (fun v (n : Int) => ∀ k, pick v = some k → ∀ y, key k y →
      y.addr.toNat < 2 ^ 63 ∧ n = y.addr.toNat) vv ns)
    (hget : Spec (Serves T S P R)
      (getSymbols (vv.filterMap pick) (List.replicate (vv.filterMap pick).length Serial.blank))
      (fun syms w => Serves T S P R w ∧ List.Forall₂ key (vv.filterMap pick) syms)
      fun _ _ => False) :
    Spec (Serves T S P R) (resolveSyms pick getSymbols vv)
      (fun vv' w => Serves T S P R w ∧ vv' = replaced pick vv ns) fun _ _ => False := by
  unfold resolveSyms
  by_cases hnil : vv.filterMap pick = []
  · rw [if_pos hnil]
    exact .ret fun w hw => ⟨hw, (replaced_of_none hvv.length_eq hnil).symm⟩
  · simp only [if_neg hnil]
    refine .bind hget fun syms => ?_
    rintro w ⟨hw, hsyms⟩
    rw [fillAddrs_ok hvv hsyms]
    exact ⟨hw, rfl⟩

/-- A symbol that is picked has the number of its value. -/
theorem SymDict.At.addr {id : VmSym} {n : Int} {y : SymbolInfos} (h : S.At id n)
    (hy : S.info id = some y) : y.addr.toNat < 2 ^ 63 ∧ n = y.addr.toNat := by
  obtain ⟨y', hy', hsmall, rfl⟩ := h
  obtain rfl := Option.some.inj (hy.symm.trans hy')
  exact ⟨hsmall, rfl⟩

theorem replaced_is (hvv : List.Forall₂ (fun v n => v.Is S n) vv ns) :
    List.Forall₂ (fun v n => ValueVariant.Is S n v) (replaced pick vv ns) ns := by
  induction hvv with
  | nil => exact .nil
  | @cons v n vv ns hv _ ih =>
    refine .cons ?_ ih
    dsimp only
    split
    · exact rfl
    · exact hv

/-- No symbol is left after both halves. -/
theorem replaced_both (hvv : List.Forall₂ (fun v n => v.Is S n) vv ns) :
    replaced (fun | .symName name => some name | _ => none)
      (replaced (fun | .symId id => some id | _ => none) vv ns) ns =
        ns.map (ValueVariant.ival : Int → ValueVariant F.Double) := by
  induction hvv with
  | nil => rfl
  | @cons v n vv ns hv _ ih =>
    refine List.cons_eq_cons.mpr ⟨?_, ih⟩
    rcases v with n' | d | name | id
    · obtain rfl : n' = n := hv
      rfl
    · exact hv.elim
    · rfl
    · rfl

/-- Values of all kinds in any mix: each becomes its own number. -/
theorem resolveVals_serves (hvm : api.HasSyms S P)
    (hvv : List.Forall₂ (fun v n => v.Is S n) vv ns) :
    Spec (Serves T S P R) (resolveVals (VMSide.impl api) vv)
      (fun vv' w => Serves T S P R w ∧ vv' = ns.map .ival) fun _ _ => False := by
  unfold resolveVals
  refine .bind (resolveSyms_serves (fun id y => S.info id = some y)
    (hvv.imp ?_) (getSymbolsByIds_serves hvm ?_)) fun vv₁ => ?_
  · rintro (_ | _ | _ | id) n hv k hk y hy <;> cases hk
    exact SymDict.At.addr hv hy
  · intro id hid
    obtain ⟨v, hv, hpick⟩ := List.mem_filterMap.mp hid
    obtain ⟨n, -, his⟩ := forall₂_mem_left hvv hv
    rcases v with _ | _ | _ | id' <;> cases hpick
    exact ⟨n, his⟩
  rintro w ⟨hw, rfl⟩
  have hvv' : List.Forall₂ (fun v n => v.Is S n)
      (replaced (fun | .symId id => some id | _ => none) vv ns) ns := replaced_is hvv
  refine Spec.conseq (resolveSyms_serves
    (fun (name : CStr) y => ∃ id, S.find name.1 = some id ∧ S.info id = some y)
    (hvv'.imp ?_) (getSymbolsByNames_serves hvm ?_)) (fun _ h => h) ?_ (fun _ _ h => h) w hw
  · rintro (_ | _ | name | _) n hv k hk y hy <;> cases hk
    obtain ⟨id, hid, hat⟩ := hv
    obtain ⟨id', hid', hy⟩ := hy
    obtain rfl := Option.some.inj (hid.symm.trans hid')
    exact SymDict.At.addr hat hy
  · intro name hname
    obtain ⟨v, hv, hpick⟩ := List.mem_filterMap.mp hname
    obtain ⟨n, -, his⟩ := forall₂_mem_left hvv' hv
    rcases v with _ | _ | name' | _ <;> cases hpick
    obtain ⟨id, hid, hat⟩ := his
    exact ⟨id, n, hid, hat⟩
  · rintro vv₂ w' ⟨hw', rfl⟩
    exact ⟨hw', replaced_both hvv⟩

end Values

/-! ## Registers -/

section Registers

variable {V : Type} {api : VMApi V}

/-- The symbols that the debugger has loaded. -/
abbrev symCache (w : World (Debugger V)) : SymCache := w.impl.toSymCache

theorem keeps_assertState (state : DBClientState) :
    Keeps symCache (assertState state : ClientM (Debugger V) Unit) :=
  .bind .get fun _ => .lift _

theorem keeps_call {α : Type} {k : ImplCall α}
    (h : Keeps Debugger.toSymCache (VMSide.impl api k)) :
    Keeps symCache (call (VMSide.impl api) k) :=
  .zoom h fun _ _ => rfl

theorem keeps_fill {α β : Type} (xs : List α) (out : List β) {f : α → DbM V β}
    (hf : ∀ x, Keeps Debugger.toSymCache (f x)) :
    Keeps Debugger.toSymCache (VMSide.fill xs out f) :=
  .bind (.lift _) fun _ => .bind (.mapM xs hf) fun _ => .ret _

theorem keeps_fetchRegInfosById (ids : List VmReg) :
    Keeps symCache (fetchRegInfosById (VMSide.impl api) ids) := by
  refine .bind .get fun w => .ite (.ret _) (.bind (keeps_call ?_) fun infos => .modify fun _ => rfl)
  exact keeps_fill _ _ fun id => Debugger.keeps_getRegInfos api Debugger.ignoresRegs_symCache id

theorem keeps_findRegsIds (names : List CStr) (outIds : List VmReg) :
    Keeps symCache (findRegsIds (VMSide.impl api) names outIds) := by
  refine .bind (keeps_assertState _) fun _ => .bind ?_ fun _ => .bind (.lift _) fun _ =>
    .bind (.mapM _ fun name => ?_) fun _ => .ret _
  · refine .bind .get fun w => .ite (.ret _) (.bind (keeps_call ?_) fun ids =>
      keeps_fetchRegInfosById ids)
    exact keeps_fill _ _ fun name =>
      Debugger.keeps_findRegId api Debugger.ignoresRegs_symCache name.1
  · refine .bind (.bind .get fun w => ?_) fun _ => .ret _
    dsimp only
    split
    · exact .fail _
    · split
      · exact .ret _
      · exact .fail _

variable {T : RegTable} {S : SymDict} {P : V → Prop} {R : VmReg → Bytes → Prop}
  {regs : List RegVariant} {ids : List VmReg}

/-- The names of registers among the arguments. -/
abbrev regNames (regs : List RegVariant) : List CStr :=
  regs.filterMap fun | .regName name => some name | .regId _ => none

theorem resolveRegs_eq {σ : Type} (impl : DBClientImpl σ) (regs : List RegVariant) :
    resolveRegs impl regs = if regNames regs = [] then Prog.lift (fillIds regs [])
      else findRegsIds impl (regNames regs) (List.replicate (regNames regs).length 0) >>=
        fun ids => Prog.lift (fillIds regs ids) := rfl

/-- Every name gets its own id. -/
theorem fillIds_ok {items : List VmReg} (hregs : List.Forall₂ (fun r id => r.Is T id) regs ids)
    (hitems : List.Forall₂ (fun (name : CStr) id => T.find name.1 = some id) (regNames regs)
      items) :
    fillIds regs items = .ok ids := by
  induction hregs generalizing items with
  | nil => rfl
  | @cons r id regs ids hr _ ih =>
    rcases r with id' | name
    · obtain rfl : id' = id := hr
      rw [fillIds, ih hitems]
      rfl
    · obtain _ | ⟨hitem, hitems⟩ := hitems
      obtain rfl := Option.some.inj (hitem.symm.trans hr.2)
      rw [fillIds, ih hitems]
      rfl

/-- Registers by their ids and by their own names, in any mix. -/
theorem resolveRegs_serves (hvm : api.HasRegs T P R)
    (hregs : List.Forall₂ (fun r id => r.Is T id) regs ids)
    (hids : ∀ id ∈ ids, T.Has id ∧ T.Fits id) :
    Spec (Serves T S P R) (resolveRegs (VMSide.impl api) regs)
      (fun ids' w => Serves T S P R w ∧ ids' = ids) fun _ _ => False := by
  rintro w ⟨hready, hsyms⟩
  rw [resolveRegs_eq]
  by_cases hnil : regNames regs = []
  · rw [if_pos hnil, fillIds_ok hregs (by rw [hnil]; exact .nil)]
    exact ⟨⟨hready, hsyms⟩, rfl⟩
  -- every name is the own one of its register
  have hnames : ∀ name ∈ regNames regs, ∃ id ∈ ids, T.Owned (fun _ => True) name.1 ∧
      T.find name.1 = some id := by
    intro name hname
    obtain ⟨r, hr, hpick⟩ := List.mem_filterMap.mp hname
    obtain ⟨id, hid, his⟩ := forall₂_mem_left hregs hr
    rcases r with _ | name' <;> cases hpick
    exact ⟨id, hid, his⟩
  have hyields := findRegsIds_yields hvm hready
    (show (regNames regs).length ≤ (List.replicate (regNames regs).length 0).length from
      List.length_replicate.ge) (fun _ _ _ _ => trivial) w rfl
  have hkeeps := @keeps_findRegsIds V api (regNames regs)
    (List.replicate (regNames regs).length 0) w
  rw [if_neg hnil]
  rcases hrun : (findRegsIds (VMSide.impl api) (regNames regs)
    (List.replicate (regNames regs).length 0)).on w with ⟨e | items, w'⟩ <;>
    rw [hrun] at hyields hkeeps
  · refine ((hyields.2 fun name hname => ?_).1 fun name hname => ?_).elim
    · obtain ⟨id, hid, howned, hfind⟩ := hnames name hname
      refine ⟨howned, fun _ id' hfind' => ?_⟩
      obtain rfl := Option.some.inj (hfind.symm.trans hfind')
      exact (hids id hid).2
    · obtain ⟨id, hid, -, hfind⟩ := hnames name hname
      exact ⟨id, hfind, (hids id hid).1⟩
  · obtain ⟨hready', ⟨items', rfl, hitems⟩, -⟩ := hyields
    rw [on_bind_ok hrun, List.drop_of_length_le (List.length_replicate ..).le, List.append_nil,
      fillIds_ok hregs (forall₂_imp_mem hitems fun name id hname hid => ?_)]
    · refine ⟨⟨hready', ?_⟩, rfl⟩
      have hkeeps : w'.impl.toSymCache = w.impl.toSymCache := hkeeps
      rw [Debugger.SymsOf, hkeeps]
      exact hsyms
    · obtain ⟨-, -, howned, -⟩ := hnames name hname
      exact hid howned.knows

end Registers

end SimpleCLIClient

end Odb
