import Mathlib.Logic.Function.Basic
import Odb.Server.SafeCalls

/-!
# What the debugger answers about registers

The registers of a VM are two partial functions: what it says of an id, and the id it gives for a
name. The debugger caches both answers, a name under the register's own.

* `RegTable`, `VMApi.HasRegs`: a VM that answers by them, whatever it was asked before.
* `Debugger.RegsOf`: what the debugger has loaded are answers of the VM; `Run.ofTable`: in every run.
* `getRegInfos_queries`, `findRegId_yields`, `getReg_queries`: exactly when each call returns, and
  what.
-/

namespace Odb

open Prog

/-- What a VM says of a register, besides its id and its value. -/
structure RegDesc where
  name : Bytes
  size : VmSize
  kind : RegKind
deriving DecidableEq, Repr

def RegDesc.infos (d : RegDesc) (idx : VmReg) (val : Bytes) : RegInfos :=
  ⟨idx, d.name, d.size, d.kind, val⟩

def RegInfos.desc (infos : RegInfos) : RegDesc := ⟨infos.name, infos.size, infos.kind⟩

/-- The registers of a VM, and the names it finds them under. -/
structure RegTable where
  info : VmReg → Option RegDesc
  find : Bytes → Option VmReg

namespace RegTable

variable (T : RegTable)

/-- The VM has the register `id`. -/
def Has (id : VmReg) : Prop := (T.info id).isSome

/-- The VM finds a register of its own under `name`. -/
def Finds (name : Bytes) : Prop := ∃ id, T.find name = some id ∧ T.Has id

/-- These are the infos of the register `id`, with any value. -/
def IsInfos (id : VmReg) (infos : RegInfos) : Prop := infos.idx = id ∧ T.info id = some infos.desc

/-- The size of the register, 0 if the VM does not have it. -/
def size (id : VmReg) : VmSize := (T.info id).elim 0 RegDesc.size

/-- A vector can hold the value of the register. -/
def Fits (id : VmReg) : Prop := ∀ d, T.info id = some d → d.size.toNat ≤ maxBytes

/-- Of the registers in `L`, only the one that the VM finds under `name` has this name. -/
def Knows (L : VmReg → Prop) (name : Bytes) : Prop :=
  ∀ id d, L id → T.info id = some d → d.name = name → T.find name = some id

/-- `name` is the own name of the register that the VM finds under it, and of no other in `L`. -/
structure Owned (L : VmReg → Prop) (name : Bytes) : Prop where
  knows : T.Knows L name
  own : ∀ id d, T.find name = some id → T.info id = some d → d.name = name

variable {T}

theorem size_eq {id : VmReg} {d : RegDesc} (h : T.info id = some d) : T.size id = d.size := by
  rw [size, h]
  rfl

theorem IsInfos.has {id : VmReg} {infos : RegInfos} (h : T.IsInfos id infos) : T.Has id := by
  rw [Has, h.2]
  rfl

end RegTable

/-- A VM in a state in `P` answers by `T`, with values in `R`, and stays in `P`:

* `getReg` with `valOnly` updates only the value, without it all the rest;
* the value has the size of the register. -/
structure VMApi.HasRegs {V : Type} (api : VMApi V) (T : RegTable) (P : V → Prop)
    (R : VmReg → Bytes → Prop) : Prop where
  known : ∀ {id d vm} infos, P vm → T.info id = some d →
    ∃ vm', api.getReg id infos false vm = (.ok (d.infos id infos.val), vm') ∧ P vm'
  unknown : ∀ {id vm} infos, P vm → T.info id = none →
    ∃ msg vm', api.getReg id infos false vm = (.error msg, vm') ∧ P vm'
  value : ∀ {id d vm} old, P vm → T.info id = some d → old.length = d.size.toNat →
    ∃ val vm', api.getReg id (d.infos id old) true vm = (.ok (d.infos id val), vm') ∧
      val.length = d.size.toNat ∧ R id val ∧ P vm'
  found : ∀ {name id vm}, P vm → T.find name = some id →
    ∃ vm', api.findRegId name vm = (.ok id, vm') ∧ P vm'
  notFound : ∀ {name vm}, P vm → T.find name = none →
    ∃ msg vm', api.findRegId name vm = (.error msg, vm') ∧ P vm'

/-- Answers in every state, whatever each of them says. -/
theorem VMApi.HasRegs.ofAll {V I : Type} {api : VMApi V} {T : RegTable} {P : I → V → Prop}
    {R : I → VmReg → Bytes → Prop} (h : ∀ i, api.HasRegs T (P i) (R i)) (hP : ∀ vm, ∃ i, P i vm) :
    api.HasRegs T (fun _ => True) fun _ _ => True where
  known {_ _ vm} infos _ hd := by
    obtain ⟨i, hi⟩ := hP vm
    obtain ⟨vm', hget, -⟩ := (h i).known infos hi hd
    exact ⟨vm', hget, trivial⟩
  unknown {_ vm} infos _ hd := by
    obtain ⟨i, hi⟩ := hP vm
    obtain ⟨msg, vm', hget, -⟩ := (h i).unknown infos hi hd
    exact ⟨msg, vm', hget, trivial⟩
  value {_ _ vm} old _ hd hold := by
    obtain ⟨i, hi⟩ := hP vm
    obtain ⟨val, vm', hget, hlen, -⟩ := (h i).value old hi hd hold
    exact ⟨val, vm', hget, hlen, trivial, trivial⟩
  found {_ _ vm} _ hfind := by
    obtain ⟨i, hi⟩ := hP vm
    obtain ⟨vm', hrun, -⟩ := (h i).found hi hfind
    exact ⟨vm', hrun, trivial⟩
  notFound {_ vm} _ hfind := by
    obtain ⟨i, hi⟩ := hP vm
    obtain ⟨msg, vm', hrun, -⟩ := (h i).notFound hi hfind
    exact ⟨msg, vm', hrun, trivial⟩

namespace Debugger

variable {V : Type} {api : VMApi V} {T : RegTable} {P : V → Prop} {L : VmReg → Prop}
  {R : VmReg → Bytes → Prop} {db : Debugger V}

/-- The VM is in `P`; the registers that the debugger has loaded are of the VM and in `L`, and it
knows them under their own names. -/
structure RegsOf (T : RegTable) (P : V → Prop) (L : VmReg → Prop) (db : Debugger V) : Prop where
  vm : P db.vm
  regs : ∀ id infos, db.mapRegs[id]? = some infos →
    L id ∧ T.IsInfos id infos ∧ infos.val.length = infos.size.toNat
  names : ∀ name id, db.smapRegs[name]? = some id →
    id ∈ db.mapRegs ∧ ∃ d, T.info id = some d ∧ d.name = name

theorem RegsOf.with_vm {P' : V → Prop} (h : RegsOf T P L db) {vm : V} (hvm : P' vm) :
    RegsOf T P' L { db with vm := vm } := ⟨hvm, h.regs, h.names⟩

theorem RegsOf.mono {L' : VmReg → Prop} (h : RegsOf T P L db) (hL : ∀ id ∈ db.mapRegs, L' id) :
    RegsOf T P L' db where
  vm := h.vm
  regs id infos hid := by
    refine ⟨hL id ?_, (h.regs id infos hid).2⟩
    rw [Std.TreeMap.mem_iff_isSome_getElem?, hid]
    rfl
  names := h.names

/-- Loaded registers are in `L`, and the VM has them. -/
theorem RegsOf.loaded (h : RegsOf T P L db) {id : VmReg} (hid : id ∈ db.mapRegs) :
    L id ∧ T.Has id := by
  rw [Std.TreeMap.mem_iff_isSome_getElem?] at hid
  obtain ⟨infos, hid⟩ := Option.isSome_iff_exists.mp hid
  obtain ⟨hL, hinfos, -⟩ := h.regs id infos hid
  exact ⟨hL, hinfos.has⟩

/-- A register of the VM comes into the maps. -/
theorem RegsOf.insert (h : RegsOf T P L db) {id : VmReg} {infos : RegInfos} (hL : L id)
    (hinfos : T.IsInfos id infos) (hval : infos.val.length = infos.size.toNat) :
    RegsOf T P L { db with mapRegs := db.mapRegs.insertIfNew id infos
                           smapRegs := db.smapRegs.insertIfNew infos.name id } where
  vm := h.vm
  regs id' infos' hget := by
    rw [Std.TreeMap.getElem?_insertIfNew] at hget
    split at hget
    · next hid =>
      obtain rfl := Std.LawfulEqCmp.eq_of_compare hid.1
      obtain rfl := Option.some.inj hget
      exact ⟨hL, hinfos, hval⟩
    · exact h.regs id' infos' hget
  names name id' hget := by
    rw [Std.TreeMap.getElem?_insertIfNew] at hget
    rw [Std.TreeMap.mem_insertIfNew]
    split at hget
    · next hname =>
      obtain rfl := Std.LawfulEqCmp.eq_of_compare hname.1
      obtain rfl := Option.some.inj hget
      exact ⟨.inl Std.ReflCmp.compare_self, infos.desc, hinfos.2, rfl⟩
    · obtain ⟨hid, hd⟩ := h.names name id' hget
      exact ⟨.inr hid, hd⟩

/-! ## Single calls -/

/-- A query about the register `id`: it returns into `Q` if the VM has the register, and else throws
a `VMApi::Error`. Only a register that does not fit can make it fail in another way. -/
abbrev Queries {α : Type} (T : RegTable) (P : V → Prop) (L : VmReg → Prop) (id : VmReg) (c : DbM V α)
    (Q : α → Debugger V → Prop) : Prop :=
  Yields (RegsOf T P L) (RegsOf T P L) Caught (T.Fits id) (T.Has id) c Q

section Calls

variable (hvm : api.HasRegs T P R)
include hvm

theorem loadReg_queries {id : VmReg} (hL : L id) :
    Queries T P L id (loadReg api id) fun _ db => id ∈ db.mapRegs := by
  intro db h
  unfold loadReg
  rw [on_bind_ok (on_get db)]
  by_cases hid : id ∈ db.mapRegs
  · rw [if_pos hid]
    exact ⟨h, hid, fun _ => (h.loaded hid).2⟩
  rw [if_neg hid, on_bind]
  unfold callVM
  rw [on_of]
  cases hd : T.info id with
  | none =>
    obtain ⟨msg, vm', hcall, hP⟩ := hvm.unknown ⟨0, [], 0, .general, []⟩ h.vm hd
    rw [hcall]
    exact ⟨h.with_vm hP, fun _ => ⟨by simp [RegTable.Has, hd], trivial⟩⟩
  | some d =>
    obtain ⟨vm', hcall, hP⟩ := hvm.known ⟨0, [], 0, .general, []⟩ h.vm hd
    rw [hcall]
    simp only [Except.mapError, resize]
    split
    · rw [lift_ok, pure_bind, on_modify]
      refine ⟨(h.with_vm hP).insert hL ⟨rfl, hd⟩ ?_, by simp, fun _ => by simp [RegTable.Has, hd]⟩
      simp [RegDesc.infos]
    · next hsize => exact ⟨h.with_vm hP, fun hfit => absurd (hfit d hd) hsize⟩

theorem getRegInfos_queries {id : VmReg} (hL : L id) :
    Queries T P L id (getRegInfos api id)
      fun infos _ => T.IsInfos id infos ∧ infos.val.length = infos.size.toNat := by
  refine (loadReg_queries hvm hL).andReturn fun _ db h hid => ?_
  obtain ⟨infos, hfound⟩ := Option.isSome_iff_exists.mp (Std.TreeMap.mem_iff_isSome_getElem?.mp hid)
  refine ⟨infos, db, ?_, h, (h.regs id infos hfound).2⟩
  unfold findReg
  rw [on_bind_ok (on_get db), hfound]
  rfl

theorem getReg_queries {id : VmReg} (hL : L id) :
    Queries T P L id (getReg api id)
      fun val _ => (∃ d, T.info id = some d ∧ val.length = d.size.toNat) ∧ R id val := by
  rw [getReg_eq]
  refine (getRegInfos_queries hvm hL).andReturn fun infos db h ⟨⟨hid, hd⟩, hlen⟩ => ?_
  obtain ⟨val, vm', hcall, hval, hR, hP⟩ := hvm.value infos.val h.vm hd hlen
  subst hid
  have hcall : api.getReg infos.idx infos true db.vm =
    (.ok (infos.desc.infos infos.idx val), vm') := hcall
  have hle : (infos.desc.infos infos.idx val).size.toNat ≤
    (infos.desc.infos infos.idx val).val.length := hval.ge
  have htake : val.take (infos.desc.infos infos.idx val).size.toNat = val :=
    List.take_of_length_le hval.le
  rw [on_bind_ok (callVM_eq_ok.mpr ⟨vm', hcall, rfl⟩), on_bind_ok (on_modify _ _), if_pos hle,
    show (infos.desc.infos infos.idx val).val = val from rfl, htake]
  refine ⟨val, _, rfl, ⟨hP, fun id infos' hget => ?_, fun name id hget => ?_⟩, ⟨_, hd, hval⟩, hR⟩
  · rw [Std.TreeMap.getElem?_insert] at hget
    split at hget
    · next hid =>
      obtain rfl := Std.LawfulEqCmp.eq_of_compare hid
      obtain rfl := Option.some.inj hget
      exact ⟨hL, ⟨rfl, hd⟩, hval⟩
    · exact h.regs id infos' hget
  · obtain ⟨hid, hname⟩ := h.names name id hget
    exact ⟨Std.TreeMap.mem_insert.mpr (.inr hid), hname⟩

omit hvm in
theorem findRegId_cached {name : Bytes} {id : VmReg} (h : db.smapRegs[name]? = some id) :
    (findRegId api name).on db = (.ok id, db) := by
  unfold findRegId
  rw [on_bind_ok (on_get db), h]
  rfl

/-- A name that the debugger does not have. -/
theorem findRegId_asked {name : Bytes} (hL : ∀ id, T.find name = some id → L id) :
    Yields (fun db => RegsOf T P L db ∧ db.smapRegs[name]? = none) (RegsOf T P L) Caught
      (∀ id, T.find name = some id → T.Fits id) (T.Finds name) (findRegId api name)
      fun id _ => L id ∧ T.Has id ∧ T.find name = some id := by
  rintro db ⟨h, hname⟩
  unfold findRegId callVM
  rw [on_bind_ok (on_get db), hname]
  dsimp only
  rw [on_bind, on_of]
  cases hfind : T.find name with
  | none =>
    obtain ⟨msg, vm', hcall, hP⟩ := hvm.notFound h.vm hfind
    rw [hcall]
    exact ⟨h.with_vm hP, fun _ => ⟨fun ⟨id, hid, _⟩ => by simp [hfind] at hid, trivial⟩⟩
  | some id =>
    obtain ⟨vm', hcall, hP⟩ := hvm.found h.vm hfind
    rw [hcall]
    have hload := (loadReg_queries hvm (hL id hfind)).andReturn (f := fun _ => pure id)
      (S := fun id' _ => L id' ∧ T.Has id' ∧ some id = some id')
      fun _ db hdb hid => ⟨id, db, rfl, hdb, hL id hfind, (hdb.loaded hid).2, rfl⟩
    refine Yields.congr hload (fun hq => hq id rfl) (fun _ => ⟨fun hhas => ⟨id, hfind, hhas⟩, ?_⟩)
      _ (h.with_vm hP)
    rintro ⟨id', hid', hhas⟩
    obtain rfl := Option.some.inj (hfind.symm.trans hid')
    exact hhas

theorem findRegId_yields {name : Bytes} (hL : ∀ id, T.find name = some id → L id) :
    Yields (RegsOf T P L) (RegsOf T P L) Caught
      (T.Knows L name ∧ ∀ id, T.find name = some id → T.Fits id) (T.Finds name) (findRegId api name)
      fun id _ => L id ∧ T.Has id ∧ (T.Knows L name → T.find name = some id) := by
  intro db h
  cases hname : db.smapRegs[name]? with
  | some id =>
    obtain ⟨hid, d, hd, hown⟩ := h.names name id hname
    obtain ⟨hLid, hhas⟩ := h.loaded hid
    rw [findRegId_cached hname]
    exact ⟨h, ⟨hLid, hhas, fun hknow => hknow id d hLid hd hown⟩,
      fun hq => ⟨id, hq.1 id d hLid hd hown, hhas⟩⟩
  | none =>
    have hasked := (findRegId_asked hvm hL).congr
      (u := T.Knows L name ∧ ∀ id, T.find name = some id → T.Fits id) And.right fun _ => .rfl
    refine hasked.conseq (fun _ h => h) ?_ db ⟨h, hname⟩
    rintro id _ _ ⟨hLid, hhas, hfind⟩
    exact ⟨hLid, hhas, fun _ => hfind⟩

theorem loadReg_smapRegs (h : RegsOf T P L db) (id : VmReg) :
    ((loadReg api id).on db).2.smapRegs = db.smapRegs ∨ ∃ d, T.info id = some d ∧
      ((loadReg api id).on db).2.smapRegs = db.smapRegs.insertIfNew d.name id := by
  unfold loadReg
  rw [on_bind_ok (on_get db)]
  split
  · exact .inl rfl
  rw [on_bind]
  unfold callVM
  rw [on_of]
  cases hd : T.info id with
  | none =>
    obtain ⟨msg, vm', hcall, -⟩ := hvm.unknown ⟨0, [], 0, .general, []⟩ h.vm hd
    rw [hcall]
    exact .inl rfl
  | some d =>
    obtain ⟨vm', hcall, -⟩ := hvm.known ⟨0, [], 0, .general, []⟩ h.vm hd
    rw [hcall]
    simp only [Except.mapError, resize]
    split
    · exact .inr ⟨d, rfl, rfl⟩
    · exact .inl rfl

/-- If the VM has to be asked for a name, what it finds is recorded under its own name. -/
theorem findRegId_smapRegs (h : RegsOf T P L db) (name : Bytes) :
    ((findRegId api name).on db).2.smapRegs = db.smapRegs ∨ db.smapRegs[name]? = none ∧
      ∃ id d, T.find name = some id ∧ T.info id = some d ∧
        ((findRegId api name).on db).2.smapRegs = db.smapRegs.insertIfNew d.name id := by
  cases hname : db.smapRegs[name]? with
  | some id => exact .inl (by rw [findRegId_cached hname])
  | none =>
    have hon : (findRegId api name).on db =
        (callVM (api.findRegId name) >>= fun id => loadReg api id >>= fun _ => pure id).on db := by
      unfold findRegId
      rw [on_bind_ok (on_get db), hname]
    rw [hon, on_bind]
    unfold callVM
    rw [on_of]
    cases hfind : T.find name with
    | none =>
      obtain ⟨msg, vm', hcall, -⟩ := hvm.notFound h.vm hfind
      rw [hcall]
      exact .inl rfl
    | some id =>
      obtain ⟨vm', hcall, hP⟩ := hvm.found h.vm hfind
      have hload := loadReg_smapRegs hvm (h.with_vm hP) id
      rw [hcall]
      simp only [Except.mapError, on_bind]
      rcases hrun : (loadReg api id).on { db with vm := vm' } with ⟨_ | _, db'⟩ <;>
        rw [hrun] at hload
      all_goals
        rcases hload with hsame | ⟨d, hd, hins⟩
        · exact .inl hsame
        · exact .inr ⟨trivial, id, d, rfl, hd, hins⟩

end Calls

/-! ## Runs -/

/-- The members that a query about registers changes. -/
def regMaps (db : Debugger V) : Std.TreeMap VmReg RegInfos × Std.TreeMap Bytes VmReg :=
  (db.mapRegs, db.smapRegs)

theorem ignoresSyms_regMaps : IgnoresSyms (regMaps (V := V)) := ⟨fun _ _ => rfl, fun _ _ => rfl⟩

theorem onControl_regMaps (f : DbControl → Except Fault DbControl) (db : Debugger V) :
    regMaps ((onControl f).on db).2 = regMaps db := by
  rw [onControl_on]
  cases f db.toDbControl <;> rfl

/-- Every register of the VM may be loaded, and its state may be any. -/
abbrev OfTable (T : RegTable) : Debugger V → Prop := RegsOf T (fun _ => True) fun _ => True

theorem OfTable.congr {db' : Debugger V} (h : OfTable T db) (he : regMaps db' = regMaps db) :
    OfTable T db' := by
  obtain ⟨hregs, hnames⟩ := Prod.mk.inj he
  refine ⟨trivial, ?_, ?_⟩
  · rw [hregs]
    exact h.regs
  · rw [hregs, hnames]
    exact h.names

variable (hvm : api.HasRegs T (fun _ => True) R)
include hvm

theorem Call.ofTable (k : Call) (h : OfTable T db) : OfTable T ((k.exec api).on db).2 := by
  have hs := ignoresSyms_regMaps (V := V)
  have hasked {α : Type} {c : DbM V α}
      (hc : Spec (OfTable T) c (fun _ => OfTable T) fun _ => OfTable T) :
      OfTable T ((Functor.discard c : DbM V Unit).on db).2 := by
    have := hc db h
    show OfTable T ((Function.const _ () <$> c : DbM V Unit).on db).2
    rw [on_map]
    rcases hrun : c.on db with ⟨_ | a, db'⟩ <;> rw [hrun] at this <;> exact this
  cases k with
  | getReg idx => exact hasked (getReg_queries hvm trivial).keeps
  | getRegInfos idx => exact hasked (getRegInfos_queries hvm trivial).keeps
  | findRegId name => exact hasked (findRegId_yields hvm fun _ _ => trivial).keeps
  | setReg => exact h.with_vm trivial
  | readMem => exact h.congr ((keeps_callVM hs.vm _).discard db)
  | writeMem addr size buf => exact h.congr (keeps_writeMem api hs.vm addr size buf db)
  | getSymbolAt addr => exact h.congr ((keeps_getSymbolAt api hs addr).discard db)
  | getSymbols addr size => exact h.congr ((keeps_getSymbols api hs addr size).discard db)
  | getSymbolInfos idx => exact h.congr ((keeps_getSymbolInfos api hs idx).discard db)
  | findSymId name => exact h.congr ((keeps_findSymId api hs name).discard db)
  | getCodeText => exact h.congr ((keeps_callVM hs.vm _).discard db)
  | hasBreakpoint addr => exact h.congr ((keeps_hasBreakpoint addr).discard db)
  | addBreakpoint | delBreakpoint | resume | stop => exact h.congr (onControl_regMaps _ db)

theorem Step.ofTable {db' : Debugger V} {e : Event} (hst : Step api db e db') (h : OfTable T db) :
    OfTable T db' := by
  cases hst with
  | update hv hrun =>
    rw [onUpdate_on api hv] at hrun
    split at hrun
    · obtain ⟨-, rfl⟩ := Prod.mk.inj hrun
      exact h.congr rfl
    · cases hrun
  | @call _ k _ hrun _ =>
    have := k.ofTable hvm h
    rwa [hrun] at this

omit hvm in
theorem Started.ofTable (h : Started api db) : OfTable T db := by
  obtain ⟨vm, uninit, h⟩ := h
  unfold onInit at h
  simp only [bind_eq_ok, on_get, on_modify, lift_eq_ok, callVM_eq_ok] at h
  have hmaps : db.mapRegs = ∅ ∧ db.smapRegs = ∅ := by grind [new]
  constructor <;> simp [hmaps.1, hmaps.2]

/-- Whatever the debugger was asked, it has loaded only answers of the VM. -/
theorem Run.ofTable {db₀ : Debugger V} {es : List Event} (hs : Started api db₀)
    (h : Run api db₀ es db) : OfTable T db := by
  induction h with
  | start => exact hs.ofTable
  | step _ hst ih => exact hst.ofTable hvm ih

end Debugger

/-! ## Many registers at once -/

namespace VMSide

open Debugger (RegsOf getRegInfos_queries findRegId_yields getReg_queries)

variable {V : Type} {api : VMApi V} {T : RegTable} {P : V → Prop} {L : VmReg → Prop}
  {R : VmReg → Bytes → Prop} (hvm : api.HasRegs T P R) {ids : List VmReg}
include hvm

theorem getRegsInfos_yields {out : List RegInfos} (hout : out.length = ids.length)
    (hL : ∀ id ∈ ids, L id) :
    Yields (RegsOf T P L) (RegsOf T P L) Caught (∀ id ∈ ids, T.Fits id) (∀ id ∈ ids, T.Has id)
      (getRegsInfos api ids out) fun infos _ => List.Forall₂ T.IsInfos ids infos := by
  unfold getRegsInfos
  rw [fill_eq hout]
  refine .mapM ids fun id hid => ?_
  exact ((getRegInfos_queries hvm (hL id hid)).congr (fun hq => hq id hid) fun _ => .rfl).conseq
    (fun _ h => h) fun _ _ _ h => h.1

theorem findRegsIds_yields {names : List CStr} {out : List VmReg} (hout : out.length = names.length)
    (hL : ∀ name ∈ names, ∀ id, T.find name.1 = some id → L id) :
    Yields (RegsOf T P L) (RegsOf T P L) Caught
      (∀ name ∈ names, T.Knows L name.1 ∧ ∀ id, T.find name.1 = some id → T.Fits id)
      (∀ name ∈ names, T.Finds name.1) (findRegsIds api names out) fun ids _ => List.Forall₂
        (fun name id => L id ∧ T.Has id ∧ (T.Knows L name.1 → T.find name.1 = some id)) names ids := by
  unfold findRegsIds
  rw [fill_eq hout]
  refine .mapM names fun name hname => ?_
  exact (findRegId_yields hvm (hL name hname)).congr (fun hq => hq name hname) fun _ => .rfl

/-- Buffers as long as the values receive them. -/
theorem getRegs_yields {bufs : List Bytes} (hL : ∀ id ∈ ids, L id)
    (hlen : bufs.length = ids.length) (hbufs : ∀ p ∈ ids.zip bufs, ∀ d, T.info p.1 = some d →
      p.2.length = d.size.toNat) :
    Yields (RegsOf T P L) (RegsOf T P L) Caught (∀ id ∈ ids, T.Fits id) (∀ id ∈ ids, T.Has id)
      (getRegs api ids bufs) fun vals _ => List.Forall₂ (fun id val =>
        (∃ d, T.info id = some d ∧ val.length = d.size.toNat) ∧ R id val) ids vals := by
  have hfst : (ids.zip bufs).map Prod.fst = ids := List.map_fst_zip hlen.ge
  unfold getRegs
  rw [← hlen, itemsAt_self, lift_ok, pure_bind, fill_eq (by simp [hlen])]
  have := Yields.mapM (I := RegsOf T P L) (F := Caught) (q := ∀ id ∈ ids, T.Fits id)
    (p := fun p => T.Has p.1)
    (S := fun p val => (∃ d, T.info p.1 = some d ∧ val.length = d.size.toNat) ∧ R p.1 val)
    (f := fun p => Debugger.getReg api p.1 >>= fun val => Prog.lift (overwrite p.2 val))
    (ids.zip bufs) fun p hp => ?_
  · refine (this.congr (fun h => h) fun _ => ?_).conseq (fun _ h => h) fun vals _ _ hvals => ?_
    · rw [← List.forall_mem_map (f := Prod.fst) (P := fun id => T.Has id), hfst]
    · rw [← hfst, List.forall₂_map_left_iff]
      exact hvals
  · have hid : p.1 ∈ ids := (List.of_mem_zip hp).1
    refine ((getReg_queries hvm (hL _ hid)).congr (fun hq => hq p.1 hid) fun _ => .rfl).andReturn ?_
    rintro val db h ⟨⟨d, hd, hval⟩, hR⟩
    refine ⟨val, db, ?_, h, ⟨d, hd, hval⟩, hR⟩
    rw [overwrite_eq (hval.trans (hbufs p hp d hd).symm)]
    rfl

end VMSide

/-! ## Setting registers -/

namespace RegTable

/-- The values of the registers after those of `rows` were set, one after the other. -/
def store (T : RegTable) (cur : VmReg → Bytes) (rows : List (VmReg × Bytes)) : VmReg → Bytes :=
  rows.foldl (fun cur row => Function.update cur row.1 (row.2.take (T.size row.1).toNat)) cur

end RegTable

/-- While the registers of the VM have the values `cur`, it is in `P cur` and gives values in
`R cur`. Setting a register changes that one only. -/
structure VMApi.TracksRegs {V : Type} (api : VMApi V) (T : RegTable) (P : (VmReg → Bytes) → V → Prop)
    (R : (VmReg → Bytes) → VmReg → Bytes → Prop) : Prop where
  answers : ∀ cur, api.HasRegs T (P cur) (R cur)
  set : ∀ {cur id buf vm vm'}, P cur vm → T.Has id → (T.size id).toNat ≤ buf.length →
    api.setReg id buf vm = (.ok (), vm') →
      P (Function.update cur id (buf.take (T.size id).toNat)) vm'
  hit : ∀ cur id val, R (Function.update cur id val) id val
  miss : ∀ cur id val id' val', id' ≠ id → R cur id' val' → R (Function.update cur id val) id' val'

/-- `e` is what the VM throws at one of the writes. -/
def VMApi.Refuses {V : Type} (api : VMApi V) (rows : List (VmReg × Bytes)) (e : Fault) : Prop :=
  ∃ row ∈ rows, ∃ vm msg vm', api.setReg row.1 row.2 vm = (.error msg, vm') ∧ e = .vmError msg

namespace VMSide

variable {V : Type} {api : VMApi V} {T : RegTable} {P : (VmReg → Bytes) → V → Prop}
  {L : VmReg → Prop} {R : (VmReg → Bytes) → VmReg → Bytes → Prop}

theorem setRows_spec (hvm : api.TracksRegs T P R) {rows : List (VmReg × Bytes)}
    (hrows : ∀ row ∈ rows, T.Has row.1 ∧ (T.size row.1).toNat ≤ row.2.length)
    (cur : VmReg → Bytes) :
    Spec (Debugger.RegsOf T (P cur) L) (rows.forM fun row => Debugger.setReg api row.1 row.2)
      (fun _ => Debugger.RegsOf T (P (T.store cur rows)) L)
      fun e db => api.Refuses rows e ∧ Debugger.RegsOf T (fun _ => True) L db := by
  induction rows generalizing cur with
  | nil => exact .ret fun _ h => h
  | cons row rows ih =>
    obtain ⟨hhas, hlen⟩ := hrows row (by simp)
    have ih := ih fun row hrow => hrows row (by simp [hrow])
    refine Spec.bind (Q := fun _ => Debugger.RegsOf T
      (P (Function.update cur row.1 (row.2.take (T.size row.1).toNat))) L) (fun db h => ?_) fun _ => ?_
    · unfold Debugger.setReg Debugger.callVM
      rw [on_of]
      rcases hcall : api.setReg row.1 row.2 db.vm with ⟨msg | _, vm'⟩
      · exact ⟨⟨row, by simp, db.vm, msg, vm', hcall, rfl⟩, h.with_vm trivial⟩
      · exact h.with_vm (hvm.set h.vm hhas hlen hcall)
    · refine (ih _).conseq (fun _ h => h) (fun _ _ h => h) ?_
      rintro e db ⟨⟨row', hrow', h⟩, hdb⟩
      exact ⟨⟨row', by simp [hrow'], h⟩, hdb⟩

end VMSide

end Odb
