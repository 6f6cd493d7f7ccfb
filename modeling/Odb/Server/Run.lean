import Odb.Server.Debugger

/-!
# Runs of the debugger

A run starts where `on_init` returns. In it the VM executes instructions, each followed by
`on_update`, and in between anyone calls the API of the debugger, in any order and with any
arguments; a call that throws a `VMApi::Error` is part of the run.

* `Step.control`: what one event does to the members that control execution. A query does nothing.
* `Started.members`: where they begin.
* `Run.induction`: a property of the history and these members that every event keeps.
* `RunWhere.keepsSyms`: a property of the symbols loaded that every load keeps.
-/

namespace Odb

namespace Debugger

variable {V : Type} (api : VMApi V)

/-! ## Queries leave the control members alone -/

section Frame

open Prog

variable {τ : Type} {f : Debugger V → τ}

/-- `f` reads neither the VM nor the registers loaded so far. -/
structure IgnoresRegs (f : Debugger V → τ) : Prop where
  vm : ∀ db vm, f { db with vm := vm } = f db
  regs : ∀ db mapRegs smapRegs, f { db with mapRegs := mapRegs, smapRegs := smapRegs } = f db

/-- `f` reads neither the VM nor the symbols loaded so far. -/
structure IgnoresSyms (f : Debugger V → τ) : Prop where
  vm : ∀ db vm, f { db with vm := vm } = f db
  syms : ∀ db syms, f { db with toSymCache := syms } = f db

theorem ignoresSyms_control : IgnoresSyms (Debugger.toDbControl (V := V)) :=
  ⟨fun _ _ => rfl, fun _ _ => rfl⟩

theorem ignoresRegs_control : IgnoresRegs (Debugger.toDbControl (V := V)) :=
  ⟨fun _ _ => rfl, fun _ _ _ => rfl⟩

theorem ignoresRegs_symCache : IgnoresRegs (Debugger.toSymCache (V := V)) :=
  ⟨fun _ _ => rfl, fun _ _ _ => rfl⟩

theorem keeps_callVM {α : Type} (hf : ∀ db vm, f { db with vm := vm } = f db)
    (g : V → Except Bytes α × V) : Keeps f (callVM g) := fun db => hf db _

theorem keeps_writeMem (hf : ∀ db vm, f { db with vm := vm } = f db) (addr : VmPtr)
    (size : VmSize) (buf : Bytes) : Keeps f (writeMem api addr size buf) := by
  unfold writeMem
  split
  · exact keeps_callVM hf _
  · exact .fail _

theorem keeps_findReg (idx : VmReg) : Keeps f (findReg idx : DbM V RegInfos) := by
  refine .bind .get fun db => ?_
  cases db.mapRegs[idx]? with
  | some infos => exact .ret _
  | none => exact .fail _

section Regs

variable (hf : IgnoresRegs f)
include hf

theorem keeps_loadReg (id : VmReg) : Keeps f (loadReg api id) := by
  refine .bind .get fun db => .ite (.ret _) ?_
  refine .bind (keeps_callVM hf.vm _) fun infos => .bind (.lift _) fun val => ?_
  exact .modify fun db => hf.regs db _ _

theorem keeps_getReg (idx : VmReg) : Keeps f (getReg api idx) := by
  refine .bind (keeps_loadReg api hf idx) fun _ => .bind (keeps_findReg idx) fun infos => ?_
  refine .bind (keeps_callVM hf.vm _) fun infos => ?_
  exact .bind (.modify fun db => hf.regs db _ db.smapRegs) fun _ => .ite (.ret _) (.fail _)

theorem keeps_getRegInfos (idx : VmReg) : Keeps f (getRegInfos api idx) :=
  .bind (keeps_loadReg api hf idx) fun _ => keeps_findReg idx

theorem keeps_findRegId (name : Bytes) : Keeps f (findRegId api name) := by
  refine .bind .get fun db => ?_
  cases db.smapRegs[name]? with
  | some id => exact .ret _
  | none =>
    exact .bind (keeps_callVM hf.vm _) fun id => .bind (keeps_loadReg api hf id) fun _ => .ret _

end Regs

theorem keeps_symsRangesRef : Keeps f (symsRangesRef : DbM V _) := by
  refine .bind .get fun db => ?_
  cases db.symsRanges with
  | some m => exact .ret _
  | none => exact .fail _

section Syms

variable (hf : IgnoresSyms f)
include hf

theorem keeps_loadSymbol (id : VmSym) : Keeps f (loadSymbol api id) := by
  refine .bind .get fun db => .ite (.ret _) ?_
  exact .bind (keeps_callVM hf.vm _) fun infos => .modify fun db => hf.syms db ⟨_, _, _, _⟩

theorem keeps_loadWindow (ranges : RangeMap Int) (addr last : VmPtr) :
    Keeps f (loadWindow api ranges addr last) := by
  refine .bind (keeps_callVM hf.vm _) fun syms => .bind (.lift _) fun ranges => ?_
  exact .bind (.modify fun db => hf.syms db ⟨_, _, _, _⟩) fun _ => .forM _ (keeps_loadSymbol api hf)

theorem keeps_preloadSymbols (addr : VmPtr) (size : VmSize) :
    Keeps f (preloadSymbols api addr size) := by
  refine .bind .get fun db => .bind keeps_symsRangesRef fun ranges => .bind (.lift _) fun w => ?_
  cases w with
  | none => exact .ret _
  | some w => exact keeps_loadWindow api hf ranges w.1 w.2

theorem keeps_getSymbolAt (addr : VmPtr) : Keeps f (getSymbolAt api addr) :=
  .bind (keeps_preloadSymbols api hf _ _) fun _ => .bind .get fun _ => .ret _

theorem keeps_getSymbols (addr : VmPtr) (size : VmSize) : Keeps f (getSymbols api addr size) :=
  .bind (keeps_preloadSymbols api hf _ _) fun _ => .bind .get fun _ => .ret _

theorem keeps_getSymbolInfos (idx : VmSym) : Keeps f (getSymbolInfos api idx) := by
  refine .bind (keeps_loadSymbol api hf idx) fun _ => .bind .get fun db => ?_
  cases db.mapSyms[idx]? with
  | some infos => exact .ret _
  | none => exact .fail _

theorem keeps_findSymId (name : Bytes) : Keeps f (findSymId api name) :=
  .bind (keeps_callVM hf.vm _) fun id => .bind (keeps_loadSymbol api hf id) fun _ => .ret _

end Syms

theorem keeps_hasBreakpoint (addr : VmPtr) : Keeps f (hasBreakpoint addr : DbM V Bool) :=
  .bind .get fun _ => .lift _

end Frame

/-! ## Events -/

/-- A call of the API of the debugger. -/
inductive Call where
  | getReg (idx : VmReg)
  | setReg (idx : VmReg) (newVal : Bytes)
  | getRegInfos (idx : VmReg)
  | findRegId (name : Bytes)
  | readMem (addr : VmPtr) (size : VmSize)
  | writeMem (addr : VmPtr) (size : VmSize) (buf : Bytes)
  | getSymbolAt (addr : VmPtr)
  | getSymbols (addr : VmPtr) (size : VmSize)
  | getSymbolInfos (idx : VmSym)
  | findSymId (name : Bytes)
  | getCodeText (addr : VmPtr)
  | addBreakpoint (addr : VmPtr)
  | hasBreakpoint (addr : VmPtr)
  | delBreakpoint (addr : VmPtr)
  | resume (type : ResumeType)
  | stop
deriving DecidableEq, Repr

/-- The call, without what it returns. -/
def Call.exec : Call → DbM V Unit
  | getReg idx => discard (Debugger.getReg api idx)
  | setReg idx newVal => Debugger.setReg api idx newVal
  | getRegInfos idx => discard (Debugger.getRegInfos api idx)
  | findRegId name => discard (Debugger.findRegId api name)
  | readMem addr size => discard (Debugger.readMem api addr size)
  | writeMem addr size buf => Debugger.writeMem api addr size buf
  | getSymbolAt addr => discard (Debugger.getSymbolAt api addr)
  | getSymbols addr size => discard (Debugger.getSymbols api addr size)
  | getSymbolInfos idx => discard (Debugger.getSymbolInfos api idx)
  | findSymId name => discard (Debugger.findSymId api name)
  | getCodeText addr => discard (Debugger.getCodeText api addr)
  | addBreakpoint addr => Debugger.addBreakpoint addr
  | hasBreakpoint addr => discard (Debugger.hasBreakpoint addr)
  | delBreakpoint addr => Debugger.delBreakpoint addr
  | resume type => Debugger.resume type
  | stop => Debugger.stop

/-- What a call does to the control members: a failing one and a query do nothing. -/
def Call.control : Call → DbControl → DbControl
  | addBreakpoint addr, c => (c.addBreakpoint addr).toOption.getD c
  | delBreakpoint addr, c => (c.delBreakpoint addr).toOption.getD c
  | resume type, c => (c.resume type).toOption.getD c
  | stop, c => c.stop.toOption.getD c
  | _, c => c

inductive Event where
  /-- The VM executed an instruction and reports `udp`. -/
  | update (udp : UpdateInfos)
  | call (c : Call)
deriving DecidableEq, Repr

/-- A call returned, or threw a `VMApi::Error`. -/
def Survived : Except Fault Unit → Prop
  | .ok _ => True
  | .error (.vmError _) => True
  | .error _ => False

/-- `db` is what `on_init` leaves of a new debugger. -/
def Started (db : Debugger V) : Prop :=
  ∃ vm uninit, (onInit api).on (new vm uninit) = (.ok (), db)

/-- One event of a run. -/
inductive Step : Debugger V → Event → Debugger V → Prop where
  /-- The instruction takes the VM to `vm`. -/
  | update {db db' : Debugger V} {vm vm' : V} {udp : UpdateInfos} :
      api.getUpdateInfos vm = (.ok udp, vm') →
      (onUpdate api).on { db with vm := vm } = (.ok (), db') → Step db (.update udp) db'
  | call {db db' : Debugger V} {c : Call} {r : Except Fault Unit} :
      (c.exec api).on db = (r, db') → Survived r → Step db (.call c) db'

/-- The runs from `db₀`: their events and the debugger after them. -/
inductive Run (db₀ : Debugger V) : List Event → Debugger V → Prop where
  | start : Run db₀ [] db₀
  | step {es : List Event} {e : Event} {db db' : Debugger V} :
      Run db₀ es db → Step api db e db' → Run db₀ (es ++ [e]) db'

/-- The runs from `db₀` in which `C` holds before every event. -/
inductive RunWhere (C : Debugger V → Event → Prop) (db₀ : Debugger V) :
    List Event → Debugger V → Prop where
  | start : RunWhere C db₀ [] db₀
  | step {es : List Event} {e : Event} {db db' : Debugger V} :
      RunWhere C db₀ es db → C db e → Step api db e db' → RunWhere C db₀ (es ++ [e]) db'

/-! ## What an event does to the control members -/

theorem callVM_eq_ok {α : Type} {f : V → Except Bytes α × V} {db db' : Debugger V} {a : α} :
    (callVM f).on db = (.ok a, db') ↔
      ∃ vm', f db.vm = (.ok a, vm') ∧ db' = { db with vm := vm' } := by
  unfold callVM
  rcases h : f db.vm with ⟨_ | b, vm'⟩ <;> simp [h, Except.mapError, eq_comm]

theorem onControl_on (f : DbControl → Except Fault DbControl) (db : Debugger V) :
    (onControl f).on db = match f db.toDbControl with
      | .ok c => (.ok (), { db with toDbControl := c })
      | .error e => (.error e, db) := by
  unfold onControl
  simp only [Prog.on_bind, Prog.on_get, Prog.on_lift]
  cases f db.toDbControl <;> rfl

theorem onControl_control (f : DbControl → Except Fault DbControl) (db : Debugger V) :
    ((onControl f).on db).2.toDbControl = (f db.toDbControl).toOption.getD db.toDbControl := by
  rw [onControl_on]
  cases f db.toDbControl <;> rfl

theorem Call.exec_control (c : Call) (db : Debugger V) :
    ((c.exec api).on db).2.toDbControl = c.control db.toDbControl := by
  have hf := ignoresRegs_control (V := V)
  have hs := ignoresSyms_control (V := V)
  cases c with
  | getReg idx => exact (keeps_getReg api hf idx).discard db
  | setReg => rfl
  | getRegInfos idx => exact (keeps_getRegInfos api hf idx).discard db
  | findRegId name => exact (keeps_findRegId api hf name).discard db
  | readMem => exact (keeps_callVM hf.vm _).discard db
  | writeMem addr size buf => exact keeps_writeMem api hf.vm addr size buf db
  | getSymbolAt addr => exact (keeps_getSymbolAt api hs addr).discard db
  | getSymbols addr size => exact (keeps_getSymbols api hs addr size).discard db
  | getSymbolInfos idx => exact (keeps_getSymbolInfos api hs idx).discard db
  | findSymId name => exact (keeps_findSymId api hs name).discard db
  | getCodeText => exact (keeps_callVM hf.vm _).discard db
  | hasBreakpoint addr => exact (keeps_hasBreakpoint addr).discard db
  | addBreakpoint | delBreakpoint | resume | stop => exact onControl_control _ db

/-- `on_update` is the update of the control members with what the VM reports. -/
theorem onUpdate_on {db : Debugger V} {vm vm' : V} {udp : UpdateInfos}
    (h : api.getUpdateInfos vm = (.ok udp, vm')) :
    (onUpdate api).on { db with vm := vm } = match db.toDbControl.update udp with
      | .ok c => (.ok (), { db with vm := vm', toDbControl := c })
      | .error e => (.error e, { db with vm := if DbControl.isRunning db.state then vm' else vm })
    := by
  unfold onUpdate DbControl.update assertThat
  simp only [Prog.on_bind, Prog.on_get, Prog.on_lift]
  by_cases hr : DbControl.isRunning db.state = true
  · simp only [hr, if_true, callVM, Prog.on_of, h, Except.mapError, onControl_on, ok_bind]
  · simp only [hr, Bool.false_eq_true, if_false]
    rfl

/-- What an event of a run does to the control members. -/
theorem Step.control {db db' : Debugger V} {e : Event} (h : Step api db e db') :
    match e with
    | .update udp => db.toDbControl.update udp = .ok db'.toDbControl
    | .call c => db'.toDbControl = c.control db.toDbControl := by
  cases h with
  | update hv h =>
    rw [onUpdate_on api hv] at h
    split at h
    · next c hc =>
      obtain ⟨-, rfl⟩ := Prod.mk.inj h
      exact hc
    · simp at h
  | @call _ c _ h _ =>
    have := Call.exec_control api c db
    rwa [h] at this

/-- Where `on_init` leaves the debugger. -/
theorem Started.members {db : Debugger V} (h : Started api db) :
    db.state = .runningToFinish ∧ db.callStack = [⟨db.insAddr, db.uninit⟩] ∧ db.breakpts = ∅ ∧
      db.toSymCache = ⟨∅, ∅, some (RangeMap.new 0 (db.infos.memorySize - 1) 0), ∅⟩ := by
  obtain ⟨vm, uninit, h⟩ := h
  unfold onInit at h
  simp only [Prog.bind_eq_ok, Prog.on_get, Prog.on_modify, Prog.lift_eq_ok, callVM_eq_ok] at h
  grind [new]

variable {api}

/-- A property of the history and the control members that every event keeps. -/
theorem Run.induction {db₀ : Debugger V} {P : List Event → DbControl → Prop}
    (start : P [] db₀.toDbControl)
    (update : ∀ es c udp c', P es c → c.update udp = .ok c' → P (es ++ [.update udp]) c')
    (call : ∀ es c k, P es c → P (es ++ [.call k]) (k.control c))
    {es : List Event} {db : Debugger V} (h : Run api db₀ es db) : P es db.toDbControl := by
  induction h with
  | start => exact start
  | @step es e db db' _ hst ih =>
    have hc := hst.control
    cases e with
    | update udp => exact update es _ udp _ ih hc
    | call k =>
      simp only at hc
      rw [hc]
      exact call es _ k ih

/-! ## A property of the symbols loaded -/

/-- The members that the invariant is about. -/
def cachePart (db : Debugger V) : VMInfos × SymCache := (db.infos, db.toSymCache)

theorem ignoresRegs_cachePart : IgnoresRegs (cachePart (V := V)) :=
  ⟨fun _ _ => rfl, fun _ _ _ => rfl⟩

section Symbols

open Prog

variable {I : VMInfos × SymCache → Prop} {P : Debugger V → Prop} {α β : Type}

/-- From a state in `P`, `c` keeps `I` if it returns or throws a `VMApi::Error`. -/
def KeepsSyms (I : VMInfos × SymCache → Prop) (P : Debugger V → Prop) (c : DbM V α) : Prop :=
  Spec (fun db => I (cachePart db) ∧ P db) c (fun _ db => I (cachePart db))
    (fun e db => Survived (.error e) → I (cachePart db))

theorem KeepsSyms.of_keeps {c : DbM V α} (h : Keeps cachePart c) : KeepsSyms I P c :=
  h.spec.conseq (fun _ hi => hi.1) (fun _ _ hi => hi) fun _ _ hi _ => hi

theorem KeepsSyms.bind {c : DbM V α} {f : α → DbM V β} (hc : KeepsSyms I P c)
    (hf : ∀ a, KeepsSyms I (fun _ => True) (f a)) : KeepsSyms I P (c >>= f) :=
  Spec.bind hc fun a => (hf a).conseq (fun _ hi => ⟨hi, trivial⟩) (fun _ _ hi => hi) fun _ _ hi => hi

theorem KeepsSyms.discard {c : DbM V α} (hc : KeepsSyms I P c) :
    KeepsSyms I P (Functor.discard c) := by
  intro db hi
  have := hc db hi
  show Outcome _ _ ((Function.const _ () <$> c : DbM V Unit).on db)
  rw [on_map]
  rcases h : c.on db with ⟨_ | a, db'⟩ <;> rw [h] at this <;> exact this

theorem keepsSyms_onControl {f : DbControl → Except Fault DbControl}
    (hf : ∀ c c', f c = .ok c' → c'.infos = c.infos) :
    KeepsSyms I P (onControl f : DbM V Unit) := by
  refine .of_keeps fun db => ?_
  rw [onControl_on]
  cases h : f db.toDbControl with
  | error => rfl
  | ok c => exact congrArg (·, db.toSymCache) (hf _ _ h)

/-- The window that a call preloads is in `W`. -/
def Call.Loads (W : VmPtr → VmSize → Debugger V → Prop) : Call → Debugger V → Prop
  | getSymbols addr size, db => W addr size db
  | getSymbolAt addr, db =>
    W (if addr < symLoadSize / 2 then 0 else addr - symLoadSize / 2) symLoadSize db
  | _, _ => True

variable {W : VmPtr → VmSize → Debugger V → Prop}

/-- A property that the loads keep is kept by every call of the API. -/
theorem Call.keepsSyms (hpre : ∀ addr size, KeepsSyms I (W addr size) (preloadSymbols api addr size))
    (hload : ∀ id, KeepsSyms I (fun _ => True) (loadSymbol api id)) (k : Call) :
    KeepsSyms I (k.Loads W) (k.exec api) := by
  have hf := ignoresRegs_cachePart (V := V)
  cases k with
  | getReg idx => exact .of_keeps (keeps_getReg api hf idx).discard
  | setReg => exact .of_keeps (keeps_callVM hf.vm _)
  | getRegInfos idx => exact .of_keeps (keeps_getRegInfos api hf idx).discard
  | findRegId name => exact .of_keeps (keeps_findRegId api hf name).discard
  | readMem => exact .of_keeps (keeps_callVM hf.vm _).discard
  | writeMem addr size buf => exact .of_keeps (keeps_writeMem api hf.vm addr size buf)
  | getCodeText => exact .of_keeps (keeps_callVM hf.vm _).discard
  | hasBreakpoint addr => exact .of_keeps (keeps_hasBreakpoint addr).discard
  | getSymbolAt addr =>
    exact .discard (.bind (hpre _ _) fun _ => .of_keeps (.bind .get fun _ => .ret _))
  | getSymbols addr size =>
    exact .discard (.bind (hpre _ _) fun _ => .of_keeps (.bind .get fun _ => .ret _))
  | getSymbolInfos idx =>
    refine .discard (.bind (hload idx) fun _ => .of_keeps (.bind .get fun db => ?_))
    cases db.mapSyms[idx]? with
    | some infos => exact .ret _
    | none => exact .fail _
  | findSymId name =>
    exact .discard (.bind (.of_keeps (keeps_callVM hf.vm _)) fun id =>
      .bind (hload id) fun _ => .of_keeps (.ret _))
  | addBreakpoint addr =>
    refine keepsSyms_onControl (f := (·.addBreakpoint addr)) fun c c' h => ?_
    obtain ⟨-, -, rfl⟩ := DbControl.addBreakpoint_ok h
    rfl
  | delBreakpoint addr =>
    refine keepsSyms_onControl (f := (·.delBreakpoint addr)) fun c c' h => ?_
    obtain ⟨-, -, rfl⟩ := DbControl.delBreakpoint_ok h
    rfl
  | resume type =>
    refine keepsSyms_onControl (f := (·.resume type)) fun c c' h => ?_
    obtain ⟨-, -, rfl⟩ := DbControl.resume_ok h
    rfl
  | stop =>
    refine keepsSyms_onControl fun c c' h => ?_
    obtain ⟨-, rfl⟩ := DbControl.stop_ok h
    rfl

/-- A property that the loads keep holds after every run in which they are in `W`. -/
theorem RunWhere.keepsSyms
    (hpre : ∀ addr size, KeepsSyms I (W addr size) (preloadSymbols api addr size))
    (hload : ∀ id, KeepsSyms I (fun _ => True) (loadSymbol api id))
    {C : Debugger V → Event → Prop} (hC : ∀ db k, C db (.call k) → k.Loads W db)
    {db₀ db : Debugger V} {es : List Event} (h₀ : I (cachePart db₀)) (h : RunWhere api C db₀ es db) :
    I (cachePart db) := by
  induction h with
  | start => exact h₀
  | @step es e db db' _ hc hst ih =>
    cases hst with
    | update hcall hrun =>
      rw [onUpdate_on api hcall] at hrun
      split at hrun
      · next c h =>
        obtain ⟨-, rfl⟩ := Prod.mk.inj hrun
        have : c.infos = db.infos := (DbControl.update_breakpts h).1
        show I (c.infos, db.toSymCache)
        rwa [this]
      · simp at hrun
    | @call _ k r hrun hsv =>
      have := k.keepsSyms hpre hload db ⟨ih, hC _ _ hc⟩
      rw [hrun] at this
      cases r with
      | error e => exact this hsv
      | ok u => exact this

/-- A run is one of which nothing is asked. -/
theorem Run.runWhere {db₀ db : Debugger V} {es : List Event} (h : Run api db₀ es db) :
    RunWhere api (fun _ _ => True) db₀ es db := by
  induction h with
  | start => exact .start
  | step _ hst ih => exact .step ih trivial hst

end Symbols

end Debugger

end Odb
