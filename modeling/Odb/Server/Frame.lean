import Odb.Server.CallStack
import Odb.Server.Serve

/-!
# What a call of the API leaves alone

* `VMApi.Passive`: a VM that its queries do not change.
* `Frame`: what calls of the API that stand for certain requests leave alone: the place of the
  program always, and each of its state, its breakpoints and the VM, unless one of the requests is
  for that.
* `frame_of_calls`: any number of such calls.
-/

namespace Odb

open Prog

/-- The queries leave the VM as it is. -/
structure VMApi.Passive {V : Type} (api : VMApi V) : Prop where
  getVmInfos : ∀ vm, (api.getVmInfos vm).2 = vm
  getUpdateInfos : ∀ vm, (api.getUpdateInfos vm).2 = vm
  getReg : ∀ idx infos valOnly vm, (api.getReg idx infos valOnly vm).2 = vm
  findRegId : ∀ name vm, (api.findRegId name vm).2 = vm
  readMem : ∀ addr size vm, (api.readMem addr size vm).2 = vm
  getSymbols : ∀ addr size vm, (api.getSymbols addr size vm).2 = vm
  getSymbInfos : ∀ idx vm, (api.getSymbInfos idx vm).2 = vm
  findSymId : ∀ name vm, (api.findSymId name vm).2 = vm
  getCodeText : ∀ addr vm, (api.getCodeText addr vm).2 = vm

namespace Debugger

variable {V : Type} {api : VMApi V}

/-! ## The VM under a query -/

theorem keepsVM_call {α : Type} {g : V → Except Bytes α × V} (hg : ∀ vm, (g vm).2 = vm) :
    Keeps Debugger.vm (callVM g) := fun db => hg db.vm

section Passive

variable (hp : api.Passive)
include hp

theorem keepsVM_loadReg (id : VmReg) : Keeps Debugger.vm (loadReg api id) :=
  .bind .get fun _ => .ite (.ret _) (.bind (keepsVM_call (hp.getReg _ _ _)) fun _ =>
    .bind (.lift _) fun _ => .modify fun _ => rfl)

theorem keepsVM_getReg (idx : VmReg) : Keeps Debugger.vm (getReg api idx) :=
  .bind (keepsVM_loadReg hp idx) fun _ => .bind (keeps_findReg idx) fun _ =>
    .bind (keepsVM_call (hp.getReg _ _ _)) fun _ => .bind (.modify fun _ => rfl) fun _ =>
    .ite (.ret _) (.fail _)

theorem keepsVM_getRegInfos (idx : VmReg) : Keeps Debugger.vm (getRegInfos api idx) :=
  .bind (keepsVM_loadReg hp idx) fun _ => keeps_findReg idx

theorem keepsVM_findRegId (name : Bytes) : Keeps Debugger.vm (findRegId api name) := by
  refine .bind .get fun db => ?_
  cases db.smapRegs[name]? with
  | some id => exact .ret _
  | none =>
    exact .bind (keepsVM_call (hp.findRegId _)) fun id => .bind (keepsVM_loadReg hp id) fun _ =>
      .ret _

theorem keepsVM_loadSymbol (id : VmSym) : Keeps Debugger.vm (loadSymbol api id) :=
  .bind .get fun _ => .ite (.ret _) (.bind (keepsVM_call (hp.getSymbInfos _)) fun _ =>
    .modify fun _ => rfl)

theorem keepsVM_preloadSymbols (addr : VmPtr) (size : VmSize) :
    Keeps Debugger.vm (preloadSymbols api addr size) := by
  refine .bind .get fun db => .bind keeps_symsRangesRef fun ranges => .bind (.lift _) fun w => ?_
  cases w with
  | none => exact .ret _
  | some w =>
    exact .bind (keepsVM_call (hp.getSymbols _ _)) fun _ => .bind (.lift _) fun _ =>
      .bind (.modify fun _ => rfl) fun _ => .forM _ (keepsVM_loadSymbol hp)

theorem keepsVM_getSymbolInfos (idx : VmSym) : Keeps Debugger.vm (getSymbolInfos api idx) := by
  refine .bind (keepsVM_loadSymbol hp idx) fun _ => .bind .get fun db => ?_
  cases db.mapSyms[idx]? with
  | some infos => exact .ret _
  | none => exact .fail _

end Passive

theorem keepsVM_control (f : DbControl → Except Fault DbControl) :
    Keeps Debugger.vm (onControl f : DbM V Unit) :=
  .bind .get fun _ => .bind (.lift _) fun _ => .modify fun _ => rfl

/-- The two calls that are no queries. -/
def Call.Writes : Call → Prop
  | setReg _ _ | writeMem _ _ _ => True
  | _ => False

/-- Every other call leaves a passive VM as it is. -/
theorem Call.keepsVM (hp : api.Passive) {k : Call} (hk : ¬ k.Writes) :
    Keeps Debugger.vm (k.exec api) := by
  cases k with
  | setReg | writeMem => exact absurd trivial hk
  | getReg idx => exact (keepsVM_getReg hp idx).discard
  | getRegInfos idx => exact (keepsVM_getRegInfos hp idx).discard
  | findRegId name => exact (keepsVM_findRegId hp name).discard
  | readMem => exact (keepsVM_call (hp.readMem _ _)).discard
  | getSymbolAt addr =>
    exact Keeps.discard (.bind (keepsVM_preloadSymbols hp _ _) fun _ => .bind .get fun _ => .ret _)
  | getSymbols addr size =>
    exact Keeps.discard (.bind (keepsVM_preloadSymbols hp _ _) fun _ => .bind .get fun _ => .ret _)
  | getSymbolInfos idx => exact (keepsVM_getSymbolInfos hp idx).discard
  | findSymId name =>
    exact Keeps.discard (.bind (keepsVM_call (hp.findSymId _)) fun id =>
      .bind (keepsVM_loadSymbol hp id) fun _ => .ret _)
  | getCodeText => exact (keepsVM_call (hp.getCodeText _)).discard
  | hasBreakpoint addr => exact (keeps_hasBreakpoint addr).discard
  | addBreakpoint | delBreakpoint | resume | stop => exact keepsVM_control _

/-! ## Frames -/

/-- What calls for the requests `types` leave alone. -/
structure Frame (api : VMApi V) (types : List ReqType) (db db' : Debugger V) : Prop where
  place : SamePlace db.toDbControl db'.toDbControl
  state : .resume ∉ types → .stop ∉ types → db'.state = db.state
  breakpts : .addBkps ∉ types → .delBkps ∉ types → db'.breakpts = db.breakpts
  vm : api.Passive → .setRegsVar ∉ types → .writeMemVar ∉ types → db'.vm = db.vm

namespace Frame

variable {types : List ReqType} {db db₁ db' : Debugger V}

theorem refl (db : Debugger V) : Frame api types db db :=
  ⟨⟨rfl, rfl, rfl, rfl⟩, fun _ _ => rfl, fun _ _ => rfl, fun _ _ _ => rfl⟩

theorem trans (h : Frame api types db db₁) (h' : Frame api types db₁ db') :
    Frame api types db db' where
  place :=
    { callStack := h'.place.callStack.trans h.place.callStack
      insAddr := h'.place.insAddr.trans h.place.insAddr
      uninit := h'.place.uninit.trans h.place.uninit
      infos := h'.place.infos.trans h.place.infos }
  state hr hs := (h'.state hr hs).trans (h.state hr hs)
  breakpts ha hd := (h'.breakpts ha hd).trans (h.breakpts ha hd)
  vm hp hs hw := (h'.vm hp hs hw).trans (h.vm hp hs hw)

theorem mono {types' : List ReqType} (h : Frame api types db db') (hsub : types ⊆ types') :
    Frame api types' db db' where
  place := h.place
  state hr hs := h.state (mt (hsub ·) hr) (mt (hsub ·) hs)
  breakpts ha hd := h.breakpts (mt (hsub ·) ha) (mt (hsub ·) hd)
  vm hp hs hw := h.vm hp (mt (hsub ·) hs) (mt (hsub ·) hw)

end Frame

/-- What a call does to the control members, by the request it is made for. -/
theorem Call.control_frame {k : Call} {ty : ReqType} (hk : k.IsFor ty) (c : DbControl) :
    (ty ≠ .resume → ty ≠ .stop → (k.control c).state = c.state) ∧
      (ty ≠ .addBkps → ty ≠ .delBkps → (k.control c).breakpts = c.breakpts) := by
  cases k with
  | addBreakpoint addr =>
    refine ⟨fun _ _ => ?_, fun hadd => absurd hk hadd⟩
    refine DbControl.getD_toOption (P := fun c' => c'.state = c.state) rfl fun c' h => ?_
    obtain ⟨-, -, rfl⟩ := DbControl.addBreakpoint_ok h
    rfl
  | delBreakpoint addr =>
    refine ⟨fun _ _ => ?_, fun _ hdel => absurd hk hdel⟩
    refine DbControl.getD_toOption (P := fun c' => c'.state = c.state) rfl fun c' h => ?_
    obtain ⟨-, -, rfl⟩ := DbControl.delBreakpoint_ok h
    rfl
  | resume type =>
    refine ⟨fun hres => absurd hk hres, fun _ _ => ?_⟩
    refine DbControl.getD_toOption (P := fun c' => c'.breakpts = c.breakpts) rfl fun c' h => ?_
    obtain ⟨-, -, rfl⟩ := DbControl.resume_ok h
    rfl
  | stop =>
    refine ⟨fun _ hstop => absurd hk hstop, fun _ _ => ?_⟩
    refine DbControl.getD_toOption (P := fun c' => c'.breakpts = c.breakpts) rfl fun c' h => ?_
    obtain ⟨-, rfl⟩ := DbControl.stop_ok h
    rfl
  | _ => exact ⟨fun _ _ => rfl, fun _ _ => rfl⟩

/-- The calls that the requests `types` stand for. -/
def Call.InTypes (types : List ReqType) (k : Call) : Prop := ∃ ty ∈ types, k.IsFor ty

theorem frame_of_call {types : List ReqType} {db db' : Debugger V}
    (h : CommandIn api (Call.InTypes types) db db') : Frame api types db db' := by
  obtain ⟨k, ⟨ty, hty, hk⟩, hst⟩ := h
  have hctrl : db'.toDbControl = k.control db.toDbControl := hst.control
  have hframe := k.control_frame hk db.toDbControl
  refine ⟨hctrl ▸ k.samePlace _, fun hr hs => ?_, fun ha hd => ?_, fun hp hs hw => ?_⟩
  · rw [hctrl]
    exact hframe.1 (fun he => hr (he ▸ hty)) fun he => hs (he ▸ hty)
  · rw [hctrl]
    exact hframe.2 (fun he => ha (he ▸ hty)) fun he => hd (he ▸ hty)
  · have hno : ¬ k.Writes := by
      cases k with
      | setReg => exact absurd (hk ▸ hty) hs
      | writeMem => exact absurd (hk ▸ hty) hw
      | _ => exact id
    cases hst with
    | call hrun => exact (congrArg (fun p => p.2.vm) hrun).symm.trans (Call.keepsVM hp hno db)

/-- Any number of calls. -/
theorem frame_of_calls {types : List ReqType} {db db' : Debugger V}
    (h : Relation.ReflTransGen (CommandIn api (Call.InTypes types)) db db') :
    Frame api types db db' := by
  induction h with
  | refl => exact .refl db
  | tail _ hst ih => exact ih.trans (frame_of_call hst)

theorem frame_of_type {ty : ReqType} {db db' : Debugger V}
    (h : Relation.ReflTransGen (CommandIn api (·.IsFor ty)) db db') : Frame api [ty] db db' := by
  refine frame_of_calls (Relation.ReflTransGen.mono (fun db₁ db₂ hst => ?_) _ _ h)
  obtain ⟨k, hk, hst⟩ := hst
  exact ⟨k, ⟨ty, List.mem_singleton.mpr rfl, hk⟩, hst⟩

theorem scripted_passive : scripted.Passive :=
  ⟨fun _ => rfl, fun _ => rfl, fun _ _ _ _ => rfl, fun _ _ => rfl, fun _ _ _ => rfl,
    fun _ _ _ => rfl, fun _ _ => rfl, fun _ _ => rfl, fun _ _ => rfl⟩

end Debugger

end Odb
