import Odb.Mess.ClientMoves
import Odb.Server.ClientHandler
import Odb.Server.DataClientHandler

/-!
# What a request does to the debugger

`run_command` and `check_stopped` of the `DataClientHandler` touch the debugger only by calls of its
API.

* `serve_moves`: every case of the switch, which makes the calls that its type stands for.
* `runCommand_commands`, `checkStopped_stop`: the two functions, with the request that is in `_in`.
-/

namespace Odb

open Prog

variable {V : Type} (api : VMApi V)

/-- A call of the API that `S` allows. -/
def CommandIn (S : Debugger.Call → Prop) (db db' : Debugger V) : Prop :=
  ∃ k, S k ∧ Debugger.Step api db (.call k) db'

/-- `c` is some calls of the API that `S` allows. -/
abbrev Does (S : Debugger.Call → Prop) {α : Type} (c : DbM V α) : Prop :=
  Moves (CommandIn api S) Caught c

namespace Debugger

variable {api} {S : Call → Prop}

/-- A call of the API is one step. -/
theorem Call.does {k : Call} (hk : S k) : Does api S (k.exec api) := by
  intro db
  rcases h : (k.exec api).on db with ⟨e | u, db'⟩
  · intro he
    refine .single ⟨k, hk, .call h ?_⟩
    cases e <;> exact he
  · exact .single ⟨k, hk, .call h trivial⟩

/-- The request for the same, with a size for each item. -/
def sized : ReqType → ReqType
  | .getRegs => .getRegsVar
  | .setRegs => .setRegsVar
  | .readMem => .readMemVar
  | .writeMem => .writeMemVar
  | ty => ty

/-- The call is made for requests of this type. -/
def Call.IsFor : Call → ReqType → Prop
  | getReg _, ty => ty = .getRegsVar
  | setReg _ _, ty => ty = .setRegsVar
  | getRegInfos _, ty => ty = .getRegsInfos
  | findRegId _, ty => ty = .findRegsIds
  | readMem _ _, ty => ty = .readMemVar
  | writeMem _ _ _, ty => ty = .writeMemVar
  | getSymbols _ _, ty => ty = .getSymsByAddr
  | getSymbolInfos _, ty => ty = .getSymsByIds ∨ ty = .getSymsByAddr ∨ ty = .getSymsByNames
  | findSymId _, ty => ty = .getSymsByNames
  | getCodeText _, ty => ty = .getCodeText
  | addBreakpoint _, ty => ty = .addBkps
  | delBreakpoint _, ty => ty = .delBkps
  | resume _, ty => ty = .resume
  | stop, ty => ty = .stop
  | getSymbolAt _, _ | hasBreakpoint _, _ => False

end Debugger

namespace VMSide

open Debugger (Call)

variable {api} {S : Call → Prop}

theorem fill_moves {α β : Type} {xs : List α} {out : List β} {f : α → DbM V β}
    (hf : ∀ x, Does api S (f x)) : Does api S (fill xs out f) :=
  .bind (.of_keeps (.lift _)) fun _ => .bind (.mapM xs hf) fun _ => .of_keeps (.ret _)

theorem keeps_checkStopped (udp : DBClientUpdate) :
    Keeps id (checkStopped udp : DbM V DBClientUpdate) := by
  refine .bind .get fun db => .ite (.ret _) ?_
  cases db.state <;> first | exact .bind (.ret _) fun _ => .ret _ | exact .bind (.fail _) fun _ => .ret _

theorem getSymbolInfos_moves (hS : ∀ idx, S (.getSymbolInfos idx)) (idx : VmSym) :
    Does api S (Debugger.getSymbolInfos api idx) := Moves.discard_iff.mp (Call.does (hS idx))

theorem codeTexts_moves (hS : ∀ addr, S (.getCodeText addr)) (n : Nat) (addr : VmPtr) :
    Does api S (codeTexts api n addr) := by
  induction n generalizing addr with
  | zero => exact .of_keeps (.ret _)
  | succ n ih =>
    exact .bind (Moves.discard_iff.mp (Call.does (hS addr))) fun p => .bind (ih _) fun _ =>
      .of_keeps (.ret _)

/-- Every call of the implementation. -/
theorem impl_moves {α : Type} (k : ImplCall α) : Does api (·.IsFor k.type) (impl api k) := by
  have hret {β : Type} (b : β) : Does api (·.IsFor k.type) (pure b) := .of_keeps (.ret b)
  have hlift {β : Type} (r : Except Fault β) : Does api (·.IsFor k.type) (Prog.lift r) :=
    .of_keeps (.lift r)
  cases k with
  | connect =>
    exact .bind (.of_keeps .get) fun _ => .bind (.of_keeps (keeps_checkStopped _)) fun _ => hret _
  | stop => exact Call.does (k := .stop) rfl
  | checkStopped => exact .of_keeps (keeps_checkStopped _)
  | getRegs =>
    refine .bind (hlift _) fun _ => fill_moves fun p => ?_
    exact .bind (Moves.discard_iff.mp (Call.does (k := .getReg p.1) rfl)) fun _ => hlift _
  | setRegs =>
    exact .bind (hlift _) fun _ => .forM _ fun p => Call.does (k := .setReg p.1 p.2) rfl
  | getRegsInfos =>
    exact fill_moves fun id => Moves.discard_iff.mp (Call.does (k := .getRegInfos id) rfl)
  | findRegsIds =>
    exact fill_moves fun n => Moves.discard_iff.mp (Call.does (k := .findRegId n.1) rfl)
  | readMem addrs sizes bufs =>
    refine .bind (hlift _) fun _ => fill_moves fun p => .bind (hlift (itemAt sizes p.2)) fun len => ?_
    exact .bind (Moves.discard_iff.mp (Call.does (k := .readMem p.1.1 len) rfl)) fun _ => hlift _
  | writeMem addrs sizes bufs =>
    refine .bind (hlift _) fun _ => .forM _ fun p => .bind (hlift (itemAt sizes p.2)) fun len => ?_
    exact Call.does (k := .writeMem p.1.1 len p.1.2) rfl
  | getSymbolsByIds => exact fill_moves (getSymbolInfos_moves fun _ => .inl rfl)
  | getSymbolsByAddr =>
    exact .bind (Moves.discard_iff.mp (Call.does (k := .getSymbols _ _) rfl)) fun _ =>
      .bind (hlift _) fun _ => fill_moves (getSymbolInfos_moves fun _ => .inr (.inl rfl))
  | getSymbolsByNames =>
    exact fill_moves fun n => .bind (Moves.discard_iff.mp (Call.does (k := .findSymId n.1) rfl))
      fun id => getSymbolInfos_moves (fun _ => .inr (.inr rfl)) id
  | getCodeText =>
    exact .bind (hlift _) fun _ => .bind (hlift _) fun _ =>
      .bind (codeTexts_moves (fun _ => rfl) _ _) fun _ => hret _
  | addBreakpoints => exact .forM _ fun a => Call.does (k := .addBreakpoint a) rfl
  | delBreakpoints => exact .forM _ fun a => Call.does (k := .delBreakpoint a) rfl
  | resume => exact Call.does (k := .resume _) rfl

end VMSide

namespace DataClientHandler

open Debugger (Call sized)
open VMSide

variable {api}

/-- Every case of the switch of `run_command`. -/
theorem serve_moves {ty : ReqType} (req : Req ty) :
    Does api (·.IsFor (sized ty)) (serve api req) := by
  have hcall {α : Type} {k : ImplCall α} {f : α → Req ty} (hk : k.type = sized ty) :
      Does api (·.IsFor (sized ty)) (impl api k >>= fun a => pure (f a)) :=
    .bind (hk ▸ impl_moves k) fun _ => .of_keeps (.ret _)
  cases ty with
  | connect => exact hcall (k := .connect req.outUdp) rfl
  | stop => exact hcall (k := .stop) rfl
  | checkStopped => exact hcall (k := .checkStopped req.outUdp) rfl
  | getRegs | getRegsVar => exact hcall (k := .getRegs req.ids req.bufs []) rfl
  | setRegs | setRegsVar => exact hcall (k := .setRegs req.ids req.bufs []) rfl
  | getRegsInfos => exact hcall (k := .getRegsInfos req.ids req.outs) rfl
  | findRegsIds => exact hcall (k := .findRegsIds req.names req.outs) rfl
  | readMem => exact hcall (k := .readMem req.ids [req.size, 0] req.bufs) rfl
  | readMemVar => exact hcall (k := .readMem req.ids req.sizes req.bufs) rfl
  | writeMem => exact hcall (k := .writeMem req.ids [req.size, 0] req.bufs) rfl
  | writeMemVar => exact hcall (k := .writeMem req.ids req.sizes req.bufs) rfl
  | getSymsByIds => exact hcall (k := .getSymbolsByIds req.ids req.outs) rfl
  | getSymsByAddr => exact hcall (k := .getSymbolsByAddr req.addr req.size) rfl
  | getSymsByNames => exact hcall (k := .getSymbolsByNames req.names req.outs) rfl
  | getCodeText => exact hcall (k := .getCodeText req.addr req.nins) rfl
  | addBkps => exact hcall (k := .addBreakpoints req.inAddrs) rfl
  | delBkps => exact hcall (k := .delBreakpoints req.inAddrs) rfl
  | resume => exact hcall (k := .resume req.type) rfl
  | err => exact .of_keeps (.ret _)
  | other => cases req

/-- What a step of a session may do to the debugger. -/
def SessionStep (R : Debugger V → Debugger V → Prop) (s s' : Session V) : Prop :=
  s'.db = s.db ∨ R s.db s'.db

theorem sessionSteps_db {R : Debugger V → Debugger V → Prop} {s s' : Session V}
    (h : Relation.ReflTransGen (SessionStep R) s s') : Relation.ReflTransGen R s.db s'.db := by
  induction h with
  | refl => exact .refl
  | tail _ hst ih =>
    rcases hst with heq | hst
    · rwa [heq]
    · exact ih.tail hst

section Answer

variable {R : Debugger V → Debugger V → Prop} {α : Type}

theorem onIs_moves (c : BuffM α) : Moves (SessionStep R) Caught (onIs c : Prog Fault (Session V) α) :=
  .of_step fun _ => .inl rfl

theorem onOs_moves (c : BuffM α) : Moves (SessionStep R) Caught (onOs c : Prog Fault (Session V) α) :=
  .of_step fun _ => .inl rfl

/-- A case of the switch does to the debugger what its call of `dc` does. -/
theorem reply_moves {ty : ReqType} (req : Req ty) (hserve : ∀ req, Moves R Caught (@serve _ api ty req)) :
    Moves (SessionStep R) Caught (reply api req) :=
  .bind (onIs_moves _) fun _ => .bind (.zoom (hserve _) (fun _ _ _ h => .inr h) fun _ => rfl)
    fun _ => .bind (onOs_moves _) fun _ => .bind (onOs_moves _) fun _ => .of_keeps (.ret _)

/-- What follows the switch touches only `_out`. -/
theorem answer_moves {switch : ReqType → Prog Fault (Session V) Unit}
    (hswitch : ∀ ty, Moves (SessionStep R) Caught (switch ty)) :
    Moves (SessionStep R) Caught (answer switch) := by
  refine .bind (.of_step fun _ => .inl rfl) fun _ => .bind (onIs_moves _) fun ty =>
    .handle (hswitch ty) (fun e he => ?_) fun e he => ?_
  · cases e with
    | vmError msg => exact .bind (onOs_moves _) fun _ => .bind (onOs_moves _) fun _ => .of_keeps (.ret _)
    | _ => cases he
  · cases e with
    | vmError msg => exact absurd trivial he
    | _ => rfl

end Answer

/-- The switch of `run_command` does what the type of the request stands for. -/
theorem runSwitch_moves (udp : DBClientUpdate) (ty : ReqType) :
    Moves (SessionStep (CommandIn api (·.IsFor (sized ty)))) Caught (runSwitch api udp ty) := by
  unfold runSwitch
  split
  · exact .of_keeps (.fail _)
  · split
    · exact reply_moves _ serve_moves
    · exact .of_keeps (.fail _)

/-- `run_command` that returns did calls of the API. -/
theorem runCommand_commands {udp : DBClientUpdate} {s s' : Session V}
    (h : (runCommand api udp).on s = (.ok (), s')) : Commands api s.db s'.db := by
  have hmoves : Moves (SessionStep (Command api)) Caught (runCommand api udp) :=
    answer_moves fun ty => (runSwitch_moves udp ty).mono fun _ _ => Or.imp_right fun ⟨k, _, hst⟩ =>
      ⟨k, hst⟩
  have := hmoves s
  rw [h] at this
  exact sessionSteps_db this

/-- A call of `stop()` that returns. -/
def Stops (db db' : Debugger V) : Prop := Debugger.stop.on db = (.ok (), db')

theorem stop_moves : Moves Stops Caught (VMSide.stop : DbM V Unit) := by
  intro db
  rcases h : (VMSide.stop : DbM V Unit).on db with ⟨e | u, db'⟩
  · unfold VMSide.stop Debugger.stop at h
    rw [Debugger.onControl_on] at h
    split at h
    · cases h
    · cases h
      exact fun _ => .refl
  · exact .single h

/-- A stopped program is not stopped again. -/
theorem stops_once {db db' : Debugger V} (h : Relation.ReflTransGen Stops db db') :
    db' = db ∨ Stops db db' := by
  induction h with
  | refl => exact .inl rfl
  | @tail db₁ db₂ _ hst ih =>
    rcases ih with rfl | ih
    · exact .inr hst
    · unfold Stops Debugger.stop at ih hst
      rw [Debugger.onControl_on] at ih hst
      split at ih
      · next c hc =>
        cases ih
        obtain ⟨-, rfl⟩ := DbControl.stop_ok hc
        split at hst
        · next c' hc' =>
          obtain ⟨hr, -⟩ := DbControl.stop_ok hc'
          cases hr
        · cases hst
      · cases ih

/-- `check_stopped` that returns stopped the program, or did nothing. -/
theorem checkStopped_stop {udp : DBClientUpdate} {s s' : Session V}
    (h : (checkStopped api udp).on s = (.ok (), s')) : s'.db = s.db ∨ Stops s.db s'.db := by
  have hmoves : Moves (SessionStep Stops) Caught (checkStopped api udp) := by
    refine answer_moves fun ty => ?_
    unfold checkSwitch
    split
    · exact reply_moves _ fun _ => .bind stop_moves fun _ => .of_keeps (.ret _)
    · exact reply_moves _ fun _ => .bind (.of_keeps (keeps_checkStopped _)) fun _ => .of_keeps (.ret _)
    · exact .of_keeps (.fail _)
  have := hmoves s
  rw [h] at this
  exact stops_once (sessionSteps_db this)

end DataClientHandler

end Odb
