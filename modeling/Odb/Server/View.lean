import Odb.Server.Frame

/-!
# What a stopped debugger tells

* `Debugger.view`: the update that a client of a stopped program gets.
* `SameView`: the program is where it was; calls that are not for its state leave it there.
* `checkStopped_stopped`, `checkStopped_running`: what `check_stopped` tells.
-/

namespace Odb

open Prog

/-- The `vm_state` of an update about a stopped program. -/
def stoppedState : DbState → StoppedState
  | .error => .error
  | .exit => .exit
  | _ => .ready

namespace Debugger

variable {V : Type}

/-- What a stopped debugger tells a client. -/
def view (db : Debugger V) : DBClientUpdate :=
  ⟨stoppedState db.state, true, db.insAddr, db.callStack⟩

/-- The program is at the same place, in the same state. -/
structure SameView (db db' : Debugger V) : Prop extends
    SamePlace db.toDbControl db'.toDbControl where
  state : db'.state = db.state

theorem SameView.refl (db : Debugger V) : SameView db db := ⟨⟨rfl, rfl, rfl, rfl⟩, rfl⟩

theorem SameView.trans {db₁ db₂ db₃ : Debugger V} (h : SameView db₁ db₂) (h' : SameView db₂ db₃) :
    SameView db₁ db₃ where
  callStack := h'.callStack.trans h.callStack
  insAddr := h'.insAddr.trans h.insAddr
  uninit := h'.uninit.trans h.uninit
  infos := h'.infos.trans h.infos
  state := h'.state.trans h.state

theorem SameView.view_eq {db db' : Debugger V} (h : SameView db db') : db'.view = db.view := by
  unfold view
  rw [h.state, h.callStack, h.insAddr]

variable {api : VMApi V} {db db' : Debugger V}

/-- The program that executes an instruction is not stopped. -/
theorem Step.not_stopped {udp : UpdateInfos} (h : Step api db (.update udp) db') :
    DbControl.isStopped db.state = false := by
  have hctrl : db.toDbControl.update udp = .ok db'.toDbControl := h.control
  unfold DbControl.update at hctrl
  by_cases hr : DbControl.isRunning db.state = true
  · cases hs : db.state <;> rw [hs] at hr <;> first | rfl | cases hr
  · simp [assertThat, hr] at hctrl

/-- The calls of another request leave the program where it is. -/
theorem sameView_of_calls {ty : ReqType} (hstop : ty ≠ .stop) (hresume : ty ≠ .resume)
    (h : Relation.ReflTransGen (CommandIn api (·.IsFor (sized ty))) db db') : SameView db db' := by
  have hframe := frame_of_type h
  refine ⟨hframe.place, hframe.state (fun hr => ?_) fun hs => ?_⟩
  · have : .resume = sized ty := List.mem_singleton.mp hr
    cases ty <;> first | exact hresume rfl | cases this
  · have : .stop = sized ty := List.mem_singleton.mp hs
    cases ty <;> first | exact hstop rfl | cases this

end Debugger

namespace VMSide

variable {V : Type} {db : Debugger V}

theorem checkStopped_stopped (h : DbControl.isStopped db.state = true) (udp : DBClientUpdate) :
    (checkStopped udp).on db = (.ok db.view, db) := by
  unfold checkStopped Debugger.view
  rw [on_bind_ok (on_get db)]
  cases hs : db.state <;> simp [DbControl.isStopped, hs] at h ⊢ <;> rfl

theorem checkStopped_running (h : DbControl.isStopped db.state = false)
    (hn : db.state ≠ .notStarted) (udp : DBClientUpdate) :
    (checkStopped udp).on db = (.ok { udp with stopped := false }, db) := by
  unfold checkStopped
  rw [on_bind_ok (on_get db)]
  cases hs : db.state <;> simp [DbControl.isStopped, hs] at h hn ⊢ <;> rfl

end VMSide

end Odb
