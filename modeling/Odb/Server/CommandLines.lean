import Odb.Mess.CommandMoves
import Odb.Server.TypedMemory
import Odb.Server.View

/-!
# Command lines in the process of the debugger

`SimpleCLIClient` over the `DBClientImplVMSide`.

* `Left`: what command lines that make certain requests leave of the client and the debugger.
* `exec_resumes`: a line that resumes the program did, or changed nothing.
* `lines_frame`: only the commands that are for it change what a user sees of the program.
-/

namespace Odb

open Prog
open DBClient (World)

namespace SimpleCLIClient

variable {V : Type} {api : VMApi V} {F : Floats} {w w₁ w' : World (Debugger V)}
  {types : List ReqType}

/-- What command lines that make the requests `types` leave. -/
structure Left (api : VMApi V) (types : List ReqType) (w w' : World (Debugger V)) : Prop where
  udp : w'.client.udp = w.client.udp
  client : .resume ∉ types → w'.client.state = w.client.state
  frame : Debugger.Frame api types w.impl w'.impl

namespace Left

theorem refl (w : World (Debugger V)) : Left api types w w :=
  ⟨rfl, fun _ => rfl, .refl _⟩

theorem trans (h : Left api types w w₁) (h' : Left api types w₁ w') : Left api types w w' where
  udp := h'.udp.trans h.udp
  client hr := (h'.client hr).trans (h.client hr)
  frame := h.frame.trans h'.frame

theorem mono {types' : List ReqType} (h : Left api types w w') (hsub : types ⊆ types') :
    Left api types' w w' where
  udp := h.udp
  client hr := h.client (mt (hsub ·) hr)
  frame := h.frame.mono hsub

end Left

/-- A request does the calls that it stands for. -/
theorem vmSide_asks (types : List ReqType) :
    Asks (VMSide.impl api) (CommandIn api (Debugger.Call.InTypes types)) Caught types := by
  refine fun β i hi => (VMSide.impl_moves i).mono fun db db' hst => ?_
  obtain ⟨k, hk, hst⟩ := hst
  exact ⟨k, ⟨i.type, hi, hk⟩, hst⟩

theorem left_of_steps
    (h : Relation.ReflTransGen (CommandStep types (CommandIn api (Debugger.Call.InTypes types))) w
      w') :
    Left api types w w' := by
  induction h with
  | refl => exact .refl _
  | tail _ hst ih =>
    obtain ⟨hudp, himpl, hstate⟩ := hst
    refine ih.trans ⟨hudp, fun hr => hstate.resolve_right fun h => hr h.1, ?_⟩
    rcases himpl with himpl | himpl
    · rw [himpl]
      exact .refl _
    · exact Debugger.frame_of_call himpl

theorem exec_left {line text : Bytes} (h : (exec F (VMSide.impl api) line).on w = (.ok text, w')) :
    Left api (asks (command line)) w w' := by
  have hasks : Asks (VMSide.impl api) (CommandIn api _) Caught (asks (command line)) :=
    vmSide_asks _
  have := exec_moves (F := F) hasks w
  rw [h] at this
  exact left_of_steps this

/-- To the debugger a line is calls of its API, of those that stand for its requests. -/
theorem exec_calls {line text : Bytes} (h : (exec F (VMSide.impl api) line).on w = (.ok text, w')) :
    Relation.ReflTransGen (CommandIn api (Debugger.Call.InTypes (asks (command line)))) w.impl
      w'.impl := by
  have hmoves := exec_moves (F := F) (@vmSide_asks _ api (asks (command line))) w
  rw [h] at hmoves
  have hsteps : Relation.ReflTransGen (CommandStep (asks (command line)) _) w w' := hmoves
  clear hmoves h
  induction hsteps with
  | refl => exact .refl
  | tail _ hst ih =>
    obtain ⟨-, himpl | himpl, -⟩ := hst
    · rwa [himpl]
    · exact ih.tail himpl

/-- The requests of some lines. -/
def asksAll (lines : List Bytes) : List ReqType :=
  (lines.map fun line => asks (command line)).flatten

theorem execs_left {lines texts : List Bytes}
    (h : (lines.mapM (exec F (VMSide.impl api))).on w = (.ok texts, w')) :
    Left api (asksAll lines) w w' := by
  induction lines generalizing w texts with
  | nil =>
    obtain ⟨-, rfl⟩ := Prod.mk.inj h
    exact .refl _
  | cons line lines ih =>
    rw [List.mapM_cons] at h
    obtain ⟨text, w₁, hexec, h⟩ := bind_eq_ok.mp h
    obtain ⟨texts', w₂, hrest, h⟩ := bind_eq_ok.mp h
    obtain ⟨-, rfl⟩ := Prod.mk.inj h
    exact ((exec_left hexec).mono (List.subset_append_left _ _)).trans
      ((ih hrest).mono (List.subset_append_right _ _))

theorem mem_asksAll {lines : List Bytes} {ty : ReqType} (hty : ty ∈ types)
    (h : ty ∈ asksAll lines) : ∃ line ∈ lines, command line ∈ asking types := by
  obtain ⟨l, hl, hmem⟩ := List.mem_flatten.mp h
  obtain ⟨line, hline, rfl⟩ := List.mem_map.mp hl
  exact ⟨line, hline, mem_asking hty hmem⟩

/-- In a session of command lines, nothing moves the program, and what the client believes of it
stays; only the commands that resume it change its state, only `b` and `delb` its breakpoints, only
`sreg` and `smem` the VM. -/
theorem lines_frame {lines texts : List Bytes}
    (h : (lines.mapM (exec F (VMSide.impl api))).on w = (.ok texts, w')) :
    Debugger.SamePlace w.impl.toDbControl w'.impl.toDbControl ∧ w'.client.udp = w.client.udp ∧
    ((∀ line ∈ lines, command line ∉ [lit "c", lit "continue", lit "s", lit "step", lit "n",
        lit "next", lit "fin", lit "finish"]) →
      w'.impl.state = w.impl.state ∧ w'.client.state = w.client.state) ∧
    ((∀ line ∈ lines, command line ∉ [lit "b", lit "delb"]) →
      w'.impl.breakpts = w.impl.breakpts) ∧
    (api.Passive → (∀ line ∈ lines, command line ∉ [lit "sreg", lit "smem"]) →
      w'.impl.vm = w.impl.vm) := by
  have hleft := execs_left h
  rw [← asking_resume, ← asking_breakpoints, ← asking_writes]
  have hno {types : List ReqType} {ty : ReqType} (hty : ty ∈ types)
      (hlines : ∀ line ∈ lines, command line ∉ asking types) : ty ∉ asksAll lines := fun hmem => by
    obtain ⟨line, hline, hc⟩ := mem_asksAll hty hmem
    exact hlines line hline hc
  have hstop : .stop ∉ asksAll lines := fun hmem => by
    obtain ⟨line, -, hc⟩ := mem_asksAll (List.mem_singleton_self ReqType.stop) hmem
    cases hc
  refine ⟨hleft.frame.place, hleft.udp, fun hl => ?_, fun hl => ?_, fun hp hl => ?_⟩
  · exact ⟨hleft.frame.state (hno (.head _) hl) hstop, hleft.client (hno (.head _) hl)⟩
  · exact hleft.frame.breakpts (hno (.head _) hl) (hno (.tail _ (.head _)) hl)
  · exact hleft.frame.vm hp (hno (.head _) hl) (hno (.tail _ (.head _)) hl)

/-! ## The commands that resume the program -/

theorem dispatch_resume {σ : Type} {impl : DBClientImpl σ} {cmd : List Bytes} {name : Bytes}
    (h : .resume ∈ asks name) : ∃ type st, DbControl.runState type = some st ∧
      DbControl.isRunning st = true ∧ dispatch F impl cmd name =
        (DBClient.resume impl type >>= fun _ => pure ([] : Bytes)) := by
  have hname := mem_asking (List.mem_singleton_self ReqType.resume) h
  rw [asking_resume] at hname
  simp only [List.mem_cons, List.not_mem_nil, or_false] at hname
  rcases hname with rfl | rfl | rfl | rfl | rfl | rfl | rfl | rfl
  · exact ⟨.continue, _, rfl, rfl, rfl⟩
  · exact ⟨.continue, _, rfl, rfl, rfl⟩
  · exact ⟨.step, _, rfl, rfl, rfl⟩
  · exact ⟨.step, _, rfl, rfl, rfl⟩
  · exact ⟨.stepOver, _, rfl, rfl, rfl⟩
  · exact ⟨.stepOver, _, rfl, rfl, rfl⟩
  · exact ⟨.stepOut, _, rfl, rfl, rfl⟩
  · exact ⟨.stepOut, _, rfl, rfl, rfl⟩

theorem resume_on {type : ResumeType} (h : w.client.state = .vmStopped) :
    (DBClient.resume (VMSide.impl api) type).on w = match w.impl.toDbControl.resume type with
      | .ok c => (.ok (), ⟨{ w.client with state := .vmRunning },
          { w.impl with toDbControl := c }⟩)
      | .error e => (.error e, w) := by
  unfold DBClient.resume
  rw [on_bind_ok ((@DBClient.assertState_ok _ w w () _).mpr ⟨h, rfl⟩)]
  have hcall : (VMSide.impl api (.resume type)).on w.impl = _ :=
    Debugger.onControl_on (·.resume type) w.impl
  cases hres : w.impl.toDbControl.resume type with
  | error e =>
    rw [hres] at hcall
    exact on_bind_error (on_zoom hcall) _
  | ok c =>
    rw [hres] at hcall
    exact on_bind_ok (on_zoom hcall) _

/-- The line resumed the program, or changed nothing. -/
theorem exec_resumes {line text : Bytes} (hres : .resume ∈ asks (command line))
    (hst : w.client.state = .vmStopped)
    (h : (exec F (VMSide.impl api) line).on w = (.ok text, w')) :
    w' = w ∨ w'.client = { w.client with state := .vmRunning } ∧
      DbControl.isRunning w'.impl.state = true := by
  unfold command at hres
  unfold exec at h
  cases hw : words line with
  | nil =>
    rw [hw] at hres
    cases hres
  | cons name args =>
    rw [hw] at h hres
    obtain ⟨type, st, hst', hrun, hdisp⟩ := @dispatch_resume F _ (VMSide.impl api) (name :: args)
      name hres
    simp only at h
    rw [hdisp, on_handle, on_bind, resume_on hst] at h
    cases hr : w.impl.toDbControl.resume type with
    | error e =>
      rw [hr] at h
      simp only at h
      cases e with
      | vmError msg =>
        obtain ⟨-, rfl⟩ := Prod.mk.inj h
        exact .inl rfl
      | _ => cases h
    | ok c =>
      rw [hr] at h
      obtain ⟨-, rfl⟩ := Prod.mk.inj h
      obtain ⟨-, -, rfl⟩ := DbControl.resume_ok hr
      refine .inr ⟨rfl, ?_⟩
      show DbControl.isRunning ((DbControl.runState type).getD _) = true
      rwa [hst']

/-! ## A client that knows where the program is -/

/-- The client takes the program for stopped where it is. -/
structure Knows (w : World (Debugger V)) : Prop where
  client : w.client.state = .vmStopped
  stopped : DbControl.isStopped w.impl.state = true
  udp : w.client.udp = w.impl.view

/-- A line that does not resume the program leaves it where it is. -/
theorem exec_sameView {line text : Bytes} (hres : .resume ∉ asks (command line))
    (h : (exec F (VMSide.impl api) line).on w = (.ok text, w')) :
    w'.client.state = w.client.state ∧ w'.client.udp = w.client.udp ∧
      Debugger.SameView w.impl w'.impl := by
  have hleft := exec_left h
  exact ⟨hleft.client hres, hleft.udp, ⟨hleft.frame.place, hleft.frame.state hres (no_stop _)⟩⟩

/-- After a line the client knows where the program is, or that it runs. -/
theorem Knows.exec {line text : Bytes} (hk : Knows w)
    (h : (exec F (VMSide.impl api) line).on w = (.ok text, w')) :
    Knows w' ∧ Debugger.SameView w.impl w'.impl ∨
      w'.client.state = .vmRunning ∧ DbControl.isRunning w'.impl.state = true := by
  by_cases hres : .resume ∈ asks (command line)
  · rcases exec_resumes hres hk.client h with rfl | ⟨hclient, hrun⟩
    · exact .inl ⟨hk, .refl _⟩
    · exact .inr ⟨by rw [hclient], hrun⟩
  · obtain ⟨hstate, hudp, hview⟩ := exec_sameView hres h
    refine .inl ⟨⟨hstate.trans hk.client, ?_, ?_⟩, hview⟩
    · rw [hview.state]
      exact hk.stopped
    · rw [hudp, hk.udp, hview.view_eq]

/-- A client of the scripted VM, stopped before its first instruction. -/
def scriptedClient : World (Debugger UpdateInfos) :=
  ⟨{ DBClient.new Serial.blank with state := .vmStopped },
    { Debugger.scriptedDb with state := .stopped }⟩

/-- A session that sets a breakpoint. -/
theorem lines_frame_b : ∃ texts w',
    ([lit "vm", lit "b 16", lit "help"].mapM (exec integral (VMSide.impl Debugger.scripted))).on
      scriptedClient = (.ok texts, w') ∧
    16 ∈ w'.impl.breakpts ∧ w'.impl.state = .stopped ∧ w'.impl.vm = scriptedClient.impl.vm := by
  have h : ∃ texts w',
      ([lit "vm", lit "b 16", lit "help"].mapM (exec integral (VMSide.impl Debugger.scripted))).on
        scriptedClient = (.ok texts, w') ∧ 16 ∈ w'.impl.breakpts := ⟨_, _, rfl, rfl⟩
  obtain ⟨texts, w', hrun, hbkp⟩ := h
  obtain ⟨-, -, hstate, -, hvm⟩ := lines_frame hrun
  exact ⟨texts, w', hrun, hbkp, (hstate (by decide)).1,
    hvm Debugger.scripted_passive (by decide)⟩

end SimpleCLIClient

end Odb
