import Odb.Mess.ClientMoves
import Odb.Mess.SimpleCLIClient

/-!
# What the command `state` prints

* `whereText`: where the program is, and why it is there.
* `Tells`: the text is this, with the current subroutine if there is a symbol for it.
* `exec_state`: it is, unless the symbols are refused; `exec_state_iff`: when the command returns.
-/

namespace Odb

namespace SimpleCLIClient

open Prog

variable {F : Floats} {σ : Type} {impl : DBClientImpl σ} {w w' : DBClient.World σ}

/-- The beginning of the report of `state`. -/
def whereText (udp : DBClientUpdate) : Bytes :=
  (match udp.vmState with
    | .exit => lit "Program exited normally at "
    | .error => lit "Program stopped from an error at "
    | _ => lit "program stopped at ") ++ lit "0x" ++ hex udp.addr.toNat

/-- The report of `state`. -/
def Tells (udp : DBClientUpdate) (text : Bytes) : Prop :=
  ∃ sub, text = whereText udp ++ sub ++ lit "\n" ∧
    (sub = [] ∨ ∃ name off, sub = lit " (<" ++ name ++ lit "> + 0x" ++ hex off ++ lit ")")

theorem exec_state_eq : exec F impl (lit "state") = Prog.handle (cmdState impl) fun
    | .vmError msg => return lit "Error: " ++ msg
    | e => throw e := by
  have hwords : words (lit "state") = [lit "state"] := rfl
  unfold exec
  rw [hwords]
  rfl

/-- Without a call stack there is no current subroutine. -/
theorem cmdState_empty (hst : w.client.state = .vmStopped) (hcs : w.client.udp.stack = []) :
    (cmdState impl).on w = (.error .undefined, w) := by
  unfold cmdState DBClient.getExecutionPoint DBClient.getStoppedState DBClient.getCallStack
  rw [on_bind_ok (DBClient.getter_on hst), on_bind_ok (DBClient.getter_on hst),
    on_bind_ok (DBClient.getter_on hst), hcs]
  rfl

variable {ci : CallInfos} {i : σ}

theorem item_on : (Prog.lift (item (some ci)) : DBClient.ClientM σ _).on w = (.ok ci, w) := rfl

theorem cmdState_error (hst : w.client.state = .vmStopped)
    (hcs : w.client.udp.stack.getLast? = some ci) {e : Fault}
    (hsyms : (impl (.getSymbolsByAddr ci.callerStartAddr 1)).on w.impl = (.error e, i)) :
    (cmdState impl).on w = (.error e, ⟨w.client, i⟩) := by
  unfold cmdState DBClient.getExecutionPoint DBClient.getStoppedState DBClient.getCallStack
    DBClient.getSymbolsByAddr
  rw [on_bind_ok (DBClient.getter_on hst), on_bind_ok (DBClient.getter_on hst),
    on_bind_ok (DBClient.getter_on hst), hcs, on_bind_ok item_on]
  exact on_bind_error (DBClient.forward_on hst hsyms) _

theorem cmdState_ok (hst : w.client.state = .vmStopped)
    (hcs : w.client.udp.stack.getLast? = some ci) {syms : List SymbolInfos}
    (hsyms : (impl (.getSymbolsByAddr ci.callerStartAddr 1)).on w.impl = (.ok syms, i)) :
    ∃ text, (cmdState impl).on w = (.ok text, ⟨w.client, i⟩) ∧ Tells w.client.udp text := by
  unfold cmdState DBClient.getExecutionPoint DBClient.getStoppedState DBClient.getCallStack
    DBClient.getSymbolsByAddr
  rw [on_bind_ok (DBClient.getter_on hst), on_bind_ok (DBClient.getter_on hst),
    on_bind_ok (DBClient.getter_on hst), hcs, on_bind_ok item_on]
  refine ⟨_, on_bind_ok (DBClient.forward_on hst hsyms) _, ?_⟩
  cases syms with
  | nil => exact ⟨[], rfl, .inl rfl⟩
  | cons sym syms => exact ⟨_, rfl, .inr ⟨sym.name, _, rfl⟩⟩

/-- `state` returns if there is a call stack and the symbols are given or refused. -/
theorem exec_state_iff (hst : w.client.state = .vmStopped) :
    (∃ text w', (exec F impl (lit "state")).on w = (.ok text, w')) ↔
      ∃ ci, w.client.udp.stack.getLast? = some ci ∧
        Safe Caught (impl (.getSymbolsByAddr ci.callerStartAddr 1)) w.impl := by
  rw [exec_state_eq, on_handle]
  cases hcs : w.client.udp.stack.getLast? with
  | none =>
    rw [cmdState_empty hst (List.getLast?_eq_none_iff.mp hcs)]
    simp
  | some ci =>
    rcases hsyms : (impl (.getSymbolsByAddr ci.callerStartAddr 1)).on w.impl with ⟨e | syms, i⟩
    · rw [cmdState_error hst hcs hsyms]
      simp only [Option.some.injEq, exists_eq_left', Safe.iff_of_error hsyms]
      cases e with
      | vmError msg => exact iff_of_true ⟨_, _, rfl⟩ trivial
      | stdException | assertFail | undefined =>
        refine iff_of_false (fun h => ?_) id
        obtain ⟨text, w', h⟩ := h
        cases h
    · obtain ⟨text, hrun, -⟩ := cmdState_ok hst hcs hsyms
      rw [hrun]
      exact iff_of_true ⟨text, _, rfl⟩ ⟨ci, rfl, .of_ok hsyms⟩

/-- `state` tells where the client takes the program to be. -/
theorem exec_state {text : Bytes} (hst : w.client.state = .vmStopped)
    (h : (exec F impl (lit "state")).on w = (.ok text, w')) :
    Tells w.client.udp text ∨ ∃ addr msg i,
      (impl (.getSymbolsByAddr addr 1)).on w.impl = (.error (.vmError msg), i) ∧
        text = lit "Error: " ++ msg := by
  rw [exec_state_eq, on_handle] at h
  cases hcs : w.client.udp.stack.getLast? with
  | none =>
    rw [cmdState_empty hst (List.getLast?_eq_none_iff.mp hcs)] at h
    cases h
  | some ci =>
    rcases hsyms : (impl (.getSymbolsByAddr ci.callerStartAddr 1)).on w.impl with ⟨e | syms, i⟩
    · rw [cmdState_error hst hcs hsyms] at h
      cases e with
      | vmError msg =>
        obtain ⟨htext, -⟩ := Prod.mk.inj h
        exact .inr ⟨_, msg, i, hsyms, (Except.ok.inj htext).symm⟩
      | _ => cases h
    · obtain ⟨text', hrun, htells⟩ := cmdState_ok hst hcs hsyms
      rw [hrun] at h
      obtain ⟨htext, -⟩ := Prod.mk.inj h
      exact .inl (Except.ok.inj htext ▸ htells)

end SimpleCLIClient

end Odb
