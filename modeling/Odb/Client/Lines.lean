import Odb.Client.Talk
import Odb.Mess.CommandMoves
import Odb.Mess.StateText
import Odb.Server.CommandLines

/-!
# Command lines over the exchanges they make

A `SimpleCLIClient` in another process than the debugger.

* `MakesLine`: a command line that makes certain exchanges.
* `MakesLine.quiet`, `MakesLine.resume`: lines that leave the program where it is, and the others.
* `MakesLine.known`: a line keeps that a client which takes the program for stopped knows where.
-/

namespace Odb

open Prog

namespace SimpleCLIClient

open DBClient (World)

variable {F : Floats} {line : Bytes} {c c' : DBClient} {exs more : List Exchange} {text : Bytes}

/-- From the client `c`, the command line makes these exchanges, and returns or throws. -/
def MakesLine (F : Floats) (line : Bytes) (c : DBClient) (more : List Exchange)
    (r : Except Fault Bytes) (c' : DBClient) : Prop :=
  (exec F (DataClient.impl DataClient.replay) line).on ⟨c, more⟩ = (r, ⟨c', []⟩) ∧
    ∀ e, r = .error e → Thrown e

theorem replay_asks {types : List ReqType} (h : ∀ ty ∈ types, ty ∉ telling) :
    Asks (DataClient.impl DataClient.replay) DataClient.Drops Caught types := by
  intro β i hi exs
  have hmoves := DataClient.impl_moves i (h _ hi) exs
  rcases hrun : (DataClient.impl DataClient.replay i).on exs with ⟨e | b, exs'⟩ <;>
    rw [hrun] at hmoves
  · intro he
    cases e <;> first | exact hmoves trivial | cases he
  · exact hmoves

theorem not_telling {name : Bytes} {ty : ReqType} (h : ty ∈ asks name)
    (hres : .resume ∉ asks name) : ty ∉ telling := by
  intro htell
  simp only [telling, List.mem_cons, List.not_mem_nil, or_false] at htell
  rcases htell with rfl | rfl | rfl
  · have := mem_asking (List.mem_singleton_self ReqType.connect) h
    cases this
  · have := mem_asking (List.mem_singleton_self ReqType.checkStopped) h
    cases this
  · exact hres h

/-- A line that does not resume the program makes exchanges that say nothing. -/
theorem MakesLine.quiet (h : MakesLine F line c more (.ok text) c')
    (hres : .resume ∉ asks (command line)) :
    c'.state = c.state ∧ c'.udp = c.udp ∧ ∀ x ∈ more, Plain x := by
  have hmoves := exec_moves (F := F) (replay_asks fun ty hty => not_telling hty hres) ⟨c, more⟩
  rw [h.1] at hmoves
  have hsteps : Relation.ReflTransGen (DBClient.CacheStep DataClient.Drops) ⟨c, more⟩ ⟨c', []⟩ :=
    Relation.ReflTransGen.mono (fun w w' hst => ⟨hst.2.2.resolve_right fun hr => hres hr.1, hst.1,
      hst.2.1⟩) _ _ hmoves
  obtain ⟨hstate, hudp, made, hmade, haside⟩ := DBClient.cacheSteps_run hsteps
  obtain rfl : more = made := hmade.trans (List.append_nil made)
  exact ⟨hstate, hudp, fun x hx => (haside x hx).plain⟩

/-- Another line is a `resume`. -/
theorem MakesLine.resume (h : MakesLine F line c more (.ok text) c')
    (hres : .resume ∈ asks (command line)) :
    ∃ type r, DBClient.Makes (.resume type) c more r c' := by
  obtain ⟨hrun, -⟩ := h
  unfold command at hres
  unfold exec at hrun
  cases hw : words line with
  | nil =>
    rw [hw] at hres
    cases hres
  | cons name args =>
    rw [hw] at hrun hres
    obtain ⟨type, -, -, -, hdisp⟩ := @dispatch_resume F _ (DataClient.impl DataClient.replay)
      (name :: args) name hres
    simp only at hrun
    rw [hdisp, on_handle, on_bind] at hrun
    refine ⟨type, ((DBClient.resume (DataClient.impl DataClient.replay) type).on ⟨c, more⟩).1, ?_,
      ?_⟩
    · rcases hr : (DBClient.resume (DataClient.impl DataClient.replay) type).on ⟨c, more⟩ with
        ⟨e | u, w⟩
      · rw [hr] at hrun
        cases e with
        | vmError msg =>
          obtain ⟨-, rfl⟩ := Prod.mk.inj hrun
          exact hr
        | _ => cases hrun
      · rw [hr] at hrun
        obtain ⟨-, rfl⟩ := Prod.mk.inj hrun
        exact hr
    · intro e he
      rcases hr : (DBClient.resume (DataClient.impl DataClient.replay) type).on ⟨c, more⟩ with
        ⟨e' | u, w⟩ <;> rw [hr] at hrun he
      · obtain rfl := Except.error.inj he
        cases e' with
        | vmError msg => trivial
        | _ => cases hrun
      · cases he

/-- A line does not change where the client takes the program to be. -/
theorem MakesLine.known (h : MakesLine F line c more (.ok text) c')
    (hknown : c.state = .vmStopped → known exs = some c.udp) :
    c'.udp = c.udp ∧ (c'.state = .vmStopped → known (exs ++ more) = some c'.udp) := by
  by_cases hres : .resume ∈ asks (command line)
  · obtain ⟨type, r, hmakes⟩ := h.resume hres
    obtain ⟨hc, x, rfl, hhead, hiff, ⟨e, rfl, rfl⟩ | ⟨-, rfl⟩⟩ := hmakes.resume
    · have hplain : Plain x :=
        ⟨told_of_head hhead (by decide) (by decide), fun hx => by cases hiff.mp hx⟩
      refine ⟨rfl, fun _ => ?_⟩
      rw [known_concat, hplain.know]
      exact hknown hc
    · exact ⟨rfl, fun hst => by cases hst⟩
  · obtain ⟨hstate, hudp, hplain⟩ := h.quiet hres
    refine ⟨hudp, fun hst => ?_⟩
    rw [known_plain hplain, hudp]
    exact hknown (hstate.symm.trans hst)

/-- The text is the report of `state`, or the message of a response that refuses the symbols. -/
def Reported (udp : DBClientUpdate) (exs : List Exchange) (text : Bytes) : Prop :=
  Tells udp text ∨ ∃ addr msg, text = lit "Error: " ++ msg ∧ ∃ q x, (q, x) ∈ exs ∧
    @DataClient.request .getSymsByAddr ⟨addr, 1, []⟩ = .ok q ∧
    @DataClient.response .getSymsByAddr ⟨addr, 1, []⟩ x = .error (.vmError msg)

theorem Reported.mono {udp : DBClientUpdate} (h : Reported udp more text) (hsub : more ⊆ exs) :
    Reported udp exs text := by
  rcases h with htells | ⟨addr, msg, htext, q, x, hx, hq⟩
  · exact .inl htells
  · exact .inr ⟨addr, msg, htext, q, x, hsub hx, hq⟩

/-- A line begins with its command. -/
theorem command_append {name args : Bytes} (hne : name ≠ [])
    (hname : ∀ c ∈ name, Stoll.isSpace c = false) : command (name ++ 32 :: args) = name := by
  unfold command words
  rw [List.splitOnP_append_cons_of_forall_mem hname 32 rfl, List.filter_cons_of_pos (by simpa)]
  rfl

/-- `state` reports where the client takes the program to be. -/
theorem MakesLine.reported (h : MakesLine F (lit "state") c more (.ok text) c')
    (hc : c.state = .vmStopped) : Reported c.udp more text := by
  rcases @exec_state F _ _ ⟨c, more⟩ _ _ hc h.1 with htells | ⟨addr, msg, i, hsyms, rfl⟩
  · exact .inl htells
  · refine .inr ⟨addr, msg, rfl, ?_⟩
    replace hsyms : (DataClient.getSymbolsByAddr DataClient.replay addr 1).on more =
      (.error (.vmError msg), i) := hsyms
    unfold DataClient.getSymbolsByAddr at hsyms
    rw [on_bind_pure] at hsyms
    rcases hrun : (@DataClient.sendReq _ DataClient.replay .getSymsByAddr ⟨addr, 1, []⟩).on more
      with ⟨r, exs'⟩
    rw [hrun] at hsyms
    obtain ⟨hr, rfl⟩ := Prod.mk.inj hsyms
    obtain rfl : r = .error (.vmError msg) := by
      rcases r with e | r
      · exact congrArg Except.error (Except.error.inj hr)
      · cases hr
    obtain ⟨q, hq⟩ : ∃ q, @DataClient.request .getSymsByAddr ⟨addr, 1, []⟩ = .ok q := ⟨_, rfl⟩
    rcases DataClient.sendReq_replay hrun (by simp) with ⟨e, he, -⟩ | ⟨q', x, hq', rfl, hx⟩
    · cases hq.symm.trans he
    · exact ⟨q', x, List.mem_cons_self, hq', hx⟩

/-- A `state` whose symbols are refused. -/
theorem state_refused {ci : CallInfos} {q x msg : Bytes} (hc : c.state = .vmStopped)
    (hci : c.udp.stack.getLast? = some ci)
    (hq : @DataClient.request .getSymsByAddr ⟨ci.callerStartAddr, 1, []⟩ = .ok q)
    (hx : @DataClient.response .getSymsByAddr ⟨ci.callerStartAddr, 1, []⟩ x =
      .error (.vmError msg)) :
    MakesLine F (lit "state") c [(q, x)] (.ok (lit "Error: " ++ msg)) c := by
  refine ⟨?_, fun e he => by cases he⟩
  have hreplay : (DataClient.replay q).on [(q, x)] = (.ok x, []) := if_pos rfl
  have hsyms : (DataClient.impl DataClient.replay (.getSymbolsByAddr ci.callerStartAddr 1)).on
      [(q, x)] = (.error (.vmError msg), []) := by
    show (DataClient.getSymbolsByAddr DataClient.replay _ _).on _ = _
    unfold DataClient.getSymbolsByAddr DataClient.sendReq
    rw [on_bind_pure, hq, lift_ok, pure_bind, on_bind_ok hreplay, on_lift, hx]
    rfl
  have hitem : item c.udp.stack.getLast? = .ok ci := by rw [hci]; rfl
  have hstate : (cmdState (DataClient.impl DataClient.replay)).on ⟨c, [(q, x)]⟩ =
      (.error (.vmError msg), ⟨c, []⟩) := by
    unfold cmdState DBClient.getExecutionPoint DBClient.getStoppedState DBClient.getCallStack
      DBClient.getSymbolsByAddr
    rw [on_bind_ok (DBClient.getter_on hc), on_bind_ok (DBClient.getter_on hc),
      on_bind_ok (DBClient.getter_on hc), hitem, on_bind_ok (on_lift _ _)]
    dsimp only
    rw [on_bind_error (DBClient.forward_on (w := ⟨c, [(q, x)]⟩) hc hsyms)]
  rw [exec_state_eq, on_handle, hstate]
  rfl

/-- A `code` whose text is refused. -/
theorem code_refused {args : List Bytes} {n : VmSize} {q x msg : Bytes} (hc : c.state = .vmStopped)
    (hwords : words line = lit "code" :: args) (hn : lineCount (lit "code" :: args) = .ok n)
    (hq : @DataClient.request .getCodeText ⟨startAddr c.udp.addr n, 2 * n + 1, [], []⟩ = .ok q)
    (hx : @DataClient.response .getCodeText ⟨startAddr c.udp.addr n, 2 * n + 1, [], []⟩ x =
      .error (.vmError msg)) :
    MakesLine F line c [(q, x)] (.ok (lit "Error: " ++ msg)) c := by
  refine ⟨?_, fun e he => by cases he⟩
  have hreplay : (DataClient.replay q).on [(q, x)] = (.ok x, []) := if_pos rfl
  have htext : (DataClient.impl DataClient.replay (.getCodeText (startAddr c.udp.addr n)
      (2 * n + 1))).on [(q, x)] = (.error (.vmError msg), []) := by
    show (DataClient.getCodeText DataClient.replay _ _).on _ = _
    unfold DataClient.getCodeText DataClient.sendReq
    rw [on_bind_pure, hq, lift_ok, pure_bind, on_bind_ok hreplay, on_lift, hx]
    rfl
  have hcode : (cmdCode (DataClient.impl DataClient.replay) (lit "code" :: args)).on
      ⟨c, [(q, x)]⟩ = (.error (.vmError msg), ⟨c, []⟩) := by
    unfold cmdCode DBClient.getExecutionPoint DBClient.getCodeText
    rw [on_bind_ok (DBClient.getter_on hc), hn, lift_ok, pure_bind]
    exact on_bind_error (DBClient.forward_on (w := ⟨c, [(q, x)]⟩) hc htext) _
  have hdispatch : dispatch F (DataClient.impl DataClient.replay) (lit "code" :: args)
      (lit "code") = cmdCode (DataClient.impl DataClient.replay) (lit "code" :: args) := rfl
  unfold exec
  rw [hwords]
  dsimp only
  rw [hdispatch, on_handle, hcode]
  rfl

end SimpleCLIClient

namespace DBClient

theorem Makes.checkStopped_state {c c' : DBClient} {more : List Exchange} {r : Except Fault Unit}
    (h : Makes .checkStopped c more r c') : c'.state = .vmRunning ∨ c'.state = .vmStopped := by
  obtain ⟨hstate, x, rfl, ⟨-, rfl⟩ | ⟨-, udp, -, rfl⟩⟩ := h.checkStopped
  · exact .inl hstate
  · split
    · exact .inr rfl
    · exact .inl rfl

/-- A `connect` that returns was told whether the program is stopped. -/
theorem Makes.connect_returns {c c' : DBClient} {more : List Exchange}
    (h : Makes .connect c more (.ok ()) c') : ∃ x udp, more = [([ReqType.connect.toByte], x)] ∧
      told ([ReqType.connect.toByte], x) = some udp ∧
      (udp.stopped = true → c'.state = .vmStopped) := by
  obtain ⟨-, ⟨infos, udp⟩, i, hcall, hw⟩ := connect_ok.mp h.1
  obtain ⟨x, hmore, htold⟩ := DataClient.connect_replay hcall (by simp)
  obtain ⟨rfl, rfl⟩ := DBClient.World.mk.inj hw
  exact ⟨x, udp, hmore, htold, fun hst => if_pos hst⟩

end DBClient

end Odb
