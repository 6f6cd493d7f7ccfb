import Odb.Client.Refinement
import Odb.Client.Talk
import Odb.Server.ConnectionLoss
import Odb.Server.View

/-!
# The dialogue of a client with the debugger

The program runs and its debugger answers requests: those of `run_command` while the program is
stopped, those of `check_stopped` while it is not.

* `Turn`: an instruction of the program, or a request with its response.
* `Told`: what the exchanges made so far say is so.
* `Dialogue.told`: it is, in every state that the dialogue reaches.
* `Dialogue.stays`: a program that is stopped stays where it is until an exchange resumes it.
-/

namespace Odb

open Prog Serial DataClientHandler

/-! ## What the debugger tells -/

/-- What a stopped debugger tells can be sent. -/
structure Debugger.Fits {V : Type} (db : Debugger V) : Prop where
  infos : LawfulSerial.Fits db.infos
  callStack : LawfulSerial.Fits db.callStack

/-! ## What a request is answered -/

namespace DataClientHandler

variable {V : Type} {api : VMApi V} {db db' : Debugger V} {req res : Bytes}

/-- The case `ty` of the switch returned, or an error response was written after what it wrote. -/
def Ended (switch : ReqType → Prog Fault (Session V) Unit) (db : Debugger V) (ty : ReqType)
    (rest : Bytes) (s' : Session V) : Prop :=
  (switch ty).on ⟨db, rest, []⟩ = (.ok (), s') ∨
    ∃ msg s, (switch ty).on ⟨db, rest, []⟩ = (.error (.vmError msg), s) ∧ s'.db = s.db ∧
      s'.os = s.os ++ errResponse (what msg)

/-- How a request was answered: by the case of the switch, or by an error response after what the
case wrote. -/
theorem answer_ended {switch : ReqType → Prog Fault (Session V) Unit} {os : Bytes} {s' : Session V}
    (h : (answer switch).on ⟨db, req, os⟩ = (.ok (), s')) :
    ∃ ty rest, req = ty.toByte :: rest ∧ Ended switch db ty rest s' := by
  obtain _ | ⟨b, rest⟩ := req
  · have hnone : (answer switch).on ⟨db, [], os⟩ = (.error .assertFail, ⟨db, [], []⟩) := rfl
    rw [hnone] at h
    cases h
  · refine ⟨.ofByte b, rest, by rw [DataClient.toByte_ofByte], ?_⟩
    rw [← DataClient.toByte_ofByte b, answer_on, on_handle] at h
    rcases hrun : (switch (.ofByte b)).on ⟨db, rest, []⟩ with ⟨e | u, s⟩ <;> rw [hrun] at h
    · cases e with
      | vmError msg =>
        simp only at h
        rw [on_bind_ok (onOs_on (serialize_type_on .err _)),
          on_bind_ok (onOs_on (writeErr_on _ _))] at h
        obtain ⟨-, rfl⟩ := Prod.mk.inj h
        exact .inr ⟨msg, s, hrun, rfl, by simp [errResponse, ReqType.toByte]⟩
      | _ => cases h
    · obtain ⟨-, rfl⟩ := Prod.mk.inj h
      exact .inl hrun

/-- A `RESUME` that was refused did nothing; else its type is written. -/
theorem reply_resume {req : Req .resume} {rest : Bytes} {r : Except Fault Unit} {s : Session V}
    (h : (reply api req).on ⟨db, rest, []⟩ = (r, s)) :
    s.db = db ∧ s.os = [] ∨ s.os = [ReqType.resume.toByte] := by
  unfold reply at h
  rcases hread : (rh.serverReadRequest req).on rest with ⟨e | req', is⟩
  · rw [on_bind_error (onIs_on hread)] at h
    obtain ⟨-, rfl⟩ := Prod.mk.inj h
    exact .inl ⟨rfl, rfl⟩
  rw [on_bind_ok (onIs_on hread)] at h
  rcases hres : db.toDbControl.resume req'.type with e | c
  · have hserve : (serve api req').on db = (.error e, db) := by
      show ((Debugger.onControl (·.resume req'.type) >>= fun _ => pure req').on db) = _
      rw [on_bind, Debugger.onControl_on, hres]
    rw [on_bind_error (onDb_on hserve)] at h
    obtain ⟨-, rfl⟩ := Prod.mk.inj h
    exact .inl ⟨rfl, rfl⟩
  · have hserve : (serve api req').on db = (.ok req', { db with toDbControl := c }) := by
      show ((Debugger.onControl (·.resume req'.type) >>= fun _ => pure req').on db) = _
      rw [on_bind, Debugger.onControl_on, hres]
      rfl
    rw [on_bind_ok (onDb_on hserve)] at h
    obtain ⟨-, rfl⟩ := Prod.mk.inj h
    exact .inr rfl

/-- A request does calls that are made for its type. -/
theorem Ended.calls {udp : DBClientUpdate} {ty : ReqType} {rest : Bytes} {s' : Session V}
    (h : Ended (runSwitch api udp) db ty rest s') :
    Relation.ReflTransGen (CommandIn api (·.IsFor (Debugger.sized ty))) db s'.db := by
  have hmoves := @runSwitch_moves _ api udp ty ⟨db, rest, []⟩
  rcases h with h | ⟨msg, s, h, hdb, -⟩
  · rw [h] at hmoves
    exact sessionSteps_db hmoves
  · rw [h] at hmoves
    rw [hdb]
    exact sessionSteps_db (hmoves trivial)

theorem runCommand_frame {udp : DBClientUpdate} {os : Bytes} {s' : Session V}
    (h : (runCommand api udp).on ⟨db, req, os⟩ = (.ok (), s')) :
    ∃ ty rest, req = ty.toByte :: rest ∧ Debugger.Frame api [Debugger.sized ty] db s'.db := by
  obtain ⟨ty, rest, rfl, hend⟩ := answer_ended h
  exact ⟨ty, rest, rfl, Debugger.frame_of_type hend.calls⟩

/-- A request that does not resume the program leaves it where it is. -/
theorem runCommand_sameView {udp : DBClientUpdate} {os : Bytes} {s' : Session V}
    (h : (runCommand api udp).on ⟨db, req, os⟩ = (.ok (), s')) (hres : ¬ Resumes (req, s'.os)) :
    Debugger.SameView db s'.db := by
  obtain ⟨ty, rest, rfl, hend⟩ := answer_ended h
  by_cases hstop : ty = .stop
  · subst hstop
    rcases hend with hend | ⟨msg, s, hend, hdb, -⟩
    · cases hend
    · obtain ⟨-, rfl⟩ := Prod.mk.inj hend
      rw [hdb]
      exact .refl db
  by_cases hresume : ty = .resume
  · subst hresume
    rcases hend with hend | ⟨msg, s, hend, hdb, hos⟩
    · rcases reply_resume hend with ⟨hdb, -⟩ | hos
      · rw [hdb]
        exact .refl db
      · exact absurd ⟨rfl, by rw [hos]; rfl⟩ hres
    · rcases reply_resume hend with ⟨hdb', -⟩ | hos'
      · rw [hdb, hdb']
        exact .refl db
      · exact absurd ⟨rfl, by rw [hos, hos']; rfl⟩ hres
  exact Debugger.sameView_of_calls hstop hresume hend.calls

/-- While the program is stopped, a client that asks is told where. -/
theorem runCommand_checkStopped (udp : DBClientUpdate)
    (hst : DbControl.isStopped db.state = true) (hfits : db.Fits) :
    ∃ res, (∀ os, (runCommand api udp).on ⟨db, [ReqType.checkStopped.toByte], os⟩ =
        (.ok (), ⟨db, [], res⟩)) ∧
      @DataClient.response .checkStopped ⟨Serial.blank⟩ res = .ok ⟨db.view⟩ := by
  have hserve : (@serve _ api .checkStopped ⟨{ udp with stack := [] }⟩).on db =
      (.ok ⟨db.view⟩, db) := by
    show (VMSide.checkStopped _ >>= fun outUdp => pure (⟨outUdp⟩ : ReqCheckStopped)).on db = _
    rw [on_bind_ok (VMSide.checkStopped_stopped hst _)]
    rfl
  obtain ⟨q, res, hq, hrun, hres⟩ := @answer_ok _ api .checkStopped (runSwitch api udp) _ _
    ⟨Serial.blank⟩ ⟨{ udp with stack := [] }⟩ ⟨db.view⟩ rfl (by decide)
    ⟨Remote.fits_blank_udp, Nat.zero_le _⟩ hserve hfits.callStack trivial
  obtain rfl : [ReqType.checkStopped.toByte] = q := Except.ok.inj hq
  exact ⟨res, hrun, hres⟩

/-- So is a client that connects. -/
theorem runCommand_connect (udp : DBClientUpdate) (hst : DbControl.isStopped db.state = true)
    (hfits : db.Fits) :
    ∃ res, (∀ os, (runCommand api udp).on ⟨db, [ReqType.connect.toByte], os⟩ =
        (.ok (), ⟨db, [], res⟩)) ∧
      @DataClient.response .connect ⟨Serial.blank, Serial.blank⟩ res = .ok ⟨db.infos, db.view⟩ := by
  have hserve : (@serve _ api .connect ⟨Serial.blank, { udp with stack := [] }⟩).on db =
      (.ok ⟨db.infos, db.view⟩, db) := by
    show (VMSide.connect _ >>= fun p => pure (⟨p.1, p.2⟩ : ReqConnect)).on db = _
    unfold VMSide.connect
    rw [on_bind, on_bind_ok (on_get db), on_bind_ok (VMSide.checkStopped_stopped hst _)]
    rfl
  obtain ⟨q, res, hq, hrun, hres⟩ := @answer_ok _ api .connect (runSwitch api udp) _ _
    ⟨Serial.blank, Serial.blank⟩ ⟨Serial.blank, { udp with stack := [] }⟩ ⟨db.infos, db.view⟩ rfl
    (by decide) ⟨⟨Remote.fits_blank_infos, Remote.fits_blank_udp⟩, Nat.zero_le _⟩ hserve
    ⟨hfits.infos, hfits.callStack⟩ trivial
  obtain rfl : [ReqType.connect.toByte] = q := Except.ok.inj hq
  exact ⟨res, hrun, hres⟩

theorem runCommand_told {udp : DBClientUpdate} {os : Bytes} {s' : Session V}
    (hst : DbControl.isStopped db.state = true) (hfits : db.Fits)
    (h : (runCommand api udp).on ⟨db, req, os⟩ = (.ok (), s')) :
    told (req, s'.os) = some db.view ∨
      told (req, s'.os) = none ∧ req ≠ [ReqType.checkStopped.toByte] := by
  by_cases hcheck : req = [ReqType.checkStopped.toByte]
  · subst hcheck
    obtain ⟨res, hrun, hres⟩ := @runCommand_checkStopped _ api db udp hst hfits
    obtain ⟨-, rfl⟩ := Prod.mk.inj (h.symm.trans (hrun os))
    left
    rw [told, if_pos rfl, hres]
    rfl
  by_cases hconnect : req = [ReqType.connect.toByte]
  · subst hconnect
    obtain ⟨res, hrun, hres⟩ := @runCommand_connect _ api db udp hst hfits
    obtain ⟨-, rfl⟩ := Prod.mk.inj (h.symm.trans (hrun os))
    left
    rw [told, if_neg hcheck, if_pos rfl, hres]
    rfl
  · right
    exact ⟨by rw [told, if_neg hcheck, if_neg hconnect], hcheck⟩

/-- While it is not, a client that asks is told so, or nothing. -/
theorem checkStopped_told {udp : DBClientUpdate} {os : Bytes} {s' : Session V}
    (hst : DbControl.isStopped db.state = false) (hn : db.state ≠ .notStarted)
    (h : (checkStopped api udp).on ⟨db, req, os⟩ = (.ok (), s')) :
    (∃ u, told (req, s'.os) = some u ∧ u.stopped = false) ∨
      told (req, s'.os) = none ∧ req ≠ [ReqType.checkStopped.toByte] := by
  by_cases hcheck : req = [ReqType.checkStopped.toByte]
  · subst hcheck
    have hserve : (@serve _ api .checkStopped ⟨{ udp with stack := [] }⟩).on db =
        (.ok ⟨{ udp with stopped := false, stack := [] }⟩, db) := by
      show (VMSide.checkStopped _ >>= fun outUdp => pure (⟨outUdp⟩ : ReqCheckStopped)).on db = _
      rw [on_bind_ok (VMSide.checkStopped_running hst hn _)]
      rfl
    obtain ⟨q, x, hq, hrun, hx⟩ := @answer_ok _ api .checkStopped (checkSwitch api udp) _ _
      ⟨Serial.blank⟩ ⟨{ udp with stack := [] }⟩ ⟨{ udp with stopped := false, stack := [] }⟩ rfl
      (by decide) ⟨Remote.fits_blank_udp, Nat.zero_le _⟩ hserve Remote.fits_blank_udp trivial
    obtain rfl : [ReqType.checkStopped.toByte] = q := Except.ok.inj hq
    obtain ⟨-, rfl⟩ := Prod.mk.inj (h.symm.trans (hrun os))
    refine .inl ⟨{ udp with stopped := false, stack := [] }, ?_, rfl⟩
    rw [told, if_pos rfl, hx]
    rfl
  by_cases hconnect : req = [ReqType.connect.toByte]
  · subst hconnect
    have hrun : (checkStopped api udp).on ⟨db, [ReqType.connect.toByte], os⟩ = (.ok (), ⟨db, [],
        errResponse (what (lit "Only stop and check stopped request can be sent while VM running"))⟩) :=
      answer_error rfl
    obtain ⟨-, rfl⟩ := Prod.mk.inj (h.symm.trans hrun)
    right
    refine ⟨?_, hcheck⟩
    rw [told, if_neg hcheck, if_pos rfl, response_err _ (by decide)]
    rfl
  · right
    exact ⟨by rw [told, if_neg hcheck, if_neg hconnect], hcheck⟩

end DataClientHandler

/-! ## The dialogue -/

/-- The debugger, and the exchanges of the client with it. -/
abbrev Dialogue (V : Type) := Debugger V × List Exchange

namespace Dialogue

variable {V : Type} (api : VMApi V)

/-- The program executes an instruction, or a request is answered. -/
inductive Turn : Dialogue V → Dialogue V → Prop where
  | instr {db db' : Debugger V} {exs : List Exchange} {udp : UpdateInfos} :
      Debugger.Step api db (.update udp) db' → Turn (db, exs) (db', exs)
  | runCommand {db db' : Debugger V} {exs : List Exchange} {req res : Bytes} :
      DbControl.isStopped db.state = true → serveRequest api .runCommand db req db' res →
      Turn (db, exs) (db', exs ++ [(req, res)])
  | checkStopped {db db' : Debugger V} {exs : List Exchange} {req res : Bytes} :
      DbControl.isStopped db.state = false → serveRequest api .checkStopped db req db' res →
      Turn (db, exs) (db', exs ++ [(req, res)])

/-- It begins with a stopped program; what there is to tell can be sent. -/
def machine : Machine (Dialogue V) where
  Init d := DbControl.isStopped d.1.state = true ∧ d.2 = [] ∧ d.1.Fits
  Step d d' := Turn api d d' ∧ d'.1.Fits

variable {api} {d d' : Dialogue V}

/-- What the exchanges say is so. -/
structure Told (d : Dialogue V) : Prop where
  started : d.1.state ≠ .notStarted
  fits : d.1.Fits
  known : ∀ u, known d.2 = some u → DbControl.isStopped d.1.state = true ∧ u = d.1.view
  checked : DBClient.Checked d.2

theorem Told.unknown (h : Told d) (hst : DbControl.isStopped d.1.state = false) :
    Odb.known d.2 = none := by
  cases hk : Odb.known d.2 with
  | none => rfl
  | some u =>
    rw [(h.known u hk).1] at hst
    cases hst

theorem checked_concat {exs : List Exchange} {x : Exchange} (h : DBClient.Checked exs)
    (hx : x.1 = [ReqType.checkStopped.toByte] → (told x).isSome) : DBClient.Checked (exs ++ [x]) := by
  intro y hy
  rcases List.mem_append.mp hy with hy | hy
  · exact h y hy
  · rw [List.mem_singleton.mp hy]
    exact hx

/-- Every turn keeps that what the exchanges say is so. -/
theorem Turn.told (h : Turn api d d') (ht : Told d) (hfits : d'.1.Fits) : Told d' := by
  obtain ⟨hn, hf, hk, hc⟩ := ht
  cases h with
  | instr hst =>
    have hnone := Told.unknown ⟨hn, hf, hk, hc⟩ hst.not_stopped
    refine ⟨(ServerApp.update_finished hst.control).1, hfits, fun u hu => ?_, hc⟩
    rw [show Odb.known _ = none from hnone] at hu
    cases hu
  | @runCommand db db' exs req res hst hserve =>
    obtain ⟨udp, os, is', hrun⟩ := hserve
    have htold := runCommand_told hst hf hrun
    have hsame := runCommand_sameView hrun
    have hn' := (ServerApp.sameEnd_commands (runCommand_commands hrun)).1 hn
    refine ⟨hn', hfits, fun u hu => ?_, checked_concat hc fun hx => ?_⟩
    · rw [known_concat] at hu
      rcases htold with htold | ⟨htold, -⟩
      · have hv := hsame (not_resumes_of_told htold)
        rw [know_told htold] at hu
        obtain rfl := Option.some.inj hu
        exact ⟨hv.state ▸ hst, hv.view_eq.symm⟩
      · rw [know, htold] at hu
        simp only at hu
        split at hu
        · cases hu
        · next hno =>
          have hv := hsame hno
          obtain ⟨hst', rfl⟩ := hk u hu
          exact ⟨hv.state ▸ hst', hv.view_eq.symm⟩
    · rcases htold with htold | ⟨-, hne⟩
      · rw [htold]
        rfl
      · exact absurd hx hne
  | @checkStopped db db' exs req res hst hserve =>
    obtain ⟨udp, os, is', hrun⟩ := hserve
    have hnone := Told.unknown ⟨hn, hf, hk, hc⟩ hst
    have htold := checkStopped_told hst hn hrun
    have hn' : db'.state ≠ .notStarted := by
      rcases checkStopped_stop hrun with hdb | hdb
      · rw [show db' = db from hdb]
        exact hn
      · exact (ServerApp.sameEnd_stopped hdb).1 hn
    refine ⟨hn', hfits, fun u hu => ?_, checked_concat hc fun hx => ?_⟩
    · rw [known_concat, show Odb.known exs = none from hnone] at hu
      rcases htold with ⟨v, htold, hv⟩ | ⟨htold, -⟩
      · rw [know_told htold, hv] at hu
        cases hu
      · rw [know, htold] at hu
        simp at hu
    · rcases htold with ⟨v, htold, -⟩ | ⟨-, hne⟩
      · rw [htold]
        rfl
      · exact absurd hx hne

/-- In every state that the dialogue reaches. -/
theorem told (h : (machine api).Reachable d) : Told d := by
  refine h.invariant (fun d hd => ?_) fun d d' _ ht ⟨hturn, hfits⟩ => hturn.told ht hfits
  obtain ⟨hst, hexs, hfits⟩ := hd
  refine ⟨fun hn => ?_, hfits, fun u hu => ?_, fun x hx => ?_⟩
  · rw [hn] at hst
    cases hst
  · rw [hexs] at hu
    cases hu
  · rw [hexs] at hx
    cases hx

/-- A stopped program stays where it is until an exchange resumes it. -/
theorem stays (hst : DbControl.isStopped d.1.state = true) (h : (machine api).Steps d d') :
    ∃ more, d'.2 = d.2 ++ more ∧ ((∀ x ∈ more, ¬ Resumes x) → Debugger.SameView d.1 d'.1) := by
  induction h with
  | refl => exact ⟨[], (List.append_nil _).symm, fun _ => .refl _⟩
  | @tail d₁ d₂ _ hturn ih =>
    obtain ⟨more, hexs, hsame⟩ := ih
    have hmore {x : Exchange} (hno : ∀ y ∈ more ++ [x], ¬ Resumes y) :
        Debugger.SameView d.1 d₁.1 := hsame fun y hy => hno y (List.mem_append_left _ hy)
    cases hturn.1 with
    | instr hstep =>
      refine ⟨more, hexs, fun hno => ?_⟩
      have hrun := hstep.not_stopped
      rw [(hsame hno).state, hst] at hrun
      cases hrun
    | @runCommand db db' exs req res _ hserve =>
      obtain ⟨udp, os, is', hrun⟩ := hserve
      refine ⟨more ++ [(req, res)], by rw [← List.append_assoc, ← hexs], fun hno => ?_⟩
      exact (hmore hno).trans (runCommand_sameView hrun
        (hno _ (List.mem_append_right _ (List.mem_singleton.mpr rfl))))
    | @checkStopped db db' exs req res hrunning _ =>
      refine ⟨more ++ [(req, res)], by rw [← List.append_assoc, ← hexs], fun hno => ?_⟩
      rw [(hmore hno).state, hst] at hrunning
      cases hrunning

/-- Exchanges are not taken back. -/
theorem grows (h : (machine api).Steps d d') : d.2 <+: d'.2 := by
  induction h with
  | refl => exact List.prefix_rfl
  | tail _ hturn ih =>
    cases hturn.1 with
    | instr => exact ih
    | runCommand | checkStopped => exact ih.trans (List.prefix_append _ _)

/-- The next request after the program stopped is answered where it stopped. -/
theorem stopped_answer (hst : DbControl.isStopped d.1.state = true)
    (h : (machine api).Steps d d') {x : Exchange} {more : List Exchange}
    (hx : d'.2 = d.2 ++ x :: more) : ∃ db, serveRequest api .runCommand d.1 x.1 db x.2 := by
  rcases h.cases_head with rfl | ⟨d₁, hturn, hs⟩
  · simp at hx
  · cases hturn.1 with
    | instr hstep =>
      rw [hstep.not_stopped] at hst
      cases hst
    | checkStopped hrunning =>
      rw [hrunning] at hst
      cases hst
    | @runCommand db db' exs req res _ hserve =>
      obtain ⟨rest, hrest⟩ := grows hs
      rw [hx, List.append_assoc, List.append_cancel_left_eq] at hrest
      obtain rfl : (req, res) = x := List.head_eq_of_cons_eq hrest
      exact ⟨db', hserve⟩

end Dialogue

end Odb
