import Odb.Client.Remote
import Odb.Mess.ClientMoves
import Odb.Mess.Writes
import Odb.Server.Serve

/-!
# The client over the exchanges it made

A client in another process makes one exchange after the other, of a request and its response. Its
calls are run again on the exchanges that were made.

* `DataClient.replay`: a transport that gives the responses of the recorded exchanges.
* `told`, `Resumes`, `known`: what the exchanges say about the program.
* `telling`: the requests that say something about it, or resume it; `impl_moves`: a call that makes
  another one says nothing.
-/

namespace Odb

open Prog

/-- A request and its response. -/
abbrev Exchange := Bytes × Bytes

/-- The failures after which a client goes on: exceptions. -/
def Thrown : Fault → Prop
  | .vmError _ | .stdException => True
  | .assertFail | .undefined => False

namespace DataClient

/-- A transport that expects the recorded requests and gives their responses. -/
def replay (req : Bytes) : Prog Fault (List Exchange) Bytes := .of fun exs =>
  match exs with
  | x :: rest => if x.1 = req then (.ok x.2, rest) else (.error .undefined, x :: rest)
  | [] => (.error .undefined, [])

end DataClient

/-! ## What an exchange says -/

/-- The update that the client got for a `CHECK_STOPPED` or a `CONNECT`. -/
def told (x : Exchange) : Option DBClientUpdate :=
  if x.1 = [ReqType.checkStopped.toByte] then
    (@DataClient.response .checkStopped ⟨Serial.blank⟩ x.2).toOption.map fun req => req.outUdp
  else if x.1 = [ReqType.connect.toByte] then
    (@DataClient.response .connect ⟨Serial.blank, Serial.blank⟩ x.2).toOption.map fun req =>
      req.outUdp
  else none

/-- A `RESUME` that succeeded. -/
def Resumes (x : Exchange) : Prop :=
  x.1.head? = some ReqType.resume.toByte ∧ x.2.head? = some ReqType.resume.toByte

instance (x : Exchange) : Decidable (Resumes x) := inferInstanceAs (Decidable (_ ∧ _))

/-- What is known after one more exchange. -/
def know (k : Option DBClientUpdate) (x : Exchange) : Option DBClientUpdate :=
  match told x with
  | some udp => if udp.stopped then some udp else none
  | none => if Resumes x then none else k

/-- Where the program is stopped, as far as the exchanges say. -/
def known (exs : List Exchange) : Option DBClientUpdate := exs.foldl know none

/-- An exchange that says nothing about it. -/
def Plain (x : Exchange) : Prop := told x = none ∧ ¬ Resumes x

theorem known_concat (exs : List Exchange) (x : Exchange) :
    known (exs ++ [x]) = know (known exs) x := List.foldl_concat ..

/-- What tells something does not resume the program. -/
theorem not_resumes_of_told {x : Exchange} {udp : DBClientUpdate} (h : told x = some udp) :
    ¬ Resumes x := by
  rintro ⟨hreq, -⟩
  unfold told at h
  split at h
  · next hx =>
    rw [hx] at hreq
    cases hreq
  · split at h
    · next hx =>
      rw [hx] at hreq
      cases hreq
    · cases h

theorem know_told {k : Option DBClientUpdate} {x : Exchange} {udp : DBClientUpdate}
    (h : told x = some udp) : know k x = if udp.stopped then some udp else none := by
  rw [know, h]

theorem Plain.know {x : Exchange} (h : Plain x) (k : Option DBClientUpdate) : know k x = k := by
  rw [Odb.know, h.1]
  exact if_neg h.2

theorem known_plain {exs more : List Exchange} (h : ∀ x ∈ more, Plain x) :
    known (exs ++ more) = known exs := by
  induction more generalizing exs with
  | nil => rw [List.append_nil]
  | cons x more ih =>
    rw [List.forall_mem_cons] at h
    rw [List.append_cons, ih h.2, known_concat, h.1.know]

theorem toByte_ne {ty ty' : ReqType} (h : ty ≠ ty') : ty.toByte ≠ ty'.toByte := fun hb =>
  h (by rw [← ty.ofByte_toByte, hb, ReqType.ofByte_toByte])

/-- The requests that say something are known by their type. -/
theorem told_of_head {x : Exchange} {ty : ReqType} (h : x.1.head? = some ty.toByte)
    (hcheck : ty ≠ .checkStopped) (hconnect : ty ≠ .connect) : told x = none := by
  have hreq {ty' : ReqType} (hne : ty ≠ ty') : x.1 ≠ [ty'.toByte] := by
    intro heq
    rw [heq] at h
    exact toByte_ne hne (Option.some.inj h).symm
  rw [told, if_neg (hreq hcheck), if_neg (hreq hconnect)]

/-- The requests that say something, or resume the program. -/
def telling : List ReqType := [.connect, .checkStopped, .resume]

/-- A request of another type. -/
def Aside (req : Bytes) : Prop := ∃ ty ∉ telling, req.head? = some ty.toByte

theorem Aside.plain {x : Exchange} (h : Aside x.1) : Plain x := by
  obtain ⟨ty, hty, hhead⟩ := h
  have hne (ty' : ReqType) (hmem : ty' ∈ telling) : ty ≠ ty' := fun heq => hty (heq ▸ hmem)
  refine ⟨told_of_head hhead (hne _ (by decide)) (hne _ (by decide)), fun hr => ?_⟩
  exact toByte_ne (hne .resume (by decide)) (Option.some.inj (hhead.symm.trans hr.1))

/-! ## What a call says -/

namespace DataClient

/-- One of the recorded exchanges is made. -/
def Drops (exs exs' : List Exchange) : Prop := ∃ x, exs = x :: exs' ∧ Aside x.1

/-- Every request begins with its type. -/
theorem request_head {ty : ReqType} {r : Req ty} {q : Bytes} (h : request r = .ok q) :
    q.head? = some ty.toByte := by
  unfold request written at h
  rw [on_bind_ok (serialize_type_on ty [])] at h
  rcases hrun : (prepareRequest .cliSend r).on ([] ++ [ty.toByte]) with ⟨e | r', out⟩ <;>
    rw [show (rh.clientWriteRequest r).on ([] ++ [ty.toByte]) = _ from hrun] at h
  · cases h
  · obtain rfl := Except.ok.inj h
    obtain ⟨rest, rfl⟩ := (Req.appends r).isPrefix hrun
    rfl

/-- A request that is sent, or an object that cannot be written. -/
theorem sendReq_replay {ty : ReqType} {r : Req ty} {exs exs' : List Exchange}
    {res : Except Fault (Req ty)} (h : (sendReq replay r).on exs = (res, exs'))
    (hres : res ≠ .error .undefined) :
    (∃ e, request r = .error e ∧ res = .error e ∧ exs' = exs) ∨
      ∃ q x, request r = .ok q ∧ exs = (q, x) :: exs' ∧ response r x = res := by
  unfold sendReq at h
  rcases hreq : request r with e | q
  · rw [hreq, lift_error, throw_bind] at h
    obtain ⟨rfl, rfl⟩ := Prod.mk.inj h
    exact .inl ⟨e, rfl, rfl, rfl⟩
  · rw [hreq, lift_ok, pure_bind] at h
    have hstuck (hrun : (replay q).on exs = (.error .undefined, exs)) : False := by
      rw [on_bind_error hrun] at h
      exact hres (Prod.mk.inj h).1.symm
    obtain _ | ⟨⟨q', x⟩, rest⟩ := exs
    · exact (hstuck rfl).elim
    by_cases hq : q' = q
    · subst hq
      rw [on_bind_ok (show (replay q').on ((q', x) :: rest) = (.ok x, rest) from if_pos rfl)] at h
      obtain ⟨rfl, rfl⟩ := Prod.mk.inj h
      exact .inr ⟨q', x, rfl, rfl, rfl⟩
    · exact (hstuck (if_neg hq)).elim

theorem sendReq_drops {ty : ReqType} {r : Req ty} {exs exs' : List Exchange}
    {res : Except Fault (Req ty)} (h : (sendReq replay r).on exs = (res, exs'))
    (hres : res ≠ .error .undefined) (hty : ty ∉ telling) :
    Relation.ReflTransGen Drops exs exs' := by
  rcases sendReq_replay h hres with ⟨-, -, -, rfl⟩ | ⟨q, x, hq, rfl, -⟩
  · exact .refl
  · exact .single ⟨_, rfl, ty, hty, request_head hq⟩

/-- A request of another kind. -/
theorem sendReq_moves {ty : ReqType} (r : Req ty) (hty : ty ∉ telling) :
    Moves Drops Thrown (sendReq replay r) := by
  intro exs
  rcases h : (sendReq replay r).on exs with ⟨e | r', exs'⟩
  · intro he
    refine sendReq_drops h (fun hu => ?_) hty
    cases hu
    cases he
  · exact sendReq_drops h (by simp) hty

theorem oneSize_moves (sizes : List VmSize) (n : Nat) :
    Moves Drops Thrown (Prog.lift (oneSize sizes n)) := .of_keeps (.lift _)

theorem impl_moves {α : Type} (k : ImplCall α) (hk : k.type ∉ telling) :
    Moves Drops Thrown (impl replay k) := by
  have hret {β : Type} (b : β) : Moves Drops Thrown (pure b : Prog Fault (List Exchange) β) :=
    .of_keeps (.ret b)
  have hsend {β : Type} (ty : ReqType) (r : Req ty) (f : Req ty → β)
      (h : ty ∉ telling) :
      Moves Drops Thrown (sendReq replay r >>= fun r => pure (f r)) :=
    .bind (sendReq_moves r h) fun _ => hret _
  cases k with
  | connect | checkStopped | resume => simp [ImplCall.type, telling] at hk
  | getRegs ids outBufs sizes =>
    refine .ite (hret _) (.bind (oneSize_moves _ _) fun one => ?_)
    refine .ite (.bind (.of_keeps (.lift _)) fun _ => ?_) ?_
    · exact hsend .getRegs _ _ (by decide)
    · exact hsend .getRegsVar _ _ (by decide)
  | setRegs ids inBufs sizes =>
    refine .ite (hret _) (.bind (oneSize_moves _ _) fun one => ?_)
    refine .ite (.bind (.of_keeps (.lift _)) fun _ => ?_) ?_
    · exact hsend .setRegs _ _ (by decide)
    · exact hsend .setRegsVar _ _ (by decide)
  | readMem => exact .ite (hret _) (hsend .readMemVar _ _ (by decide))
  | writeMem => exact .ite (hret _) (hsend .writeMemVar _ _ (by decide))
  | stop => exact hsend .stop _ _ (by decide)
  | getRegsInfos => exact hsend .getRegsInfos _ _ (by decide)
  | findRegsIds => exact hsend .findRegsIds _ _ (by decide)
  | getSymbolsByIds => exact hsend .getSymsByIds _ _ (by decide)
  | getSymbolsByAddr => exact hsend .getSymsByAddr _ _ (by decide)
  | getSymbolsByNames => exact hsend .getSymsByNames _ _ (by decide)
  | getCodeText => exact hsend .getCodeText _ _ (by decide)
  | addBreakpoints => exact hsend .addBkps _ _ (by decide)
  | delBreakpoints => exact hsend .delBkps _ _ (by decide)

end DataClient

/-! ## The calls of the client -/

namespace DBClient

theorem cacheSteps_run {w w' : World (List Exchange)}
    (h : Relation.ReflTransGen (CacheStep DataClient.Drops) w w') :
    w'.client.state = w.client.state ∧ w'.client.udp = w.client.udp ∧
      ∃ made, w.impl = made ++ w'.impl ∧ ∀ x ∈ made, Aside x.1 := by
  induction h with
  | refl => exact ⟨rfl, rfl, [], rfl, by simp⟩
  | tail _ hst ih =>
    obtain ⟨hstate, hudp, made, hmade, haside⟩ := ih
    obtain ⟨hstate', hudp', himpl⟩ := hst
    refine ⟨hstate'.trans hstate, hudp'.trans hudp, ?_⟩
    rcases himpl with himpl | ⟨x, himpl, hx⟩
    · exact ⟨made, by rw [hmade, himpl], haside⟩
    · refine ⟨made ++ [x], by rw [hmade, himpl, List.append_cons], fun y hy => ?_⟩
      rcases List.mem_append.mp hy with hy | hy
      · exact haside y hy
      · rwa [List.mem_singleton.mp hy]

/-- A call that does not change the state of the client makes exchanges that say nothing. -/
theorem ApiCall.silent {α : Type} {k : ApiCall α} (hk : k.Quiet) :
    CacheMoves DataClient.Drops Thrown (k.exec (DataClient.impl DataClient.replay)) := by
  refine k.moves hk fun β i hi => DataClient.impl_moves i fun htell => ?_
  have hdisj : ∀ ty ∈ k.types, ty ∉ telling := by
    cases k with
    | connect | stop | checkStopped | resume => cases hk
    | _ => simp [ApiCall.types, telling]
  exact hdisj _ hi htell

end DBClient

end Odb
