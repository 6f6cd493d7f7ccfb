import Odb.Client.DataClient
import Odb.Mess.RoundTrip
import Odb.Server.DataClientHandler

/-!
# The client in another process against the one in the same process

A call through `DBClientImplData` becomes a request, which `run_command` handles while the program
is stopped, and a response. Every message arrives as it was sent.

* `answer_ok`, `answer_error`: what the server answers, and what the client makes of it.
* `Remote.Refines`: a call has the effect and the outputs of the same call of `DBClientImplVMSide`,
  but for the field `val` of register infos; an error comes back as the error response and nothing
  before it; where the direct call fails otherwise, so does the remote one.
* `sendReq_refines`: it is enough to say what the handler of a request does.
-/

namespace Odb

open Prog Serial Wire DataClientHandler

/-- The debugger on the server, and what the client received last. -/
structure Remote (V : Type) where
  db : Debugger V
  is : Bytes

namespace Remote

variable {V : Type} (api : VMApi V) (udp : DBClientUpdate)

/-- A request is delivered to `run_command`, and its response to the client. -/
def exchange (req : Bytes) : Prog Fault (Remote V) Bytes := .of fun s =>
  match (runCommand api udp).on ⟨s.db, req, []⟩ with
  | (.ok _, t) => (.ok t.os, ⟨t.db, t.os⟩)
  | (.error e, t) => (.error e, ⟨t.db, s.is⟩)

def impl : DBClientImpl (Remote V) := DataClient.impl (exchange api udp)

end Remote

/-! ## One request and its response -/

section Exchange

variable {V : Type} {api : VMApi V} {ty : ReqType}

/-- The `ERR` tag, then the message. -/
def errResponse (msg : Bytes) : Bytes := 100 :: (leBytes 8 msg.length ++ msg)

theorem serialize_type_on (ty : ReqType) (out : Bytes) :
    (serialize ty).on out = (.ok (), out ++ [ty.toByte]) := by
  have : leBytes 1 ty.toByte.toNat = [ty.toByte] := by simp [leBytes]
  rw [← this]
  rfl

theorem unserialize_type_on (old ty : ReqType) (rest : Bytes) :
    (unserialize old).on (ty.toByte :: rest) = (.ok ty, rest) := by
  obtain ⟨word, hw, hr⟩ := LawfulSerial.carries ty old trivial
  have := hw []
  rw [serialize_type_on] at this
  obtain rfl : [ty.toByte] = word := (Prod.mk.inj this).2
  exact hr rest

/-- The bytes of a request: its type, and what `client_write_request` writes. -/
theorem request_eq {r : Req ty} {word : Bytes}
    (h : ∀ out, (DataClient.rh.clientWriteRequest r).on out = (.ok r, out ++ word)) :
    DataClient.request r = .ok (ty.toByte :: word) := by
  unfold DataClient.request written
  rw [on_bind_ok (serialize_type_on ty []), h]
  rfl

theorem response_eq {r r' : Req ty} {word : Bytes} (hty : ty ≠ .err)
    (h : ∀ rest, (DataClient.rh.clientReadResponse r).on (word ++ rest) = (.ok r', rest)) :
    DataClient.response r (ty.toByte :: word) = .ok r' := by
  have := h []
  rw [List.append_nil] at this
  unfold DataClient.response readFrom
  rw [on_bind_ok (unserialize_type_on _ ty word), if_neg hty, assertThat_pos rfl,
    on_bind_ok (on_lift _ _), this]

/-- The response to a failed request as the server writes it. -/
theorem writeErr_on (msg out : Bytes) :
    (@RequestHandler.serverWriteResponse rh .err ⟨msg⟩).on out =
      (.ok ⟨msg⟩, out ++ (leBytes 8 msg.length ++ msg)) := by
  rw [← List.append_assoc]
  rfl

/-- The client reads it back. -/
theorem readErr_on {msg : Bytes} (h : msg.length ≤ maxBytes) (rest : Bytes) :
    (@RequestHandler.clientReadResponse DataClient.rh .err ⟨[]⟩).on
      (leBytes 8 msg.length ++ msg ++ rest) = (.ok ⟨msg⟩, rest) := by
  obtain ⟨word, hw, hr⟩ :=
    @RequestHandler.carries_response .err ⟨[]⟩ ⟨msg⟩ (Nat.zero_le _) h trivial
  obtain rfl : leBytes 8 msg.length ++ msg = word := by
    have := (writeErr_on msg []).symm.trans (hw [])
    exact (Prod.mk.inj this).2
  exact hr rest

theorem response_err (r : Req ty) {msg : Bytes} (h : msg.length ≤ maxBytes) :
    DataClient.response r (errResponse msg) = .error (.vmError msg) := by
  have := readErr_on h []
  rw [List.append_nil] at this
  have he : errResponse msg = ReqType.err.toByte :: (leBytes 8 msg.length ++ msg) := rfl
  unfold DataClient.response readFrom DataClient.handleErr
  rw [he, on_bind_ok (unserialize_type_on _ _ _), if_pos rfl, on_bind_ok this]
  rfl

/-! What the server does with the bytes of a request, by the case of its switch. -/

variable {switch : ReqType → Prog Fault (Session V) Unit} {db db' : Debugger V}

theorem answer_on (word os : Bytes) :
    (answer switch).on ⟨db, ty.toByte :: word, os⟩ =
      ((switch ty).handle fun
        | .vmError msg => do
          onOs (serialize ReqType.err)
          let _ ← onOs (@RequestHandler.serverWriteResponse rh .err ⟨what msg⟩)
        | e => throw e).on ⟨db, word, []⟩ := by
  unfold answer
  rw [on_bind_ok (on_modify _ _)]
  exact on_bind_ok (onIs_on (unserialize_type_on .connect ty word)) _

/-- A command that throws before it wrote anything is answered by the error response. -/
theorem answer_error {word is os msg : Bytes}
    (h : (switch ty).on ⟨db, word, []⟩ = (.error (.vmError msg), ⟨db', is, []⟩)) :
    (answer switch).on ⟨db, ty.toByte :: word, os⟩ =
      (.ok (), ⟨db', is, errResponse (what msg)⟩) := by
  rw [answer_on, on_handle, h]
  simp only
  rw [on_bind_ok (onOs_on (serialize_type_on .err _)), on_bind_ok (onOs_on (writeErr_on _ _))]
  rfl

/-- A case of the switch, from the bytes of the request to the answer. -/
theorem reply_on {r r₀ : Req ty} {word : Bytes}
    (h : ∀ rest, (rh.serverReadRequest r₀).on (word ++ rest) = (.ok (r.received r₀), rest)) :
    (reply api r₀).on ⟨db, word, []⟩ =
      (do let req ← onDb (serve api (r.received r₀))
          onOs (serialize ty)
          let _ ← onOs (rh.serverWriteResponse req)).on ⟨db, [], []⟩ := by
  have := h []
  rw [List.append_nil] at this
  unfold reply
  rw [on_bind_ok (onIs_on this)]

/-- A request whose case returns: the answer gives the client what the case left. -/
theorem answer_ok {r r₀ s : Req ty} (hswitch : switch ty = reply api r₀) (hty : ty ≠ .err)
    (hr : r.Roomy) (hserve : (serve api (r.received r₀)).on db = (.ok s, db')) (hs : s.Shaped)
    (hc : r.SameCounts s) :
    ∃ req res, DataClient.request r = .ok req ∧
      (∀ os, (answer switch).on ⟨db, req, os⟩ = (.ok (), ⟨db', [], res⟩)) ∧
      DataClient.response r res = .ok (r.answered s) := by
  obtain ⟨word, hw, hread⟩ := RequestHandler.carries_request r₀ hr
  obtain ⟨word', hw', hread'⟩ := RequestHandler.carries_response hr.shaped hs hc
  have hreply : (reply api r₀).on ⟨db, word, []⟩ = (.ok (), ⟨db', [], ty.toByte :: word'⟩) := by
    rw [reply_on hread, on_bind_ok (onDb_on hserve), on_bind_ok (onOs_on (serialize_type_on _ _)),
      on_bind_ok (onOs_on (hw' _))]
    rfl
  refine ⟨_, _, request_eq hw, fun os => ?_, response_eq hty hread'⟩
  rw [answer_on, on_handle, hswitch, hreply]

/-- A request whose case throws: the answer is the error response. -/
theorem answer_vmError {r r₀ : Req ty} {msg : Bytes} (hswitch : switch ty = reply api r₀)
    (hr : r.Roomy)
    (hserve : (serve api (r.received r₀)).on db = (.error (.vmError msg), db')) :
    ∃ req, DataClient.request r = .ok req ∧
      ∀ os, (answer switch).on ⟨db, req, os⟩ = (.ok (), ⟨db', [], errResponse (what msg)⟩) := by
  obtain ⟨word, hw, hread⟩ := RequestHandler.carries_request r₀ hr
  refine ⟨_, request_eq hw, fun os => answer_error ?_⟩
  rw [hswitch, reply_on hread, on_bind_error (onDb_on hserve)]

/-- A request whose case fails otherwise: the server does not survive it. -/
theorem answer_fault {r r₀ : Req ty} {e : Fault} (hswitch : switch ty = reply api r₀)
    (hr : r.Roomy) (he : ∀ msg, e ≠ .vmError msg)
    (hserve : (serve api (r.received r₀)).on db = (.error e, db')) :
    ∃ req, DataClient.request r = .ok req ∧
      ∀ os, (answer switch).on ⟨db, req, os⟩ = (.error e, ⟨db', [], []⟩) := by
  obtain ⟨word, hw, hread⟩ := RequestHandler.carries_request r₀ hr
  refine ⟨_, request_eq hw, fun os => ?_⟩
  rw [answer_on, on_handle, hswitch, reply_on hread, on_bind_error (onDb_on hserve)]
  cases e with
  | vmError msg => exact absurd rfl (he msg)
  | stdException | assertFail | undefined => rfl

end Exchange

/-! ## A remote call against a direct one -/

namespace Remote

section Refines

variable {V : Type} {α β γ : Type} {api : VMApi V} {udp : DBClientUpdate}

/-- From `db`, the remote call does what the direct one does: it returns `sent a` for an output `a`
that objects can hold, with the same effect; an error comes back with the same text, the response
being the error response alone; and it does not return where the direct one fails otherwise. -/
def Refines (fits : α → Prop) (sent : α → β) (direct : DbM V α) (remote : Prog Fault (Remote V) β)
    (db : Debugger V) : Prop :=
  ∀ is,
    (∀ a db', direct.on db = (.ok a, db') → fits a →
      ∃ is', remote.on ⟨db, is⟩ = (.ok (sent a), ⟨db', is'⟩)) ∧
    (∀ msg db', direct.on db = (.error (.vmError msg), db') → (what msg).length ≤ maxBytes →
      remote.on ⟨db, is⟩ = (.error (.vmError (what msg)), ⟨db', errResponse (what msg)⟩)) ∧
    (∀ e db', direct.on db = (.error e, db') → (∀ msg, e ≠ .vmError msg) →
      remote.on ⟨db, is⟩ = (.error e, ⟨db', is⟩))

variable {fits : α → Prop} {sent : α → β} {direct : DbM V α} {remote : Prog Fault (Remote V) β}
  {db : Debugger V}

theorem Refines.map (h : Refines fits sent direct remote db) (g : β → γ) :
    Refines fits (fun a => g (sent a)) direct (remote >>= fun b => pure (g b)) db := by
  intro is
  obtain ⟨hok, herr, hfault⟩ := h is
  refine ⟨fun a db' hrun ha => ?_, fun msg db' hrun hmsg => ?_, fun e db' hrun he => ?_⟩
  · obtain ⟨is', hr⟩ := hok a db' hrun ha
    exact ⟨is', by rw [on_bind_ok hr, on_pure]⟩
  · rw [on_bind_error (herr msg db' hrun hmsg)]
  · rw [on_bind_error (hfault e db' hrun he)]

theorem exchange_on {req : Bytes} {t : Session V} (is : Bytes)
    (h : (runCommand api udp).on ⟨db, req, []⟩ = (.ok (), t)) :
    (exchange api udp req).on ⟨db, is⟩ = (.ok t.os, ⟨t.db, t.os⟩) := by
  unfold exchange
  rw [on_of, h]

/-- A case of `run_command`: `put` puts the outputs of the direct call into the request. -/
theorem sendReq_refines (ty : ReqType) (r : Req ty) (put : α → Req ty) {r₀ : Req ty}
    (hty : ty ≠ .stop) (hfresh : fresh udp ty = some r₀) (hr : r.Roomy)
    (hserve : (serve api (r.received r₀)).on db = ((direct.on db).1.map put, (direct.on db).2))
    (hput : ∀ a, (direct.on db).1 = .ok a → fits a → (put a).Shaped ∧ r.SameCounts (put a)) :
    Refines fits (fun a => r.answered (put a)) direct (DataClient.sendReq (exchange api udp) r)
      db := by
  have herr : ty ≠ .err := by
    rintro rfl
    cases hfresh
  have hswitch : runSwitch api udp ty = reply api r₀ := by
    unfold runSwitch
    cases ty with
    | stop => exact absurd rfl hty
    | _ => simp only [hfresh]
  intro is
  refine ⟨fun a db' hrun ha => ?_, fun msg db' hrun hmsg => ?_, fun e db' hrun he => ?_⟩
  · rw [hrun] at hserve hput
    obtain ⟨hs, hc⟩ := hput a rfl ha
    obtain ⟨req, res, hreq, hrun', hres⟩ := answer_ok hswitch herr hr hserve hs hc
    refine ⟨res, ?_⟩
    unfold DataClient.sendReq
    rw [hreq, on_bind_ok (on_lift _ _), on_bind_ok (exchange_on is (hrun' [])), hres, on_lift]
  · rw [hrun] at hserve
    obtain ⟨req, hreq, hrun'⟩ := answer_vmError hswitch hr hserve
    unfold DataClient.sendReq
    rw [hreq, on_bind_ok (on_lift _ _), on_bind_ok (exchange_on is (hrun' [])),
      response_err r hmsg, on_lift]
  · rw [hrun] at hserve
    obtain ⟨req, hreq, hrun'⟩ := answer_fault hswitch hr he hserve
    have hexch : (exchange api udp req).on ⟨db, is⟩ = (.error e, ⟨db', is⟩) := by
      unfold exchange runCommand
      rw [on_of, hrun' []]
    unfold DataClient.sendReq
    rw [hreq, on_bind_ok (on_lift _ _), on_bind_error hexch]

end Refines

end Remote

end Odb
