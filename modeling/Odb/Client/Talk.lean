import Odb.Client.Replay

/-!
# A client after the exchanges it made

* `Makes`: a call that makes certain exchanges. `Talked`: a client after calls that made them.
* `Makes.resumes`: only a `resume` that returns makes an exchange that resumes the program.
* `Talked.known`: where a client that takes the program for stopped takes it to be is what it was
  told last.
-/

namespace Odb

open Prog

/-! ## The control calls -/

namespace DataClient

theorem toByte_ofByte (b : UInt8) : (ReqType.ofByte b).toByte = b := by
  have h : ∀ n < 256, (ReqType.ofByte n.toUInt8).toByte = n.toUInt8 := by decide +kernel
  simpa using h b.toNat b.toNat_lt

/-- The type at the beginning of a response. -/
theorem unserialize_head_on (old : ReqType) (b : UInt8) (rest : Bytes) :
    (Serial.unserialize old).on (b :: rest) = (.ok (ReqType.ofByte b), rest) := by
  have := unserialize_type_on old (ReqType.ofByte b) rest
  rwa [toByte_ofByte] at this

variable {exs exs' : List Exchange}

theorem connect_replay {res : Except Fault (VMInfos × DBClientUpdate)}
    (h : (connect replay).on exs = (res, exs')) (hres : res ≠ .error .undefined) :
    ∃ x, exs = ([ReqType.connect.toByte], x) :: exs' ∧
      told ([ReqType.connect.toByte], x) = res.toOption.map Prod.snd := by
  unfold connect at h
  rw [on_bind_pure] at h
  rcases hrun : (@sendReq _ replay .connect ⟨Serial.blank, Serial.blank⟩).on exs with ⟨req, exs₁⟩
  rw [hrun] at h
  obtain ⟨rfl, rfl⟩ := Prod.mk.inj h
  rcases sendReq_replay hrun (fun hreq => hres (by rw [hreq]; rfl)) with ⟨e, he, -⟩ | ⟨q, x, hq, rfl, rfl⟩
  · cases he
  · obtain rfl : [ReqType.connect.toByte] = q := Except.ok.inj hq
    refine ⟨x, rfl, ?_⟩
    unfold told
    rw [if_neg (show ¬ [ReqType.connect.toByte] = [ReqType.checkStopped.toByte] by decide), if_pos rfl]
    rcases @response .connect ⟨Serial.blank, Serial.blank⟩ x with _ | _ <;> rfl

theorem checkStopped_replay {res : Except Fault DBClientUpdate}
    (h : (checkStopped replay).on exs = (res, exs')) (hres : res ≠ .error .undefined) :
    ∃ x, exs = ([ReqType.checkStopped.toByte], x) :: exs' ∧
      told ([ReqType.checkStopped.toByte], x) = res.toOption := by
  unfold checkStopped at h
  rw [on_bind_pure] at h
  rcases hrun : (@sendReq _ replay .checkStopped ⟨Serial.blank⟩).on exs with ⟨req, exs₁⟩
  rw [hrun] at h
  obtain ⟨rfl, rfl⟩ := Prod.mk.inj h
  rcases sendReq_replay hrun (fun hreq => hres (by rw [hreq]; rfl)) with ⟨e, he, -⟩ | ⟨q, x, hq, rfl, rfl⟩
  · cases he
  · obtain rfl : [ReqType.checkStopped.toByte] = q := Except.ok.inj hq
    refine ⟨x, rfl, ?_⟩
    unfold told
    rw [if_pos rfl]
    rcases @response .checkStopped ⟨Serial.blank⟩ x with _ | _ <;> rfl

/-- The response to a `RESUME` is one of its type, or it is none. -/
theorem response_resume_iff (type : ResumeType) {x : Bytes} :
    (∃ req, @response .resume ⟨type⟩ x = .ok req) ↔ x.head? = some ReqType.resume.toByte := by
  unfold response readFrom
  obtain _ | ⟨b, rest⟩ := x
  · refine iff_of_false ?_ (by simp)
    rintro ⟨_, h⟩
    cases h
  rw [on_bind_ok (unserialize_head_on _ b rest), List.head?_cons, Option.some.injEq]
  split
  · next herr =>
    refine iff_of_false ?_ fun hb => ?_
    · rintro ⟨_, h⟩
      unfold handleErr at h
      rw [on_bind] at h
      split at h <;> cases h
    · rw [hb] at herr
      cases herr
  · by_cases hty : ReqType.ofByte b = .resume
    · rw [assertThat_pos hty]
      exact iff_of_true ⟨⟨type⟩, rfl⟩ (by rw [← toByte_ofByte b, hty])
    · rw [assertThat, if_neg hty]
      refine iff_of_false ?_ fun hb => hty (by rw [hb, ReqType.ofByte_toByte])
      rintro ⟨_, h⟩
      cases h

theorem resume_replay {type : ResumeType} {res : Except Fault Unit}
    (h : (resume replay type).on exs = (res, exs')) (hres : res ≠ .error .undefined) :
    ∃ x, exs = x :: exs' ∧ x.1.head? = some ReqType.resume.toByte ∧ (Resumes x ↔ res = .ok ()) := by
  unfold resume at h
  rw [on_bind_pure] at h
  rcases hrun : (@sendReq _ replay .resume ⟨type⟩).on exs with ⟨req, exs₁⟩
  rw [hrun] at h
  obtain ⟨rfl, rfl⟩ := Prod.mk.inj h
  rcases sendReq_replay hrun (fun hreq => hres (by rw [hreq]; rfl)) with ⟨e, he, -⟩ | ⟨q, x, hq, rfl, rfl⟩
  · cases he
  · have hhead := request_head hq
    refine ⟨(q, x), rfl, hhead, ?_⟩
    unfold Resumes
    rw [and_iff_right hhead, ← response_resume_iff type]
    rcases @response .resume ⟨type⟩ x with _ | _ <;> simp [Except.map]

end DataClient

/-! ## The calls of the client -/

namespace DBClient

variable {α : Type} {c c' : DBClient} {exs more : List Exchange} {r : Except Fault α}

/-- From the client `c`, the call makes these exchanges, and returns or throws. -/
def Makes (k : ApiCall α) (c : DBClient) (more : List Exchange) (r : Except Fault α)
    (c' : DBClient) : Prop :=
  (k.exec (DataClient.impl DataClient.replay)).on ⟨c, more⟩ = (r, ⟨c', []⟩) ∧
    ∀ e, r = .error e → Thrown e

def ApiCall.IsResume : {α : Type} → ApiCall α → Prop
  | _, .resume _ => True
  | _, _ => False

/-- The clients after calls that returned or threw, with the exchanges they made. -/
inductive Talked : DBClient → List Exchange → Prop where
  | start (udp : DBClientUpdate) : Talked (.new udp) []
  | call {c c' : DBClient} {exs more : List Exchange} {α : Type} {r : Except Fault α}
      (k : ApiCall α) : Talked c exs → Makes k c more r c' → Talked c' (exs ++ more)

/-- Every `CHECK_STOPPED` got its answer. -/
def Checked (exs : List Exchange) : Prop :=
  ∀ x ∈ exs, x.1 = [ReqType.checkStopped.toByte] → (told x).isSome

/-- A call in the wrong state fails. -/
theorem Makes.state {k : ApiCall α} {state : DBClientState} {f : Unit → ClientM (List Exchange) α}
    (hk : k.exec (DataClient.impl DataClient.replay) = assertState state >>= f)
    (h : Makes k c more r c') : c.state = state ∧ (f ()).on ⟨c, more⟩ = (r, ⟨c', []⟩) := by
  obtain ⟨hrun, hr⟩ := h
  rw [hk] at hrun
  rcases hassert : (assertState state).on (⟨c, more⟩ : World (List Exchange)) with ⟨e | u, w⟩
  · rw [on_bind_error hassert] at hrun
    obtain ⟨rfl, rfl⟩ := Prod.mk.inj hrun
    unfold assertState assertThat at hassert
    rw [on_bind_ok (on_get _)] at hassert
    split at hassert
    · cases hassert
    · obtain ⟨he, -⟩ := Prod.mk.inj hassert
      cases he
      exact (hr _ rfl).elim
  · obtain ⟨hstate, rfl⟩ := assertState_ok.mp hassert
    rw [on_bind_ok hassert] at hrun
    exact ⟨hstate, hrun⟩

theorem thrown_ne {e : Fault} (h : Thrown e) : (.error e : Except Fault α) ≠ .error .undefined := by
  rintro ⟨⟩
  cases h

/-- What a call of the implementation leaves. -/
theorem call_error {β : Type} {k : ImplCall β} {g : β → ClientM (List Exchange) α} {e : Fault}
    {exs' : List Exchange} (h : (DataClient.impl DataClient.replay k).on exs = (.error e, exs')) :
    (call (DataClient.impl DataClient.replay) k >>= g).on ⟨c, exs⟩ = (.error e, ⟨c, exs'⟩) :=
  on_bind_error (on_zoom h) g

theorem call_returns {β : Type} {k : ImplCall β} {g : β → ClientM (List Exchange) α} {b : β}
    {exs' : List Exchange} (h : (DataClient.impl DataClient.replay k).on exs = (.ok b, exs')) :
    (call (DataClient.impl DataClient.replay) k >>= g).on ⟨c, exs⟩ = (g b).on ⟨c, exs'⟩ :=
  on_bind_ok (on_zoom h) g

theorem Makes.connect {r : Except Fault Unit} (h : Makes .connect c more r c') :
    c.state = .notConnected ∧ ∃ x, more = [([ReqType.connect.toByte], x)] ∧
      (c' = c ∨ ∃ infos udp, told ([ReqType.connect.toByte], x) = some udp ∧
        c' = { c with
          vmInfos := infos, udp, state := if udp.stopped then .vmStopped else .vmRunning }) := by
  have hthrown := h.2
  obtain ⟨hstate, hrun⟩ := h.state rfl
  refine ⟨hstate, ?_⟩
  rw [on_bind_ok (on_get _)] at hrun
  rcases hcall : (DataClient.impl DataClient.replay (.connect c.udp)).on more with ⟨e | ⟨infos, udp⟩, exs'⟩
  · rw [call_error hcall] at hrun
    obtain ⟨rfl, hw⟩ := Prod.mk.inj hrun
    cases hw
    obtain ⟨x, rfl, -⟩ := DataClient.connect_replay hcall (thrown_ne (hthrown e rfl))
    exact ⟨x, rfl, .inl rfl⟩
  · rw [call_returns hcall] at hrun
    obtain ⟨rfl, hw⟩ := Prod.mk.inj hrun
    cases hw
    obtain ⟨x, rfl, htold⟩ := DataClient.connect_replay hcall (by simp)
    exact ⟨x, rfl, .inr ⟨infos, udp, htold, rfl⟩⟩

theorem Makes.checkStopped {r : Except Fault Unit} (h : Makes .checkStopped c more r c') :
    c.state = .vmRunning ∧ ∃ x, more = [([ReqType.checkStopped.toByte], x)] ∧
      (told ([ReqType.checkStopped.toByte], x) = none ∧ c' = c ∨
        r = .ok () ∧ ∃ udp, told ([ReqType.checkStopped.toByte], x) = some udp ∧
          c' = if udp.stopped then { c with udp, state := .vmStopped }.discardTmpCache
            else { c with udp, state := .vmRunning }) := by
  have hthrown := h.2
  obtain ⟨hstate, hrun⟩ := h.state rfl
  refine ⟨hstate, ?_⟩
  rw [on_bind_ok (on_get _)] at hrun
  rcases hcall : (DataClient.impl DataClient.replay (.checkStopped c.udp)).on more with ⟨e | udp, exs'⟩
  · rw [call_error hcall] at hrun
    obtain ⟨rfl, hw⟩ := Prod.mk.inj hrun
    cases hw
    obtain ⟨x, rfl, htold⟩ := DataClient.checkStopped_replay hcall (thrown_ne (hthrown e rfl))
    exact ⟨x, rfl, .inl ⟨htold, rfl⟩⟩
  · rw [call_returns hcall, on_bind_ok ((modifyClient_ok (u := ())).mpr rfl)] at hrun
    by_cases hstopped : udp.stopped = true
    · rw [if_pos hstopped] at hrun
      obtain ⟨rfl, hw⟩ := Prod.mk.inj hrun
      cases hw
      obtain ⟨x, rfl, htold⟩ := DataClient.checkStopped_replay hcall (by simp)
      exact ⟨x, rfl, .inr ⟨rfl, udp, htold, by rw [if_pos hstopped]⟩⟩
    · rw [if_neg hstopped] at hrun
      obtain ⟨rfl, hw⟩ := Prod.mk.inj hrun
      cases hw
      obtain ⟨x, rfl, htold⟩ := DataClient.checkStopped_replay hcall (by simp)
      exact ⟨x, rfl, .inr ⟨rfl, udp, htold, by rw [if_neg hstopped]⟩⟩

theorem stop_replay {exs' : List Exchange} {r : Except Fault Unit}
    (h : (DataClient.stop DataClient.replay).on exs = (r, exs')) (hr : r ≠ .error .undefined) :
    ∃ x, exs = ([ReqType.stop.toByte], x) :: exs' ∧
      r = (@DataClient.response .stop ⟨⟩ x).map fun _ => () := by
  unfold DataClient.stop at h
  rw [on_bind_pure] at h
  rcases hrun : (@DataClient.sendReq _ DataClient.replay .stop ⟨⟩).on exs with ⟨req, exs₁⟩
  rw [hrun] at h
  obtain ⟨rfl, rfl⟩ := Prod.mk.inj h
  rcases DataClient.sendReq_replay hrun (fun hreq => hr (by rw [hreq]; rfl)) with
    ⟨e, he, -⟩ | ⟨q, x, hq, rfl, hx⟩
  · cases he
  · obtain rfl : [ReqType.stop.toByte] = q := Except.ok.inj hq
    exact ⟨x, rfl, by rw [hx]⟩

/-- A `stop` that returns was told where the program is stopped. -/
theorem Makes.stop {r : Except Fault Unit} (h : Makes .stop c more r c') :
    c.state = .vmRunning ∧ ∃ x, (more = [([ReqType.stop.toByte], x)] ∧ c' = c ∧
        r = (@DataClient.response .stop ⟨⟩ x).map fun _ => ()) ∨
      ∃ x', (∃ req, @DataClient.response .stop ⟨⟩ x = .ok req) ∧
        more = [([ReqType.stop.toByte], x), ([ReqType.checkStopped.toByte], x')] ∧
        (told ([ReqType.checkStopped.toByte], x') = none ∨
          ∃ udp, told ([ReqType.checkStopped.toByte], x') = some udp ∧ udp.stopped = true ∧
            c' = { c with udp, state := .vmStopped }) := by
  have hthrown := h.2
  obtain ⟨hstate, hrun⟩ := h.state rfl
  refine ⟨hstate, ?_⟩
  rcases hcall : (DataClient.impl DataClient.replay .stop).on more with ⟨e | u, exs'⟩
  · rw [call_error hcall] at hrun
    obtain ⟨rfl, hw⟩ := Prod.mk.inj hrun
    cases hw
    obtain ⟨x, rfl, hx⟩ := stop_replay hcall (thrown_ne (hthrown e rfl))
    exact ⟨x, .inl ⟨rfl, rfl, hx⟩⟩
  · rw [call_returns hcall, on_bind_ok ((modifyClient_ok (u := ())).mpr rfl), on_bind_ok (on_get _)] at hrun
    obtain ⟨x, rfl, hx⟩ := stop_replay hcall (by simp)
    have hok : ∃ req, @DataClient.response .stop ⟨⟩ x = .ok req := by
      rcases hres : @DataClient.response .stop ⟨⟩ x with e | req
      · rw [hres] at hx
        cases hx
      · exact ⟨req, rfl⟩
    rcases hcheck : (DataClient.impl DataClient.replay (.checkStopped c.udp)).on exs' with
      ⟨e | udp, exs''⟩
    · rw [call_error hcheck] at hrun
      obtain ⟨rfl, hw⟩ := Prod.mk.inj hrun
      cases hw
      obtain ⟨x', rfl, htold⟩ := DataClient.checkStopped_replay hcheck (thrown_ne (hthrown e rfl))
      exact ⟨x, .inr ⟨x', hok, rfl, .inl htold⟩⟩
    · rw [call_returns hcheck, on_bind_ok ((modifyClient_ok (u := ())).mpr rfl), on_lift, assertThat] at hrun
      split at hrun
      · next hstopped =>
        obtain ⟨rfl, hw⟩ := Prod.mk.inj hrun
        cases hw
        obtain ⟨x', rfl, htold⟩ := DataClient.checkStopped_replay hcheck (by simp)
        exact ⟨x, .inr ⟨x', hok, rfl, .inr ⟨udp, htold, hstopped, rfl⟩⟩⟩
      · obtain ⟨rfl, -⟩ := Prod.mk.inj hrun
        exact (hthrown _ rfl).elim

theorem Makes.resume {type : ResumeType} {r : Except Fault Unit}
    (h : Makes (.resume type) c more r c') :
    c.state = .vmStopped ∧ ∃ x, more = [x] ∧ x.1.head? = some ReqType.resume.toByte ∧
      (Resumes x ↔ r = .ok ()) ∧
      ((∃ e, r = .error e ∧ c' = c) ∨ r = .ok () ∧ c' = { c with state := .vmRunning }) := by
  have hthrown := h.2
  obtain ⟨hstate, hrun⟩ := h.state rfl
  refine ⟨hstate, ?_⟩
  rcases hcall : (DataClient.impl DataClient.replay (.resume type)).on more with ⟨e | u, exs'⟩
  · rw [call_error hcall] at hrun
    obtain ⟨rfl, hw⟩ := Prod.mk.inj hrun
    cases hw
    obtain ⟨x, rfl, hhead, hiff⟩ := DataClient.resume_replay hcall (thrown_ne (hthrown e rfl))
    exact ⟨x, rfl, hhead, by simpa using hiff, .inl ⟨e, rfl, rfl⟩⟩
  · rw [call_returns hcall] at hrun
    obtain ⟨rfl, hw⟩ := Prod.mk.inj hrun
    cases hw
    obtain ⟨x, rfl, hhead, hiff⟩ := DataClient.resume_replay hcall (by simp)
    exact ⟨x, rfl, hhead, by simpa using hiff, .inr ⟨rfl, rfl⟩⟩

/-- Another call keeps what the client holds of the program. -/
theorem Makes.quiet {k : ApiCall α} (h : Makes k c more r c') (hk : k.Quiet) :
    c'.state = c.state ∧ c'.udp = c.udp ∧ ∀ x ∈ more, Aside x.1 := by
  obtain ⟨hrun, hr⟩ := h
  have hsteps : Relation.ReflTransGen (CacheStep DataClient.Drops) ⟨c, more⟩ ⟨c', []⟩ := by
    have := ApiCall.silent hk ⟨c, more⟩
    rw [hrun] at this
    rcases r with e | a
    · exact this (hr e rfl)
    · exact this
  obtain ⟨hstate, hudp, made, hmade, haside⟩ := cacheSteps_run hsteps
  obtain rfl : more = made := hmade.trans (List.append_nil made)
  exact ⟨hstate, hudp, haside⟩

/-! ## What the client knows -/

theorem not_resumes {ty : ReqType} (hty : ty ≠ .resume) (res : Bytes) :
    ¬ Resumes ([ty.toByte], res) := fun h =>
  hty (by rw [← ty.ofByte_toByte, Option.some.inj h.1, ReqType.ofByte_toByte])

/-- Only a `resume` that returns makes an exchange that resumes the program. -/
theorem Makes.resumes {k : ApiCall α} (h : Makes k c more r c') {x : Exchange} (hx : x ∈ more)
    (hres : Resumes x) : k.IsResume ∧ ∃ a, r = .ok a := by
  cases k with
  | resume type =>
    obtain ⟨-, y, rfl, -, hiff, -⟩ := h.resume
    obtain rfl := List.mem_singleton.mp hx
    exact ⟨trivial, (), hiff.mp hres⟩
  | connect =>
    obtain ⟨-, y, rfl, -⟩ := h.connect
    obtain rfl := List.mem_singleton.mp hx
    exact absurd hres (not_resumes (by decide) _)
  | checkStopped =>
    obtain ⟨-, y, rfl, -⟩ := h.checkStopped
    obtain rfl := List.mem_singleton.mp hx
    exact absurd hres (not_resumes (by decide) _)
  | stop =>
    obtain ⟨-, y, ⟨rfl, -⟩ | ⟨y', -, rfl, -⟩⟩ := h.stop
    · obtain rfl := List.mem_singleton.mp hx
      exact absurd hres (not_resumes (by decide) _)
    · rcases List.mem_pair.mp hx with rfl | rfl <;> exact absurd hres (not_resumes (by decide) _)
  | _ => exact absurd hres ((h.quiet trivial).2.2 x hx).plain.2

/-- A call keeps that a client that takes the program for stopped knows where. -/
theorem Makes.known {k : ApiCall α} (h : Makes k c more r c') (hchecked : Checked more)
    (hc : c.state = .vmStopped → known exs = some c.udp) (hc' : c'.state = .vmStopped) :
    known (exs ++ more) = some c'.udp := by
  cases k with
  | connect =>
    obtain ⟨hstate, x, rfl, rfl | ⟨infos, udp, htold, rfl⟩⟩ := h.connect
    · rw [hstate] at hc'
      cases hc'
    · rw [known_concat, know_told htold]
      simp only at hc' ⊢
      split at hc'
      · next hstopped => rw [if_pos hstopped]
      · cases hc'
  | checkStopped =>
    obtain ⟨hstate, x, rfl, ⟨-, rfl⟩ | ⟨-, udp, htold, rfl⟩⟩ := h.checkStopped
    · rw [hstate] at hc'
      cases hc'
    · rw [known_concat, know_told htold]
      split at hc'
      · next hstopped =>
        rw [if_pos hstopped, if_pos hstopped]
        rfl
      · cases hc'
  | stop =>
    obtain ⟨hstate, x, ⟨-, rfl, -⟩ | ⟨x', -, rfl, hnone | ⟨udp, htold, hstopped, rfl⟩⟩⟩ := h.stop
    · rw [hstate] at hc'
      cases hc'
    · have := hchecked _ (List.mem_cons_of_mem _ (List.mem_singleton.mpr rfl)) rfl
      rw [hnone] at this
      cases this
    · rw [List.append_cons, known_concat, know_told htold, if_pos hstopped]
  | resume type =>
    obtain ⟨hstate, x, rfl, hhead, hiff, ⟨e, rfl, rfl⟩ | ⟨-, rfl⟩⟩ := h.resume
    · have hplain : Plain x :=
        ⟨told_of_head hhead (by decide) (by decide), fun hx => by cases hiff.mp hx⟩
      rw [known_concat, hplain.know]
      exact hc hstate
    · cases hc'
  | _ =>
    obtain ⟨hstate, hudp, haside⟩ := h.quiet trivial
    rw [known_plain fun x hx => (haside x hx).plain, hudp]
    exact hc (hstate ▸ hc')

/-- Where a client that takes the program for stopped takes it to be is what it was told last, and
no exchange resumed the program since. -/
theorem Talked.known (h : Talked c exs) (hchecked : Checked exs) (hc : c.state = .vmStopped) :
    known exs = some c.udp := by
  induction h with
  | start => cases hc
  | call k _ hmakes ih =>
    have hleft := fun x hx => hchecked x (List.mem_append_left _ hx)
    exact hmakes.known (fun x hx => hchecked x (List.mem_append_right _ hx)) (ih hleft) hc

end DBClient

end Odb
