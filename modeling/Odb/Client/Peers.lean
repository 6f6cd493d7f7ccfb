import Odb.Client.Agreement

/-!
# The server and its client as one system

The server loop, a client in another process, and the messages between them, which arrive unchanged
and in their order, some time after they were sent.

* `Peers`, `Peers.Step`: the client makes one call after the other, each of some exchanges, while
  the server goes on.
* `Peers.Inv`: what the server has received and sent belongs to the calls of the client.
* `Inv.agrees`: a client that takes the program for stopped is right, unless the server has just
  resumed it for this client.
* `stop_refused`, `checkStopped_tells`: the calls that find the program stopped.
* `stopped_agrees`: over every run.
-/

namespace Odb

open Prog
open DataClientServerRunner (Threads MainStep RunnerStep)

/-! ## What a call asks for -/

namespace DBClient

variable {α : Type} {k : ApiCall α} {c c' : DBClient} {made : List Exchange} {q : Bytes}
  {r : Except Fault α}

/-- After these exchanges the call goes on with the request `q`, and with some response it ends: any
call ends with one that tells an error. -/
def AsksFor (k : ApiCall α) (c : DBClient) (made : List Exchange) (q : Bytes) : Prop :=
  ∃ res more r c', Makes k c (made ++ (q, res) :: more) r c'

/-- In the state `VM_STOPPED`, only a `resume` asks for something that is about the program. -/
theorem AsksFor.aside (h : AsksFor k c made q) (hc : c.state = .vmStopped) (hk : ¬ k.IsResume) :
    Aside q := by
  obtain ⟨res, more, r, c', h⟩ := h
  cases k with
  | connect => cases h.connect.1.symm.trans hc
  | checkStopped => cases h.checkStopped.1.symm.trans hc
  | stop => cases h.stop.1.symm.trans hc
  | resume => exact absurd trivial hk
  | _ => exact (h.quiet trivial).2.2 (q, res) (by simp)

/-- A `resume` makes one request. -/
theorem AsksFor.resume (h : AsksFor k c made q) (hk : k.IsResume) :
    made = [] ∧ q.head? = some ReqType.resume.toByte := by
  obtain ⟨res, more, r, c', h⟩ := h
  cases k with
  | resume type =>
    obtain ⟨-, x, hx, hhead, -⟩ := h.resume
    obtain ⟨rfl, hx⟩ | ⟨-, hx⟩ := List.append_eq_singleton_iff.mp hx
    · rw [← List.head_eq_of_cons_eq hx] at hhead
      exact ⟨rfl, hhead⟩
    · cases hx
  | _ => exact hk.elim

/-- Only a `resume` that returns ends the state `VM_STOPPED`. -/
theorem Makes.stays (h : Makes k c made r c') (hc : c.state = .vmStopped)
    (hk : k.IsResume → ∃ e, r = .error e) : c'.state = .vmStopped := by
  cases k with
  | connect => cases h.connect.1.symm.trans hc
  | checkStopped => cases h.checkStopped.1.symm.trans hc
  | stop => cases h.stop.1.symm.trans hc
  | resume =>
    obtain ⟨-, x, -, -, -, ⟨e, -, rfl⟩ | ⟨rfl, -⟩⟩ := h.resume
    · exact hc
    · obtain ⟨e, he⟩ := hk trivial
      cases he
  | _ => exact (h.quiet trivial).1.trans hc

end DBClient

open DBClient (ApiCall AsksFor Makes Talked)

/-- A call in progress. -/
structure Pending where
  {α : Type}
  call : ApiCall α
  /-- Its exchanges so far. -/
  made : List Exchange
  /-- The request that waits for its response. -/
  asked : Option Bytes

/-- The server, and its client. -/
structure Peers (V C : Type) where
  app : ServerApp V (C ⊕ Threads)
  /-- As the last call left it. -/
  client : DBClient
  /-- The exchanges of the calls that have ended. -/
  exs : List Exchange
  pending : Option Pending

namespace Peers

open ServerApp

variable {V C α : Type} {api : VMApi V}

/-- All exchanges so far. -/
def made (j : Peers V C) : List Exchange := j.exs ++ j.pending.elim [] Pending.made

/-- The request that waits for its response, if there is one. -/
def asked (j : Peers V C) : List Bytes := (j.pending.bind Pending.asked).toList

theorem made_of_none {j : Peers V C} (hp : j.pending = none) : j.made = j.exs ∧ j.asked = [] := by
  simp [made, asked, hp]

theorem made_of_some {j : Peers V C} {p : Pending} (hp : j.pending = some p) :
    j.made = j.exs ++ p.made ∧ j.asked = p.asked.toList := by
  simp [made, asked, hp]

/-- The call in progress returns or throws. -/
def Finishes (k : ApiCall α) (r : Except Fault α) (j j' : Peers V C) : Prop :=
  ∃ made c', j.pending = some ⟨k, made, none⟩ ∧ Makes k j.client made r c' ∧
    j' = ⟨j.app, c', j.exs ++ made, none⟩

section Machine

variable (cli : ClientHandler api C) (conf : ServerConfig) (c₀ : C) (t₀ : Threads)

inductive Step : Peers V C → Peers V C → Prop where
  /-- The server goes on. It receives requests in the order in which the client made them, and the
  connection stands. -/
  | server {j : Peers V C} {app : ServerApp V (C ⊕ Threads)} :
      (fitting cli conf c₀ t₀).Step j.app app →
      (∀ db t, Talks app db t → t.received <+: j.made.map Prod.fst ++ j.asked) →
      (∀ db t, Talks j.app db t → ∃ db t, Talks app db t) → Step j { j with app }
  /-- The client begins a call. -/
  | call {j : Peers V C} {α : Type} (k : ApiCall α) : j.pending = none →
      Step j { j with pending := some ⟨k, [], none⟩ }
  | send {j : Peers V C} {α : Type} {k : ApiCall α} {made : List Exchange} {q : Bytes} :
      j.pending = some ⟨k, made, none⟩ → AsksFor k j.client made q →
      Step j { j with pending := some ⟨k, made, some q⟩ }
  /-- The client receives the next response that the server has sent. -/
  | receive {j : Peers V C} {α : Type} {k : ApiCall α} {made : List Exchange} {q res : Bytes}
      {db : Debugger V} {t : Threads} : j.pending = some ⟨k, made, some q⟩ → Talks j.app db t →
      j.made.map Prod.snd ++ [res] <+: t.sent →
      Step j { j with pending := some ⟨k, made ++ [(q, res)], none⟩ }
  | finish {j j' : Peers V C} {α : Type} {k : ApiCall α} {r : Except Fault α} : Finishes k r j j' →
      Step j j'

/-- From the construction of the client on. -/
def machine : Machine (Peers V C) where
  Init j := (fitting cli conf c₀ t₀).Init j.app ∧ ∃ udp, j = ⟨j.app, .new udp, [], none⟩
  Step := Step cli conf c₀ t₀

/-- As long as no `resume` returns. -/
abbrev unresumed : Machine (Peers V C) :=
  (machine cli conf c₀ t₀).along fun j j' => ∀ type, ¬ Finishes (.resume type) (.ok ()) j j'

end Machine

/-! ## What has been received and sent -/

section Server

variable {cli : ClientHandler api C} {conf : ServerConfig} {c₀ : C} {t₀ : Threads}
  {s s' : ServerApp V (C ⊕ Threads)} {db db' : Debugger V} {t t' : Threads}

/-- It stays received and sent. -/
def Logged (t t' : Threads) : Prop := t.received <+: t'.received ∧ t.sent <+: t'.sent

theorem Logged.refl (t : Threads) : Logged t t := ⟨List.prefix_rfl, List.prefix_rfl⟩

theorem Logged.runner {t'' : Threads} (h : Logged t t') (hr : RunnerStep t' t'') :
    Logged t t'' := by
  cases hr with
  | send => exact ⟨h.1, h.2.trans (List.prefix_append _ _)⟩
  | recv => exact ⟨h.1.trans (List.prefix_append _ _), h.2⟩
  | _ => exact h

theorem logged_of_call {entry : DataClientServerRunner.MainPc}
    (h : DataClientHandler.Call api entry t db t' db') : Logged t t' := by
  refine h.induction (P := fun t' _ => Logged t t') (.refl t) (fun _ _ _ h hr => h.runner hr) ?_
  intro t₁ db₁ t₂ db₂ hlog _ hm
  cases hm with
  | ifError =>
    split
    · exact hlog
    · exact hlog
  | _ => exact hlog

theorem logged_of_step (h : (fitting cli conf c₀ t₀).Reachable s)
    (hst : (fitting cli conf c₀ t₀).Step s s') (ht : Talks s db t) (ht' : Talks s' db' t') :
    Logged t t' := by
  rcases ServerApp.Step.serves hst.1 (reachable_inv h.of_within.1) ht' with
    ⟨db₁, h₁, hs, hstep⟩ | ⟨hwait, -⟩
  · obtain ⟨rfl, rfl⟩ : db₁ = db ∧ h₁ = .inr t := Serves.eq ht hs
    cases hstep with
    | stays | update => exact .refl t
    | meanwhile hmean =>
      cases hmean with
      | inr hr => exact (Logged.refl t).runner hr
    | check _ _ hcall =>
      cases hcall with
      | inr hcall => exact logged_of_call hcall.2
    | command _ _ _ _ hcall =>
      cases hcall with
      | inr hcall => exact logged_of_call hcall.2
  · obtain ⟨-, m, hm, hn, -⟩ := ht
    cases (hwait m hm).symm.trans hn

end Server

/-! ## What holds all the time -/

section Inv

variable {cli : ClientHandler api C} {conf : ServerConfig} {c₀ : C} {t₀ : Threads}
  {j j' : Peers V C} {db db' : Debugger V} {t t' : Threads}

/-- The server gets the requests of the client, and the client the responses of the server. -/
structure Inv (cli : ClientHandler api C) (conf : ServerConfig) (c₀ : C) (t₀ : Threads)
    (j : Peers V C) : Prop where
  app : (fitting cli conf c₀ t₀).Reachable j.app
  talked : Talked j.client j.exs
  received : ∀ db t, Talks j.app db t → t.received <+: j.made.map Prod.fst ++ j.asked
  sent : ∀ db t, Talks j.app db t → j.made.map Prod.snd <+: t.sent
  silent : j.made ≠ [] → ∃ db t, Talks j.app db t
  asks : ∀ p, j.pending = some p →
    (∀ pre x post, p.made = pre ++ x :: post → AsksFor p.call j.client pre x.1) ∧
    ∀ q, p.asked = some q → AsksFor p.call j.client p.made q

/-- Where a list with one more element is cut. -/
theorem cut_concat {xs pre post : List Exchange} {x y : Exchange}
    (h : xs ++ [y] = pre ++ x :: post) :
    (pre = xs ∧ x = y) ∨ ∃ post', xs = pre ++ x :: post' := by
  obtain rfl | ⟨post, z, rfl⟩ := List.eq_nil_or_concat' post
  · obtain ⟨rfl, hlast⟩ := List.append_inj' h rfl
    exact .inl ⟨rfl, (List.singleton_inj.mp hlast).symm⟩
  · have h : xs ++ [y] = (pre ++ x :: post) ++ [z] := by simpa using h
    exact .inr ⟨post, (List.append_inj' h rfl).1⟩

/-- The client goes on, after no exchange or one more request. -/
theorem Inv.of_requests (hi : Inv cli conf c₀ t₀ j) (happ : j'.app = j.app)
    (htalked : Talked j'.client j'.exs) (hmade : j'.made = j.made) (hasked : j.asked <+: j'.asked)
    (hasks : ∀ p, j'.pending = some p →
      (∀ pre x post, p.made = pre ++ x :: post → AsksFor p.call j'.client pre x.1) ∧
      ∀ q, p.asked = some q → AsksFor p.call j'.client p.made q) : Inv cli conf c₀ t₀ j' := by
  refine ⟨happ ▸ hi.app, htalked, ?_, ?_, ?_, hasks⟩ <;> rw [happ, hmade]
  · intro db t ht
    exact (hi.received db t ht).trans ((List.prefix_append_right_inj _).mpr hasked)
  · exact hi.sent
  · exact hi.silent

theorem Step.inv (h : Step cli conf c₀ t₀ j j') (hi : Inv cli conf c₀ t₀ j) :
    Inv cli conf c₀ t₀ j' := by
  cases h with
  | @server app hst hreceived hstands =>
    refine ⟨hi.app.step hst, hi.talked, hreceived, fun db t ht => ?_, fun hne => ?_, hi.asks⟩
    · by_cases hnil : j.made = []
      · rw [show Peers.made { j with app } = j.made from rfl, hnil]
        exact List.nil_prefix
      · obtain ⟨db₁, t₁, ht₁⟩ := hi.silent hnil
        exact (hi.sent db₁ t₁ ht₁).trans (logged_of_step hi.app hst ht₁ ht).2
    · obtain ⟨db₁, t₁, ht₁⟩ := hi.silent hne
      exact hstands db₁ t₁ ht₁
  | @call α k hp =>
    obtain ⟨hmade, hasked⟩ := made_of_none hp
    refine .of_requests hi rfl hi.talked (by rw [hmade]; exact List.append_nil _) ?_ ?_
    · rw [hasked]
      exact List.nil_prefix
    · rintro p hp'
      obtain rfl := Option.some.inj hp'
      simp
  | @send α k made q hp hasks =>
    obtain ⟨hmade, hasked⟩ := made_of_some hp
    refine .of_requests hi rfl hi.talked hmade.symm ?_ ?_
    · rw [hasked]
      exact List.nil_prefix
    · rintro p hp'
      obtain rfl := Option.some.inj hp'
      exact ⟨(hi.asks _ hp).1, fun q' hq => Option.some.inj hq ▸ hasks⟩
  | @receive α k made q res db t hp ht hsent =>
    obtain ⟨hmade, hasked⟩ := made_of_some hp
    obtain ⟨hpre, hq⟩ := hi.asks _ hp
    have hmade' : Peers.made { j with pending := some ⟨k, made ++ [(q, res)], none⟩ } =
        j.made ++ [(q, res)] := by rw [hmade, List.append_assoc]; rfl
    refine ⟨hi.app, hi.talked, fun db₁ t₁ ht₁ => ?_, fun db₁ t₁ ht₁ => ?_, fun _ => ⟨db, t, ht⟩, ?_⟩
    · rw [hmade', List.map_append, List.append_assoc]
      have hreceived := hi.received db₁ t₁ ht₁
      rwa [hasked] at hreceived
    · obtain ⟨-, rfl⟩ := ht.eq ht₁
      rw [hmade', List.map_append]
      exact hsent
    · rintro p hp'
      obtain rfl := Option.some.inj hp'
      refine ⟨fun pre x post hx => ?_, nofun⟩
      rcases cut_concat hx with ⟨rfl, rfl⟩ | ⟨post, hx⟩
      · exact hq q rfl
      · exact hpre pre x post hx
  | @finish _ α k r hf =>
    obtain ⟨made, c', hp, hmakes, rfl⟩ := hf
    obtain ⟨hmade, -⟩ := made_of_some hp
    refine .of_requests hi rfl (hi.talked.call k hmakes) ?_ ?_ nofun
    · rw [hmade]
      exact List.append_nil _
    · rw [(made_of_some hp).2]
      exact List.nil_prefix

theorem Inv.of_reachable (h : (machine cli conf c₀ t₀).Reachable j) : Inv cli conf c₀ t₀ j := by
  refine h.invariant ?_ fun j j' _ hi (hst : Step cli conf c₀ t₀ j j') => hst.inv hi
  rintro j ⟨happ, udp, hj⟩
  have hnot (db : Debugger V) (t : Threads) : ¬ Talks j.app db t := by
    rintro ⟨hdb, -⟩
    rw [happ.1] at hdb
    cases hdb
  rw [hj]
  exact ⟨.init happ, .start udp, fun db t ht => absurd ht (hnot db t),
    fun db t ht => absurd ht (hnot db t), fun hne => absurd rfl hne, nofun⟩

/-! ## The client is right -/

/-- The server has answered the exchanges of the client, and perhaps the request that waits. -/
theorem Inv.answered (hb : DataClientServerRunner.Built t₀) (hi : Inv cli conf c₀ t₀ j)
    (ht : Talks j.app db t) :
    ∃ rest, t.answered = j.made ++ rest ∧ rest.map Prod.fst <+: j.asked := by
  obtain ⟨hreq, hres, -⟩ := (ht.inv hb hi.app.of_within.1).counts
  exact exists_rest (hreq.trans (hi.received db t ht)) ((hi.sent db t ht).trans hres)

/-- Between two calls it has answered those of the calls that ended. -/
theorem Inv.answered_eq (hb : DataClientServerRunner.Built t₀) (hi : Inv cli conf c₀ t₀ j)
    (ht : Talks j.app db t) (hp : j.pending = none) : t.answered = j.exs := by
  obtain ⟨rest, hans, hrest⟩ := hi.answered hb ht
  obtain ⟨hmade, hasked⟩ := made_of_none hp
  rw [hasked, List.prefix_nil, List.map_eq_nil_iff] at hrest
  rw [hans, hmade, hrest, List.append_nil]

/-- Every request that the server has answered is one that the call in progress asks for. -/
theorem Inv.asks_tail (hi : Inv cli conf c₀ t₀ j) {p : Pending} (hp : j.pending = some p)
    {rest pre post : List Exchange} {x : Exchange} (hrest : rest.map Prod.fst <+: p.asked.toList)
    (h : p.made ++ rest = pre ++ x :: post) : AsksFor p.call j.client pre x.1 := by
  obtain ⟨hmade, hasked⟩ := hi.asks p hp
  cases rest with
  | nil => exact hmade pre x post (by simpa using h)
  | cons y rest =>
    cases ha : p.asked with
    | none => simp [ha] at hrest
    | some q =>
      rw [ha, Option.toList_some, List.map_cons, List.cons_prefix_cons] at hrest
      obtain ⟨rfl, hnil⟩ := hrest
      obtain rfl := List.map_eq_nil_iff.mp (List.prefix_nil.mp hnil)
      rcases cut_concat h with ⟨rfl, rfl⟩ | ⟨post, h⟩
      · exact hasked x.1 ha
      · exact hmade pre x post h

/-- The client knows where the program is. -/
def Agrees (j : Peers V C) (db : Debugger V) : Prop :=
  DbControl.isStopped db.state = true ∧ j.client.udp = db.view

/-- A `resume` is in progress, which the server has answered with success: with its response it
returns (`Makes.resume`). -/
def Resuming (j : Peers V C) (t : Threads) : Prop :=
  ∃ p x, j.pending = some p ∧ p.call.IsResume ∧ t.answered = j.exs ++ [x] ∧ Resumes x

/-- What the server has answered since the last call ended says nothing new of the program, or it
resumed the program for the client. -/
theorem Inv.tail (hb : DataClientServerRunner.Built t₀) (hi : Inv cli conf c₀ t₀ j)
    (ht : Talks j.app db t) (hst : j.client.state = .vmStopped) :
    (∃ more, t.answered = j.exs ++ more ∧ ∀ x ∈ more, Plain x) ∨ Resuming j t := by
  obtain ⟨rest, hans, hrest⟩ := hi.answered hb ht
  cases hp : j.pending with
  | none => exact .inl ⟨[], by rw [hi.answered_eq hb ht hp, List.append_nil], by simp⟩
  | some p =>
    obtain ⟨hmade, hasked⟩ := made_of_some hp
    rw [hasked] at hrest
    rw [hmade, List.append_assoc] at hans
    have hasks {pre post : List Exchange} {x : Exchange} (h : p.made ++ rest = pre ++ x :: post) :=
      hi.asks_tail hp hrest h
    by_cases hresume : p.call.IsResume
    · generalize p.made ++ rest = more at hans hasks
      cases more with
      | nil => exact .inl ⟨[], hans, by simp⟩
      | cons x more =>
        cases more with
        | nil =>
          obtain ⟨-, hhead⟩ := (@hasks [] _ _ rfl).resume hresume
          by_cases hx : Resumes x
          · exact .inr ⟨p, x, hp, hresume, hans, hx⟩
          · refine .inl ⟨[x], hans, fun y hy => ?_⟩
            rw [List.mem_singleton.mp hy]
            exact ⟨told_of_head hhead (by decide) (by decide), hx⟩
        | cons y more =>
          cases ((@hasks [x] _ _ rfl).resume hresume).1
    · refine .inl ⟨_, hans, fun x hx => ?_⟩
      obtain ⟨pre, post, hx⟩ := List.append_of_mem hx
      exact ((hasks hx).aside hst hresume).plain

theorem Inv.agrees (hb : DataClientServerRunner.Built t₀) (hi : Inv cli conf c₀ t₀ j)
    (hst : j.client.state = .vmStopped) :
    ∃ db t, Talks j.app db t ∧ (Agrees j db ∨ Resuming j t) := by
  have hne : j.made ≠ [] := by
    intro hnil
    obtain ⟨hexs, -⟩ := List.append_eq_nil_iff.mp hnil
    have htalked := hi.talked
    rw [hexs] at htalked
    cases htalked.known (fun x hx => by cases hx) hst
  obtain ⟨db, t, ht⟩ := hi.silent hne
  have htold := Dialogue.told (ht.reaches hb hi.app)
  refine ⟨db, t, ht, ?_⟩
  rcases hi.tail hb ht hst with ⟨more, hans, hplain⟩ | hresuming
  · have hchecked := htold.checked
    rw [hans] at hchecked
    refine .inl (htold.known _ ?_)
    rw [hans, known_plain hplain]
    exact hi.talked.known (fun x hx => hchecked x (List.mem_append_left _ hx)) hst
  · exact .inr hresuming

end Inv

/-! ## Over every run -/

section Runs

variable {cli : ClientHandler api C} {conf : ServerConfig} {c₀ : C} {t₀ : Threads}
  {j j' j₁ j₂ : Peers V C} {db : Debugger V} {t : Threads}

/-- A client that takes the program for stopped goes on doing so. -/
theorem Step.vmStopped (h : Step cli conf c₀ t₀ j j')
    (hno : ∀ type, ¬ Finishes (.resume type) (.ok ()) j j') (hst : j.client.state = .vmStopped) :
    j'.client.state = .vmStopped := by
  cases h with
  | @finish _ α k r hf =>
    obtain ⟨made, c', hp, hmakes, rfl⟩ := hf
    refine hmakes.stays hst fun hk => ?_
    cases k with
    | resume type =>
      cases r with
      | error e => exact ⟨e, rfl⟩
      | ok u => exact absurd ⟨made, c', hp, hmakes, rfl⟩ (hno type)
    | _ => exact hk.elim
  | _ => exact hst

/-- What the server does meanwhile, with the connection. -/
theorem Step.app (h : Step cli conf c₀ t₀ j j') :
    (fitting cli conf c₀ t₀).Steps j.app j'.app ∧
      ∀ db t, Talks j.app db t → ∃ db' t', Talks j'.app db' t' := by
  cases h with
  | server hst _ hstands => exact ⟨.single hst, hstands⟩
  | finish hf =>
    obtain ⟨made, c', -, -, rfl⟩ := hf
    exact ⟨.refl, fun db t ht => ⟨db, t, ht⟩⟩
  | _ => exact ⟨.refl, fun db t ht => ⟨db, t, ht⟩⟩

theorem steps_app (h : (machine cli conf c₀ t₀).Steps j j') :
    (fitting cli conf c₀ t₀).Steps j.app j'.app ∧
      ∀ db t, Talks j.app db t → ∃ db' t', Talks j'.app db' t' := by
  induction h with
  | refl => exact ⟨.refl, fun db t ht => ⟨db, t, ht⟩⟩
  | tail _ hst ih =>
    obtain ⟨happ, hstands⟩ := Step.app hst
    refine ⟨ih.1.trans happ, fun db t ht => ?_⟩
    obtain ⟨db', t', ht'⟩ := ih.2 db t ht
    exact hstands db' t' ht'

/-- What the client and the debugger do from one call to another is a dialogue. -/
theorem dialogue (hb : DataClientServerRunner.Built t₀) (h : (machine cli conf c₀ t₀).Reachable j)
    (ht : Talks j.app db t) (hans : t.answered = j.exs) (hs : (machine cli conf c₀ t₀).Steps j j')
    (hp : j'.pending = none) :
    ∃ db' t', Talks j'.app db' t' ∧ t'.answered = j'.exs ∧
      (Dialogue.machine api).Steps (db, j.exs) (db', j'.exs) := by
  obtain ⟨happ, hstands⟩ := steps_app hs
  obtain ⟨db', t', ht'⟩ := hstands db t ht
  have hans' := (Inv.of_reachable (h.steps hs)).answered_eq hb ht' hp
  have hsteps := ht.steps hb (Inv.of_reachable h).app happ ht'
  rw [hans, hans'] at hsteps
  exact ⟨db', t', ht', hans', hsteps⟩

/-- A `stop` whose request comes when the program is stopped throws, and changes nothing. -/
theorem stop_refused (hb : DataClientServerRunner.Built t₀)
    (h : (machine cli conf c₀ t₀).Reachable j) (ht : Talks j.app db t) (hans : t.answered = j.exs)
    (hst : DbControl.isStopped db.state = true) (hs : (machine cli conf c₀ t₀).Steps j j₁)
    (hexs : j₁.exs = j.exs) {r : Except Fault Unit} (hf : Finishes .stop r j₁ j₂) :
    r = .error (.vmError stoppedMsg) ∧ j₂.client = j₁.client ∧ j₁.client.state = .vmRunning ∧
      ∃ db₂ t₂, Talks j₂.app db₂ t₂ ∧ t₂.answered = j₂.exs ∧ Debugger.SameView db db₂ := by
  have hs₂ := hs.tail (Step.finish hf)
  obtain ⟨made, c', -, hmakes, rfl⟩ := hf
  obtain ⟨db₂, t₂, ht₂, hans₂, hsteps⟩ := dialogue hb h ht hans hs₂ rfl
  rw [hexs] at hsteps
  obtain ⟨hrun, res, ⟨rfl, rfl, hr⟩ | ⟨res', ⟨req, hok⟩, rfl, -⟩⟩ := hmakes.stop
  · have hsame := still_stopped hst hsteps (by decide) rfl
    obtain rfl := stop_answer hst hsteps rfl
    rw [response_err _ (by decide)] at hr
    exact ⟨hr, rfl, hrun, db₂, t₂, ht₂, hans₂, hsame⟩
  · obtain rfl := stop_answer hst hsteps rfl
    rw [response_err _ (by decide)] at hok
    cases hok

/-- A `check_stopped` whose request comes when the program is stopped tells the client where. -/
theorem checkStopped_tells (hb : DataClientServerRunner.Built t₀)
    (h : (machine cli conf c₀ t₀).Reachable j) (ht : Talks j.app db t) (hans : t.answered = j.exs)
    (hst : DbControl.isStopped db.state = true) (hs : (machine cli conf c₀ t₀).Steps j j₁)
    (hexs : j₁.exs = j.exs) {r : Except Fault Unit} (hf : Finishes .checkStopped r j₁ j₂) :
    r = .ok () ∧ j₂.client.state = .vmStopped ∧
      ∃ db₂ t₂, Talks j₂.app db₂ t₂ ∧ Debugger.SameView db db₂ ∧ j₂.client.udp = db₂.view := by
  have hs₂ := hs.tail (Step.finish hf)
  obtain ⟨made, c', -, hmakes, rfl⟩ := hf
  obtain ⟨db₂, t₂, ht₂, -, hsteps⟩ := dialogue hb h ht hans hs₂ rfl
  rw [hexs] at hsteps
  have hfits : db.Fits := (Inv.of_reachable h).app.of_within.2 _ ht.1
  obtain ⟨-, res, rfl, ⟨hnone, -⟩ | ⟨hr, udp, hudp, rfl⟩⟩ := hmakes.checkStopped
  · cases hnone.symm.trans (checkStopped_answer hst hfits hsteps rfl)
  · have hsame := still_stopped hst hsteps (by decide) rfl
    obtain rfl := Option.some.inj (hudp.symm.trans (checkStopped_answer hst hfits hsteps rfl))
    exact ⟨hr, rfl, db₂, t₂, ht₂, hsame, hsame.view_eq.symm⟩

/-- A client that takes the program for stopped is right until a `resume` is answered with success;
and a `stop` that comes too late throws, after which `check_stopped` tells where the program is. -/
theorem stopped_agrees (hb : DataClientServerRunner.Built t₀)
    (h : (machine cli conf c₀ t₀).Reachable j) :
    (j.client.state = .vmStopped → ∀ j', (unresumed cli conf c₀ t₀).Steps j j' →
      j'.client.state = .vmStopped ∧
        ∃ db t, Talks j'.app db t ∧ (Agrees j' db ∨ Resuming j' t)) ∧
    ∀ db t, Talks j.app db t → t.answered = j.exs → DbControl.isStopped db.state = true →
      ∀ j₁ j₂ r, (machine cli conf c₀ t₀).Steps j j₁ → j₁.exs = j.exs → Finishes .stop r j₁ j₂ →
        r = .error (.vmError stoppedMsg) ∧ j₂.client = j₁.client ∧
        j₁.client.state = .vmRunning ∧
        ∃ db₂ t₂, Talks j₂.app db₂ t₂ ∧ Debugger.SameView db db₂ ∧
          ∀ j₃ j₄ r', (machine cli conf c₀ t₀).Steps j₂ j₃ → j₃.exs = j₂.exs →
            Finishes .checkStopped r' j₃ j₄ →
            r' = .ok () ∧ j₄.client.state = .vmStopped ∧
              ∃ db₄ t₄, Talks j₄.app db₄ t₄ ∧ Debugger.SameView db db₄ ∧
                j₄.client.udp = db₄.view := by
  refine ⟨fun hst j' hs => ?_, fun db t ht hans hst j₁ j₂ r hs hexs hf => ?_⟩
  · suffices (machine cli conf c₀ t₀).Reachable j' ∧ j'.client.state = .vmStopped from
      ⟨this.2, (Inv.of_reachable this.1).agrees hb this.2⟩
    induction hs with
    | refl => exact ⟨h, hst⟩
    | tail _ hst' ih => exact ⟨ih.1.step hst'.1, Step.vmStopped hst'.1 hst'.2 ih.2⟩
  · obtain ⟨hr, hclient, hrun, db₂, t₂, ht₂, hans₂, hsame⟩ :=
      stop_refused hb h ht hans hst hs hexs hf
    refine ⟨hr, hclient, hrun, db₂, t₂, ht₂, hsame, fun j₃ j₄ r' hs' hexs' hf' => ?_⟩
    have h₂ := (h.steps hs).step (.finish hf)
    obtain ⟨hr', hstate, db₄, t₄, ht₄, hsame', hudp⟩ := checkStopped_tells hb h₂ ht₂ hans₂
      (hsame.state ▸ hst) hs' hexs' hf'
    exact ⟨hr', hstate, db₄, t₄, ht₄, hsame.trans hsame', hudp⟩

end Runs

/-! ## Sessions -/

section Session

variable {cli : ClientHandler api C} {conf : ServerConfig} {c₀ : C} {t₀ : Threads}
  {s s' : ServerApp V (C ⊕ Threads)} {db db' : Debugger V} {t t' : Threads}

/-- Before the first request the server does what it does without a client. -/
theorem reachable_before (hb : DataClientServerRunner.Built t₀)
    (h : (fitting cli conf c₀ t₀).Reachable s) (udp : DBClientUpdate)
    (hs : (∃ db t, Talks s db t ∧ t.received = []) ∨
      ∀ m, s.client = some m → m.state = .notConnected) :
    (machine cli conf c₀ t₀).Reachable ⟨s, .new udp, [], none⟩ := by
  induction h with
  | init hinit => exact .init ⟨hinit, udp, rfl⟩
  | @step s₁ s₂ hr hst ih =>
    have hi := reachable_inv hr.of_within.1
    rcases hs with ⟨db₂, t₂, ht₂, hnil⟩ | hn
    · have hst' : Step cli conf c₀ t₀ ⟨s₁, .new udp, [], none⟩ ⟨s₂, .new udp, [], none⟩ := by
        refine .server hst (fun db t ht => ?_) fun _ _ _ => ⟨db₂, t₂, ht₂⟩
        obtain ⟨-, rfl⟩ := ht₂.eq ht
        exact hnil ▸ List.nil_prefix
      rcases ServerApp.Step.talks hb hr.of_within.1 hst.1 ht₂ with ⟨db₁, t₁, ht₁, -⟩ | ⟨hn, -⟩
      · have hlog := (logged_of_step hr hst ht₁ ht₂).1
        rw [hnil, List.prefix_nil] at hlog
        exact (ih (.inl ⟨db₁, t₁, ht₁, hlog⟩)).step hst'
      · exact (ih (.inr hn)).step hst'
    · have hn₁ : ∀ m, s₁.client = some m → m.state = .notConnected := fun m hm => by
        by_contra hne
        obtain ⟨m', hm', hne'⟩ := ServerApp.Step.connected hst.1 hi hm hne
        exact hne' (hn m' hm')
      have hst' : Step cli conf c₀ t₀ ⟨s₁, .new udp, [], none⟩ ⟨s₂, .new udp, [], none⟩ := by
        refine .server hst (fun db t ht => ?_) fun db t ht => ?_
        · obtain ⟨-, m, hm, hstate, -⟩ := ht
          cases (hn m hm).symm.trans hstate
        · obtain ⟨-, m, hm, hstate, -⟩ := ht
          cases (hn₁ m hm).symm.trans hstate
      exact (ih (.inr hn₁)).step hst'

/-- What the server does until it has received what the client sent. -/
theorem server_steps {j : Peers V C} (hb : DataClientServerRunner.Built t₀)
    (h : (fitting cli conf c₀ t₀).Reachable j.app) (ht : Talks j.app db t)
    (hs : (fitting cli conf c₀ t₀).Steps j.app s) (ht' : Talks s db' t')
    (hreceived : t'.received <+: j.made.map Prod.fst ++ j.asked) :
    (machine cli conf c₀ t₀).Steps j { j with app := s } := by
  induction hs generalizing db' t' with
  | refl => exact .refl
  | @tail s₁ s₂ hs hst ih =>
    obtain ⟨m, hm, hn⟩ := ht.connected h hs
    obtain ⟨db₁, t₁, ht₁, -⟩ := Talks.before hb (h.steps hs) hst hm hn ht'
    have hlog := logged_of_step (h.steps hs) hst ht₁ ht'
    refine (ih ht₁ (hlog.1.trans hreceived)).tail (.server hst (fun db₂ t₂ ht₂ => ?_)
      fun _ _ _ => ⟨db', t', ht'⟩)
    obtain ⟨-, rfl⟩ := ht'.eq ht₂
    exact hreceived

/-- A call of one exchange. -/
theorem call_steps {k : ApiCall α} {c c' : DBClient} {exs : List Exchange} {req res : Bytes}
    {r : Except Fault α} (hb : DataClientServerRunner.Built t₀)
    (h : (fitting cli conf c₀ t₀).Reachable s) (ht : Talks s db t)
    (hs : (fitting cli conf c₀ t₀).Steps s s') (ht' : Talks s' db' t')
    (hreceived : t'.received = (exs ++ [(req, res)]).map Prod.fst)
    (hsent : t'.sent = (exs ++ [(req, res)]).map Prod.snd) (hmakes : Makes k c [(req, res)] r c') :
    ∃ j, (machine cli conf c₀ t₀).Steps ⟨s, c, exs, none⟩ j ∧ j.exs = exs ∧ j.client = c ∧
      Finishes k r j ⟨s', c', exs ++ [(req, res)], none⟩ := by
  have called : (machine cli conf c₀ t₀).Step ⟨s, c, exs, none⟩ ⟨s, c, exs, some ⟨k, [], none⟩⟩ :=
    .call k rfl
  have sent : (machine cli conf c₀ t₀).Step ⟨s, c, exs, some ⟨k, [], none⟩⟩
      ⟨s, c, exs, some ⟨k, [], some req⟩⟩ := .send rfl ⟨res, [], r, c', hmakes⟩
  have served := server_steps (j := ⟨s, c, exs, some ⟨k, [], some req⟩⟩) hb h ht hs ht' (by
    rw [hreceived, List.map_append]
    simp [made, asked])
  have got : Step cli conf c₀ t₀ ⟨s', c, exs, some ⟨k, [], some req⟩⟩
      ⟨s', c, exs, some ⟨k, [] ++ [(req, res)], none⟩⟩ := .receive rfl ht' (by
    rw [hsent, List.map_append]
    simp [made])
  exact ⟨_, ((served.head sent).head called).tail got, rfl, rfl, _, c', rfl, hmakes, rfl⟩

open Debugger (scripted)
open DataClientHandler (serveRequest)

/-- The server of the scripted VM, and its client. -/
abbrev scriptedPeers : Machine (Peers UpdateInfos ClientState) :=
  machine (anyClient scripted) ⟨true, true, false, true⟩ .notConnected built

/-- The client that has connected, and made these exchanges. -/
theorem connected_reachable {res : Bytes}
    (hserve : serveRequest scripted .runCommand stoppedDb [ReqType.connect.toByte] stoppedDb res)
    (hconnect : Makes .connect (.new Serial.blank) [([ReqType.connect.toByte], res)] (.ok ())
      connectedClient) :
    scriptedPeers.Reachable ⟨serving .head stoppedDb (readyAfter [([ReqType.connect.toByte], res)]
      [ReqType.connect.toByte] res), connectedClient, [([ReqType.connect.toByte], res)], none⟩ := by
  have start : scriptedPeers.Reachable
      ⟨serving .command stoppedDb (readyAfter [] [] []), .new Serial.blank, [], none⟩ :=
    reachable_before scripted_built idle_reachable _ (.inl ⟨_, _, talks_serving, rfl⟩)
  obtain ⟨j, hs, -, -, hf⟩ := call_steps scripted_built idle_reachable talks_serving
    (scripted_exchange hserve stoppedDb_fits stoppedDb_fits) talks_serving rfl rfl hconnect
  exact (start.steps hs).step (.finish hf)

/-- A client connects, resumes for one instruction, and stops the program, which has stopped
meanwhile: the `stop` throws, and `check_stopped` tells where the program is. -/
theorem stopped_agrees_session :
    ∃ j₀ j j₁ j₂ j₃ j₄ r r', scriptedPeers.Reachable j₀ ∧ j₀.client.state = .vmStopped ∧
      Agrees j₀ stoppedDb ∧ scriptedPeers.Steps j₀ j ∧ j.client.state = .vmRunning ∧
      (∃ t, Talks j.app steppedDb t) ∧ DbControl.isStopped steppedDb.state = true ∧
      scriptedPeers.Steps j j₁ ∧ Finishes .stop r j₁ j₂ ∧ r = .error (.vmError stoppedMsg) ∧
      j₂.client = j₁.client ∧ scriptedPeers.Steps j₂ j₃ ∧ Finishes .checkStopped r' j₃ j₄ ∧
      r' = .ok () ∧ j₄.client.state = .vmStopped ∧ j₄.client.udp = steppedDb.view := by
  obtain ⟨res, hserve, hconnect⟩ := connect_served
  have connected := connected_reachable hserve hconnect
  -- right after the client began to `resume`
  obtain ⟨-, db, t, ht, hagrees⟩ := (stopped_agrees scripted_built connected).1 rfl _
    (.single ⟨.call (.resume .step) rfl, fun type ⟨_, _, hp, _⟩ => by cases hp⟩)
  obtain ⟨rfl, rfl⟩ := talks_serving.eq ht
  have hagrees := hagrees.resolve_right fun ⟨_, _, _, _, hans, _⟩ =>
    List.cons_ne_nil _ _ (List.append_right_eq_self.mp hans.symm)
  -- the `resume`, and the instruction
  have hfit := (Inv.of_reachable connected).app
  obtain ⟨i, hs, -, -, hf⟩ := call_steps scripted_built hfit talks_serving
    ((scripted_again rfl stoppedDb_fits).trans
      (scripted_exchange resume_served.1 stoppedDb_fits resumedDb_fits)) talks_serving rfl rfl
    resume_served.2
  have resumed := hs.tail (Step.finish hf)
  have hstepped := Machine.Steps.mono (fun _ _ => scripted_fitting)
    (@stepped_steps (anyClient _) (fun _ => True) (fun _ _ => True) res (fun _ _ => trivial)
      fun _ => trivial)
  have hfit := (Inv.of_reachable (connected.steps resumed)).app
  have stepped := resumed.trans (server_steps scripted_built hfit talks_serving hstepped
    talks_serving List.prefix_rfl)
  have hreach := connected.steps stepped
  -- the `stop`
  have hserve' : serveRequest scripted .runCommand steppedDb [ReqType.stop.toByte] steppedDb
      (errResponse (what stoppedMsg)) := ⟨Serial.blank, [], [], answer_error rfl⟩
  have hlen : (what stoppedMsg).length ≤ maxBytes := by decide
  have hstop := @DBClient.makes_stop runningClient _ _ rfl (@response_err .stop ⟨⟩ _ hlen)
  have hfit := (Inv.of_reachable hreach).app
  obtain ⟨j₁, hs₁, hexs₁, -, hf₁⟩ := call_steps scripted_built hfit talks_serving
    (scripted_exchange hserve' steppedDb_fits steppedDb_fits) talks_serving rfl rfl hstop
  obtain ⟨hr, hclient, -, db₂, t₂, ht₂, -, hnext⟩ := (stopped_agrees scripted_built hreach).2 _ _
    talks_serving rfl rfl j₁ _ _ hs₁ hexs₁ hf₁
  -- the `check_stopped`
  obtain ⟨res', hrun, hres⟩ := @DataClientHandler.runCommand_checkStopped _ scripted steppedDb
    Serial.blank rfl steppedDb_fits
  have hcheck := @DBClient.makes_checkStopped runningClient _ _ rfl hres rfl
  have hreach₂ := (hreach.steps hs₁).step (.finish hf₁)
  have hfit := (Inv.of_reachable hreach₂).app
  obtain ⟨j₃, hs₃, hexs₃, -, hf₃⟩ := call_steps scripted_built hfit talks_serving
    ((scripted_again rfl steppedDb_fits).trans
      (scripted_exchange ⟨Serial.blank, [], [], hrun []⟩ steppedDb_fits steppedDb_fits))
    talks_serving rfl rfl hcheck
  obtain ⟨hr', hstate, db₄, t₄, ht₄, hsame, hudp⟩ := hnext j₃ _ _ hs₃ hexs₃ hf₃
  exact ⟨_, _, j₁, _, j₃, _, _, _, connected, rfl, hagrees, stepped, rfl, ⟨_, talks_serving⟩, rfl,
    hs₁, hf₁, hr, hclient, hs₃, hf₃, hr', hstate, hudp.trans hsame.view_eq⟩

end Session

end Peers

end Odb
