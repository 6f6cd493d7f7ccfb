import Odb.Client.Agreement
import Odb.Client.Lines

/-!
# Programs with a command line

What the programs in `apps/` have in common: a client, the exchanges it made, and what they show.

* `UpToDate`: the last report tells where the client takes the program to be.
* `Knows`: a client that takes the program for stopped knows where it is.
-/

namespace Odb

open SimpleCLIClient (MakesLine Reported)
open DBClient (Makes Checked)

/-- What is shown. -/
inductive Shown where
  /-- The output of the line `state` that the program executes by itself. -/
  | state (text : Bytes)
  | prompt
  /-- A line that is read, where the program shows it. -/
  | line (cmd : Bytes)
  /-- The output of a line that was read. -/
  | output (text : Bytes)
deriving DecidableEq, Repr

/-- What is written for it, one write after the other; a text that ends without a newline gets
one. -/
def Shown.writes : Shown → List Bytes
  | state text => [text]
  | prompt => [lit "> "]
  | line cmd => [cmd, lit "\n"]
  | output text => text :: if text ≠ [] ∧ text.getLast? ≠ some 10 then [lit "\n"] else []

structure Console where
  client : DBClient
  out : List Shown
  /-- The exchanges made so far. -/
  exs : List Exchange

namespace Console

/-- All that was written. -/
def written (m : Console) : List Bytes := m.out.flatMap Shown.writes

/-- The last report tells where the client takes the program to be. -/
def UpToDate (m : Console) : Prop :=
  ∃ before text after, m.out = before ++ .state text :: after ∧
    (∀ text', Shown.state text' ∉ after) ∧ Reported m.client.udp m.exs text

variable {m m' : Console} {F : Floats} {c : DBClient} {more : List Exchange}

/-- More is shown, but no report. -/
theorem UpToDate.append (h : UpToDate m) {shown : List Shown} (hout : m'.out = m.out ++ shown)
    (hshown : ∀ text, Shown.state text ∉ shown) (hudp : m'.client.udp = m.client.udp)
    (hexs : m.exs ⊆ m'.exs) : UpToDate m' := by
  obtain ⟨before, text, after, hm, hafter, hrep⟩ := h
  refine ⟨before, text, after ++ shown, ?_, fun text' hmem => ?_, hudp ▸ hrep.mono hexs⟩
  · rw [hout, hm]
    simp
  · rcases List.mem_append.mp hmem with hmem | hmem
    · exact hafter _ hmem
    · exact hshown _ hmem

/-- A report. -/
theorem UpToDate.report {text : Bytes} (hc : m.client.state = .vmStopped)
    (hline : MakesLine F (lit "state") m.client more (.ok text) c) {shown : List Shown}
    (hshown : ∀ text, Shown.state text ∉ shown) :
    UpToDate ⟨c, m.out ++ .state text :: shown, m.exs ++ more⟩ := by
  obtain ⟨-, hudp, -⟩ := hline.quiet SimpleCLIClient.state_asks
  have hrep : Reported c.udp (m.exs ++ more) text :=
    hudp ▸ (hline.reported hc).mono (List.subset_append_right _ _)
  exact ⟨m.out, text, shown, rfl, hshown, hrep⟩

/-- A client that takes the program for stopped knows where. -/
def Knows (m : Console) : Prop :=
  m.client.state = .vmStopped → known m.exs = some m.client.udp

theorem Knows.call {α : Type} {k : DBClient.ApiCall α} {r : Except Fault α} (h : m.Knows)
    (hmakes : Makes k m.client more r c) (hmore : Checked more) {out : List Shown} :
    Knows ⟨c, out, m.exs ++ more⟩ := hmakes.known hmore h

theorem Knows.line {cmd text : Bytes} (h : m.Knows)
    (hline : MakesLine F cmd m.client more (.ok text) c) {out : List Shown} :
    Knows ⟨c, out, m.exs ++ more⟩ := (hline.known h).2

end Console

section Server

open ServerApp DataClientServerRunner DataClientHandler
open SimpleCLIClient (integral)

variable {V C : Type} {api : VMApi V} {cli : ClientHandler api C} {conf : ServerConfig} {c₀ : C}
  {t₀ : Threads} {s : ServerApp V (C ⊕ Threads)} {db : Debugger V} {t : Threads} {m : Console}

/-- What a user reads is right: the program is stopped where the last report tells, and it stays
there until the client makes another exchange. -/
structure Console.Right (api : VMApi V) (cli : ClientHandler api C) (conf : ServerConfig) (c₀ : C)
    (t₀ : Threads) (s : ServerApp V (C ⊕ Threads)) (db : Debugger V) (m : Console) : Prop where
  stopped : DbControl.isStopped db.state = true
  client : m.client.state = .vmStopped ∧ m.client.udp = db.view
  report : ∃ before text after, m.out = before ++ .state text :: after ∧
    (∀ text', Shown.state text' ∉ after) ∧ Reported db.view m.exs text
  stays : ∀ s' db' t', (fitting cli conf c₀ t₀).Steps s s' → Talks s' db' t' →
    t'.answered = m.exs → DbControl.isStopped db'.state = true ∧ db'.view = db.view

/-- With no message on its way, a client that knows where the program is and has reported it, is
right. -/
theorem Console.UpToDate.right (hup : m.UpToDate) (hknows : m.Knows)
    (hst : m.client.state = .vmStopped) (hb : Built t₀)
    (h : (fitting cli conf c₀ t₀).Reachable s) (ht : Talks s db t)
    (hreq : t.received = m.exs.map Prod.fst) (hres : t.sent = m.exs.map Prod.snd) :
    m.Right api cli conf c₀ t₀ s db := by
  obtain ⟨⟨hstopped, hudp⟩, hlater⟩ := known_view hb h ht hreq hres (hknows hst)
  refine ⟨hstopped, ⟨hst, hudp⟩, hudp ▸ hup, fun s' db' t' hs ht' hexs => ?_⟩
  obtain ⟨more, hmore, hsame⟩ := hlater s' db' t' hs ht'
  obtain rfl : more = [] := List.append_right_eq_self.mp (hmore.symm.trans hexs)
  obtain ⟨hst', hview⟩ := hsame (List.forall_mem_nil _)
  exact ⟨hst', hview.symm.trans hudp⟩

/-- The server of the scripted VM refuses the symbols. -/
theorem Console.state_served :
    ∃ req res, serveRequest Debugger.scripted .runCommand stoppedDb req stoppedDb res ∧
      MakesLine integral (lit "state") connectedClient [(req, res)] (.ok (lit "Error: "))
        connectedClient := by
  have hanswer : (DataClientHandler.runCommand Debugger.scripted Serial.blank).on
      ⟨stoppedDb, [14, 4, 0, 0, 0, 0, 0, 0, 0, 1, 0, 0, 0, 0, 0, 0, 0], []⟩ =
      (.ok (), ⟨stoppedDb, [], errResponse (what [])⟩) :=
    @answer_error _ .getSymsByAddr (runSwitch Debugger.scripted Serial.blank) _ _ _ _ _ _ rfl
  exact ⟨_, _, ⟨Serial.blank, [], [], hanswer⟩,
    SimpleCLIClient.state_refused rfl rfl rfl (response_err _ (by decide))⟩

end Server

theorem checked_append {exs more : List Exchange} (h : Checked (exs ++ more)) :
    Checked exs ∧ Checked more :=
  ⟨fun x hx => h x (List.mem_append_left _ hx), fun x hx => h x (List.mem_append_right _ hx)⟩

end Odb
