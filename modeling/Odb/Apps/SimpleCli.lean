import Odb.Apps.Console

/-!
# The simple command line client (`apps/odb-client-simple-cli/main.cc`)

It connects, waits until the program is stopped, reports where, and executes the lines that it
reads.

* `Session`, `Step`: `main`, over the exchanges it makes.
* `Inv`: what it knows at each place.
* `prompt_right`: what its user reads last of the program is right.
-/

namespace Odb

open SimpleCLIClient (MakesLine Reported)
open DBClient (Makes Checked)

namespace SimpleCli

/-- Where `main` is. -/
inductive Pc where
  /-- At `db_client.connect()`. -/
  | connect
  /-- At the beginning of the body of `while (1)`. -/
  | top
  /-- At `db_client.check_stopped()` in `wait_stop()`. -/
  | wait
  /-- At the test of `print_state`. -/
  | print
  /-- At `std::getline()`. -/
  | prompt
  /-- It returned, or an exception ended it. -/
  | done
deriving DecidableEq, Repr

structure Session extends Console where
  pc : Pc
  printState : Bool

/-- The client made some exchanges. -/
def Session.made (m : Session) (c : DBClient) (more : List Exchange) (pc : Pc) : Session :=
  { m with client := c, exs := m.exs ++ more, pc }

/-- The prompt is shown on a terminal. -/
def ask (isTty : Bool) : List Shown := if isTty then [.prompt] else []

/-- A step of `main`. -/
inductive Step (F : Floats) (isTty : Bool) : Session → Session → Prop where
  | connect {m : Session} {c : DBClient} {more : List Exchange} : m.pc = .connect →
      Makes .connect m.client more (.ok ()) c → Step F isTty m (m.made c more .top)
  | leave {m : Session} : m.pc = .top → m.client.state ≠ .vmStopped →
      m.client.state ≠ .vmRunning → Step F isTty m { m with pc := .done }
  | running {m : Session} : m.pc = .top → m.client.state = .vmRunning →
      Step F isTty m { m with pc := .wait }
  | stopped {m : Session} : m.pc = .top → m.client.state = .vmStopped →
      Step F isTty m { m with pc := .print }
  | waiting {m : Session} {c : DBClient} {more : List Exchange} : m.pc = .wait →
      Makes .checkStopped m.client more (.ok ()) c → c.state = .vmRunning →
      Step F isTty m (m.made c more .wait)
  | waited {m : Session} {c : DBClient} {more : List Exchange} : m.pc = .wait →
      Makes .checkStopped m.client more (.ok ()) c → c.state ≠ .vmRunning →
      Step F isTty m { m.made c more .print with printState := true }
  | report {m : Session} {c : DBClient} {more : List Exchange} {text : Bytes} : m.pc = .print →
      m.printState = true → MakesLine F (lit "state") m.client more (.ok text) c →
      Step F isTty m { m.made c more .prompt with out := m.out ++ .state text :: ask isTty }
  | skip {m : Session} : m.pc = .print → m.printState = false →
      Step F isTty m { m with out := m.out ++ ask isTty, pc := .prompt }
  | quit {m : Session} : m.pc = .prompt → Step F isTty m { m with pc := .done }
  | line {m : Session} {c : DBClient} {more : List Exchange} {cmd text : Bytes} : m.pc = .prompt →
      cmd ≠ [] → MakesLine F cmd m.client more (.ok text) c →
      Step F isTty m { m.made c more .top with out := m.out ++ [.output text], printState := false }
  /-- An exception ends the program. -/
  | throws {m : Session} {c : DBClient} {more : List Exchange} {e : Fault} :
      (m.pc = .connect ∧ Makes .connect m.client more (.error e) c) ∨
        (m.pc = .wait ∧ Makes .checkStopped m.client more (.error e) c) ∨
        (m.pc = .print ∧ MakesLine F (lit "state") m.client more (.error e) c) ∨
        (m.pc = .prompt ∧ ∃ cmd, MakesLine F cmd m.client more (.error e) c) →
      Step F isTty m (m.made c more .done)

/-- The program, from the construction of the client on. -/
def machine (F : Floats) (isTty : Bool) : Machine Session where
  Init m := ∃ udp, m = ⟨⟨.new udp, [], []⟩, .connect, true⟩
  Step := Step F isTty

/-! ## What it knows -/

/-- What holds at each place. -/
structure Inv (m : Session) : Prop where
  knows : m.pc ≠ .done → m.Knows
  start : m.pc = .connect → m.printState = true
  stopped : m.pc = .print ∨ m.pc = .prompt → m.client.state = .vmStopped
  prompt : m.pc = .prompt → m.UpToDate
  quiet : m.pc = .top ∨ m.pc = .print → m.client.state = .vmStopped → m.printState = false →
    m.UpToDate

variable {F : Floats} {isTty : Bool} {m m' : Session}

theorem not_state_ask (text : Bytes) : Shown.state text ∉ ask isTty := by
  unfold ask
  split <;> simp

/-- What holds where the program is at its end, or waits for the program. -/
theorem Inv.of_running (hpc : m.pc = .done ∨ m.pc = .wait ∧ m.client.state = .vmRunning) :
    Inv m := by
  have hne {pc : Pc} (h : m.pc = pc) (hdone : pc ≠ .done) (hwait : pc ≠ .wait) : False := by
    rcases hpc with hpc | ⟨hpc, -⟩
    · exact hdone (h.symm.trans hpc)
    · exact hwait (h.symm.trans hpc)
  refine ⟨fun hd hst => ?_, fun h => (hne h (by simp) (by simp)).elim, fun h => ?_,
    fun h => (hne h (by simp) (by simp)).elim, fun h => ?_⟩
  · rcases hpc with hpc | ⟨-, hrun⟩
    · exact absurd hpc hd
    · cases hrun.symm.trans hst
  · rcases h with h | h <;> exact (hne h (by simp) (by simp)).elim
  · rcases h with h | h <;> exact (hne h (by simp) (by simp)).elim

/-- Every step keeps it, as long as the server answers. -/
theorem Step.inv (h : Step F isTty m m') (hi : Checked m.exs → Inv m) (hc : Checked m'.exs) :
    Inv m' := by
  cases h with
  | @connect c more hpc hmakes =>
    obtain ⟨hm, hmore⟩ := checked_append hc
    have hinv := hi hm
    refine ⟨fun _ => (hinv.knows (by simp [hpc])).call hmakes hmore, by simp [Session.made],
      by simp [Session.made], by simp [Session.made], fun _ _ hp => ?_⟩
    cases (hinv.start hpc).symm.trans hp
  | leave | quit | throws => exact .of_running (.inl rfl)
  | running hpc hst => exact .of_running (.inr ⟨rfl, hst⟩)
  | waiting hpc hmakes hrun => exact .of_running (.inr ⟨rfl, hrun⟩)
  | stopped hpc hst =>
    have hinv := hi hc
    exact ⟨fun _ => hinv.knows (by simp [hpc]), by simp, fun _ => hst, by simp,
      fun _ => hinv.quiet (.inl hpc)⟩
  | @waited c more hpc hmakes hrun =>
    obtain ⟨hm, hmore⟩ := checked_append hc
    exact ⟨fun _ => ((hi hm).knows (by simp [hpc])).call hmakes hmore, by simp,
      fun _ => hmakes.checkStopped_state.resolve_left hrun, by simp [Session.made], by simp⟩
  | @report c more text hpc hp hline =>
    have hinv := hi (checked_append hc).1
    have hst := hinv.stopped (.inl hpc)
    obtain ⟨hstate, -⟩ := hline.quiet SimpleCLIClient.state_asks
    exact ⟨fun _ => (hinv.knows (by simp [hpc])).line hline, by simp [Session.made],
      fun _ => hstate.trans hst, fun _ => .report hst hline not_state_ask, by simp [Session.made]⟩
  | skip hpc hp =>
    have hinv := hi hc
    have hst := hinv.stopped (.inl hpc)
    refine ⟨fun _ => hinv.knows (by simp [hpc]), by simp, fun _ => hst, fun _ => ?_, by simp⟩
    exact (hinv.quiet (.inr hpc) hst hp).append rfl not_state_ask rfl (List.Subset.refl _)
  | @line c more cmd text hpc _ hline =>
    have hinv := hi (checked_append hc).1
    have hst := hinv.stopped (.inr hpc)
    have hknows := hinv.knows (by simp [hpc])
    refine ⟨fun _ => hknows.line hline, by simp [Session.made], by simp [Session.made],
      by simp [Session.made], fun _ _ _ => ?_⟩
    exact (hinv.prompt hpc).append rfl (by simp) (hline.known hknows).1
      (List.subset_append_left _ _)

theorem reachable_inv (hr : (machine F isTty).Reachable m) (hc : Checked m.exs) : Inv m := by
  induction hr with
  | init hm =>
    obtain ⟨udp, rfl⟩ := hm
    exact ⟨fun _ hst => (by cases hst), fun _ => rfl, by simp, by simp, by simp⟩
  | step _ hst ih => exact Step.inv hst ih hc

section Server

open ServerApp DataClientServerRunner DataClientHandler
open SimpleCLIClient (integral)

variable {V C : Type} {api : VMApi V} {cli : ClientHandler api C} {conf : ServerConfig} {c₀ : C}
  {t₀ : Threads} {s : ServerApp V (C ⊕ Threads)} {db : Debugger V} {t : Threads}

/-- Whenever the program reads a line, what its user reads is right. -/
theorem prompt_right (hb : Built t₀) (h : (fitting cli conf c₀ t₀).Reachable s) (ht : Talks s db t)
    (hm : (machine F isTty).Reachable m) (hpc : m.pc = .prompt)
    (hreq : t.received = m.exs.map Prod.fst) (hres : t.sent = m.exs.map Prod.snd) :
    m.toConsole.Right api cli conf c₀ t₀ s db := by
  have hi := reachable_inv hm (checked_exs hb h ht hreq hres)
  exact (hi.prompt hpc).right (hi.knows (by simp [hpc])) (hi.stopped (.inr hpc)) hb h ht hreq hres

/-- The first line, which is read before the first instruction. -/
theorem prompt_right_first : ∃ m t, (machine integral true).Reachable m ∧ m.pc = .prompt ∧
    m.toConsole.Right Debugger.scripted (anyClient Debugger.scripted) ⟨true, true, false, true⟩
      .notConnected built (serving .command stoppedDb t) stoppedDb := by
  obtain ⟨res, hserve, hconnect⟩ := connect_served
  obtain ⟨req', res', hserve', hline⟩ := Console.state_served
  have hinit : (machine integral true).Reachable ⟨⟨.new Serial.blank, [], []⟩, .connect, true⟩ :=
    .init ⟨_, rfl⟩
  have hm := ((hinit.step (.connect rfl hconnect)).step (.stopped rfl rfl)).step
    (.report rfl rfl hline)
  have hreach := (idle_reachable.steps (idle_exchange hserve)).steps (idle_exchange hserve')
  exact ⟨_, _, hm, rfl, prompt_right scripted_built hreach
    ⟨rfl, _, rfl, rfl, rfl⟩ hm rfl rfl rfl⟩

end Server

end SimpleCli

end Odb
