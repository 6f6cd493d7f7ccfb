import Odb.Apps.Console
import Odb.Apps.ViewCommand

/-!
# The terminal client (`apps/odb-cli/main.cc`, `apps/odb-cli/cli.cc`)

It shows the code around the place of the program in one panel, and its reports and the command
lines in another. A `SIGINT` stops a running program.

* `Session`, `Step`: `main`, over the exchanges it makes.
* `Inv`: what it knows at each place.
* `reachable_vcmd`: the panel of the commands shows what was written.
* `screen_right`: what its user reads is right.
-/

namespace Odb

open SimpleCLIClient (MakesLine Reported asks command subSize)
open DBClient (Makes Checked)

namespace Cli

/-- Where `main` is. -/
inductive Pc where
  /-- At `_db_client.connect()`. -/
  | setup
  /-- At the first `render_all()`. -/
  | start
  /-- At the beginning of `next()`. -/
  | next
  /-- At `_db_client.check_stopped()` in `_wait_stop()`. -/
  | wait
  /-- After it. -/
  | waited
  /-- At `_db_client.stop()`. -/
  | stop
  /-- At the test of `state_switched()`. -/
  | print
  /-- At the `render_all()` after it. -/
  | render
  /-- At the beginning of the body of `while (true)` in `get_input()`. -/
  | input
  /-- At `std::cin.peek()`. -/
  | prompt
  /-- It returned, or an exception ended it. -/
  | done
deriving DecidableEq, Repr

structure Session extends Console where
  pc : Pc
  stateSwitch : Bool
  /-- `g_force_stop`. -/
  forceStop : Bool
  vcode : ViewCommand
  vcmd : ViewCommand

/-- The client made some exchanges. -/
def Session.made (m : Session) (c : DBClient) (more : List Exchange) (pc : Pc) : Session :=
  { m with client := c, exs := m.exs ++ more, pc }

/-- More is written to the panel of the commands. -/
def Session.write (m : Session) (shown : List Shown) : Session :=
  { m with
    out := m.out ++ shown
    vcmd := (shown.flatMap Shown.writes).foldl (fun v str => v.write str) m.vcmd }

/-- The line that `render_code()` executes. -/
def codeLine (vcode : ViewCommand) : Bytes := lit "code " ++ dec ((vcode.nrows + 1) % 2 ^ 64)

/-- A step of `main`. -/
inductive Step (F : Floats) : Session → Session → Prop where
  | sigint {m : Session} : Step F m { m with forceStop := true }
  | connect {m : Session} {c : DBClient} {more : List Exchange} : m.pc = .setup →
      Makes .connect m.client more (.ok ()) c →
      Step F m { m.made c more .start with stateSwitch := true }
  | renderStart {m : Session} {c : DBClient} {more : List Exchange} {text : Bytes} : m.pc = .start →
      MakesLine F (codeLine m.vcode) m.client more (.ok text) c →
      Step F m { m.made c more .next with vcode := m.vcode.clear.write text }
  | leave {m : Session} : m.pc = .next → m.client.state ≠ .vmStopped →
      m.client.state ≠ .vmRunning → Step F m { m with pc := .done }
  | running {m : Session} : m.pc = .next → m.client.state = .vmRunning →
      Step F m { m with forceStop := false, pc := .wait }
  | stopped {m : Session} : m.pc = .next → m.client.state = .vmStopped →
      Step F m { m with pc := .print }
  | check {m : Session} {c : DBClient} {more : List Exchange} : m.pc = .wait →
      Makes .checkStopped m.client more (.ok ()) c → Step F m (m.made c more .waited)
  /-- An error that comes after a `SIGINT` is ignored. -/
  | ignore {m : Session} {c : DBClient} {more : List Exchange} {msg : Bytes} : m.pc = .wait →
      m.forceStop = true → Makes .checkStopped m.client more (.error (.vmError msg)) c →
      Step F m (m.made c more .waited)
  | switched {m : Session} : m.pc = .waited → m.client.state ≠ .vmRunning →
      Step F m { m with stateSwitch := true, pc := .next }
  | again {m : Session} : m.pc = .waited → m.client.state = .vmRunning → m.forceStop = false →
      Step F m { m with pc := .wait }
  | force {m : Session} : m.pc = .waited → m.client.state = .vmRunning → m.forceStop = true →
      Step F m { m with pc := .stop }
  | stop {m : Session} {c : DBClient} {more : List Exchange} : m.pc = .stop →
      Makes .stop m.client more (.ok ()) c →
      Step F m { m.made c more .next with stateSwitch := true }
  | report {m : Session} {c : DBClient} {more : List Exchange} {text : Bytes} : m.pc = .print →
      m.stateSwitch = true → MakesLine F (lit "state") m.client more (.ok text) c →
      Step F m { (m.made c more .render).write [.state text] with stateSwitch := false }
  | skip {m : Session} : m.pc = .print → m.stateSwitch = false → Step F m { m with pc := .render }
  | render {m : Session} {c : DBClient} {more : List Exchange} {text : Bytes} : m.pc = .render →
      MakesLine F (codeLine m.vcode) m.client more (.ok text) c →
      Step F m { m.made c more .input with vcode := m.vcode.clear.write text }
  | ask {m : Session} : m.pc = .input → Step F m { m.write [.prompt] with pc := .prompt }
  /-- The end of the input. -/
  | quit {m : Session} : m.pc = .prompt → Step F m { m with pc := .done }
  | empty {m : Session} : m.pc = .prompt → Step F m { m.write [.line []] with pc := .input }
  | line {m : Session} {c : DBClient} {more : List Exchange} {cmd text : Bytes} : m.pc = .prompt →
      cmd ≠ [] → MakesLine F cmd m.client more (.ok text) c →
      Step F m ((m.made c more .next).write [.line cmd, .output text])
  /-- An exception ends the program. -/
  | throws {m : Session} {c : DBClient} {more : List Exchange} {e : Fault} :
      (m.pc = .setup ∧ Makes .connect m.client more (.error e) c) ∨
        (m.pc = .wait ∧ Makes .checkStopped m.client more (.error e) c ∧
          ∀ msg, e = .vmError msg → m.forceStop = false) ∨
        (m.pc = .stop ∧ Makes .stop m.client more (.error e) c) ∨
        (m.pc = .print ∧ MakesLine F (lit "state") m.client more (.error e) c) ∨
        ((m.pc = .start ∨ m.pc = .render) ∧
          MakesLine F (codeLine m.vcode) m.client more (.error e) c) →
      Step F m (m.made c more .done)
  | lineThrows {m : Session} {c : DBClient} {more : List Exchange} {cmd : Bytes} {e : Fault} :
      m.pc = .prompt → cmd ≠ [] → MakesLine F cmd m.client more (.error e) c →
      Step F m ((m.made c more .done).write [.line cmd])

/-- The panel of the commands, in a terminal of this size. -/
def commandPanel (rows cols : Nat) : ViewCommand :=
  .new (subSize (subSize rows (rows / 3)) 1) 4 (rows / 3) (subSize cols (2 * 3)) true

/-- The panel of the code. -/
def codePanel (rows cols : Nat) : ViewCommand :=
  .new 2 4 (subSize (subSize (commandPanel rows cols).row0 2) 2) (commandPanel rows cols).ncols
    false

/-- The program, from the construction of the client on. -/
def machine (F : Floats) (rows cols : Nat) : Machine Session where
  Init m := ∃ udp forceStop, m = ⟨⟨.new udp, [], []⟩, .setup, false, forceStop, codePanel rows cols,
    commandPanel rows cols⟩
  Step := Step F

theorem codeLine_quiet (vcode : ViewCommand) : .resume ∉ asks (command (codeLine vcode)) := by
  have hcode : codeLine vcode = lit "code" ++ 32 :: dec ((vcode.nrows + 1) % 2 ^ 64) := rfl
  rw [hcode, SimpleCLIClient.command_append (by decide) (by decide +kernel)]
  decide

/-! ## What it knows -/

/-- Where the program is stopped, as far as `main` is concerned. -/
def Pc.isStopped (pc : Pc) : Prop := pc = .print ∨ pc = .render ∨ pc = .input ∨ pc = .prompt

/-- What holds at each place. -/
structure Inv (m : Session) : Prop where
  knows : m.pc ≠ .done → m.Knows
  stopped : m.pc.isStopped → m.client.state = .vmStopped
  start : m.pc = .start → m.stateSwitch = true
  prompt : m.pc = .render ∨ m.pc = .input ∨ m.pc = .prompt → m.UpToDate
  quiet : m.pc = .next ∨ m.pc = .print → m.client.state = .vmStopped → m.stateSwitch = false →
    m.UpToDate

variable {F : Floats} {m m' : Session} {rows cols : Nat}

/-- What holds where the program may run. -/
theorem Inv.of_running (hdone : m.pc ≠ .done → m.Knows) (hstart : m.pc ≠ .start)
    (hpc : m.pc = .done ∨ m.pc = .wait ∨ m.pc = .waited ∨ m.pc = .stop ∨
      m.pc = .next ∧ m.stateSwitch = true) : Inv m := by
  refine ⟨hdone, fun h => ?_, fun h => absurd h hstart, fun h => ?_, fun h _ hs => ?_⟩
  · unfold Pc.isStopped at h
    rcases h with h | h | h | h <;> simp [h] at hpc
  · rcases h with h | h | h <;> simp [h] at hpc
  · rcases h with h | h <;> simp [h, hs] at hpc

/-- Every step keeps it, as long as the server answers. -/
theorem Step.inv (h : Step F m m') (hi : Checked m.exs → Inv m) (hc : Checked m'.exs) : Inv m' := by
  cases h with
  | sigint =>
    obtain ⟨h₁, h₂, h₃, h₄, h₅⟩ := hi hc
    exact ⟨h₁, h₂, h₃, h₄, h₅⟩
  | @connect c more hpc hmakes =>
    obtain ⟨hm, hmore⟩ := checked_append hc
    exact ⟨fun _ => ((hi hm).knows (by simp [hpc])).call hmakes hmore,
      by simp [Session.made, Pc.isStopped], fun _ => rfl, by simp [Session.made],
      by simp [Session.made]⟩
  | @renderStart c more text hpc hline =>
    have hinv := hi (checked_append hc).1
    exact .of_running (fun _ => (hinv.knows (by simp [hpc])).line hline) (by simp [Session.made])
      (.inr (.inr (.inr (.inr ⟨rfl, hinv.start hpc⟩))))
  | leave | quit | throws | lineThrows =>
    exact .of_running (fun h => absurd rfl h) (by simp [Session.made, Session.write]) (.inl rfl)
  | running hpc | again hpc =>
    exact .of_running (fun _ => (hi hc).knows (by simp [hpc])) (by simp) (.inr (.inl rfl))
  | force hpc =>
    exact .of_running (fun _ => (hi hc).knows (by simp [hpc])) (by simp)
      (.inr (.inr (.inr (.inl rfl))))
  | switched hpc =>
    exact .of_running (fun _ => (hi hc).knows (by simp [hpc])) (by simp)
      (.inr (.inr (.inr (.inr ⟨rfl, rfl⟩))))
  | check hpc hmakes | ignore hpc _ hmakes =>
    obtain ⟨hm, hmore⟩ := checked_append hc
    exact .of_running (fun _ => ((hi hm).knows (by simp [hpc])).call hmakes hmore)
      (by simp [Session.made]) (.inr (.inr (.inl rfl)))
  | stop hpc hmakes =>
    obtain ⟨hm, hmore⟩ := checked_append hc
    exact .of_running (fun _ => ((hi hm).knows (by simp [hpc])).call hmakes hmore)
      (by simp [Session.made]) (.inr (.inr (.inr (.inr ⟨rfl, rfl⟩))))
  | stopped hpc hst =>
    have hinv := hi hc
    exact ⟨fun _ => hinv.knows (by simp [hpc]), fun _ => hst, by simp, by simp,
      fun _ => hinv.quiet (.inl hpc)⟩
  | @report c more text hpc _ hline =>
    have hinv := hi (checked_append hc).1
    have hst := hinv.stopped (.inl hpc)
    obtain ⟨hstate, -⟩ := hline.quiet SimpleCLIClient.state_asks
    exact ⟨fun _ => (hinv.knows (by simp [hpc])).line hline, fun _ => hstate.trans hst,
      by simp [Session.made, Session.write], fun _ => .report hst hline (by simp),
      by simp [Session.made, Session.write]⟩
  | skip hpc hs =>
    have hinv := hi hc
    have hst := hinv.stopped (.inl hpc)
    exact ⟨fun _ => hinv.knows (by simp [hpc]), fun _ => hst, by simp,
      fun _ => hinv.quiet (.inr hpc) hst hs, by simp⟩
  | @render c more text hpc hline =>
    have hinv := hi (checked_append hc).1
    obtain ⟨hstate, hudp, -⟩ := hline.quiet (codeLine_quiet _)
    refine ⟨fun _ => (hinv.knows (by simp [hpc])).line hline,
      fun _ => hstate.trans (hinv.stopped (.inr (.inl hpc))), by simp [Session.made], fun _ => ?_,
      by simp [Session.made]⟩
    exact (hinv.prompt (.inl hpc)).append (List.append_nil _).symm (by simp) hudp
      (List.subset_append_left _ _)
  | ask hpc =>
    have hinv := hi hc
    refine ⟨fun _ => hinv.knows (by simp [hpc]), fun _ => hinv.stopped (.inr (.inr (.inl hpc))),
      by simp, fun _ => ?_, by simp⟩
    exact (hinv.prompt (.inr (.inl hpc))).append rfl (by simp) rfl (List.Subset.refl _)
  | empty hpc =>
    have hinv := hi hc
    refine ⟨fun _ => hinv.knows (by simp [hpc]), fun _ => hinv.stopped (.inr (.inr (.inr hpc))),
      by simp, fun _ => ?_, by simp⟩
    exact (hinv.prompt (.inr (.inr hpc))).append rfl (by simp) rfl (List.Subset.refl _)
  | @line c more cmd text hpc _ hline =>
    have hinv := hi (checked_append hc).1
    have hknows := hinv.knows (by simp [hpc])
    refine ⟨fun _ => hknows.line hline, by simp [Session.made, Session.write, Pc.isStopped],
      by simp [Session.made, Session.write], by simp [Session.made, Session.write], fun _ _ _ => ?_⟩
    exact (hinv.prompt (.inr (.inr hpc))).append rfl (by simp) (hline.known hknows).1
      (List.subset_append_left _ _)

theorem reachable_inv (hr : (machine F rows cols).Reachable m) (hc : Checked m.exs) : Inv m := by
  induction hr with
  | init hm =>
    obtain ⟨udp, forceStop, rfl⟩ := hm
    exact ⟨fun _ hst => (by cases hst), by simp [Pc.isStopped], by simp, by simp, by simp⟩
  | step _ hst ih => exact Step.inv hst ih hc

/-! ## The panel of the commands -/

theorem Step.vcmd (h : Step F m m') : ∃ strs, m'.written = m.written ++ strs ∧
    m'.vcmd = strs.foldl (fun v str => v.write str) m.vcmd := by
  have hwrite (shown : List Shown) (hout : m'.out = m.out ++ shown)
      (hvcmd : m'.vcmd = (shown.flatMap Shown.writes).foldl (fun v str => v.write str) m.vcmd) :
      ∃ strs, m'.written = m.written ++ strs ∧
        m'.vcmd = strs.foldl (fun v str => v.write str) m.vcmd := by
    refine ⟨shown.flatMap Shown.writes, ?_, hvcmd⟩
    unfold Console.written
    rw [hout, List.flatMap_append]
  cases h with
  | report | ask | empty | line | lineThrows => exact hwrite _ rfl rfl
  | _ => exact ⟨[], (List.append_nil _).symm, rfl⟩

/-- It shows what was written. -/
theorem reachable_vcmd (hr : (machine F rows cols).Reachable m) :
    m.vcmd = m.written.foldl (fun v str => v.write str) (commandPanel rows cols).clear := by
  induction hr with
  | init hm =>
    obtain ⟨udp, forceStop, rfl⟩ := hm
    rfl
  | step _ hst ih =>
    obtain ⟨strs, hwritten, hvcmd⟩ := Step.vcmd hst
    rw [hvcmd, ih, hwritten, List.foldl_append]

/-! ## The first code that is shown -/

/-- What the client was told when it connected. -/
def Begun (m : Session) : Prop :=
  (m.pc = .setup → m.exs = []) ∧ (m.pc = .start → ∃ x udp, m.exs = [x] ∧ told x = some udp ∧
    (udp.stopped = true → m.client.state = .vmStopped))

theorem Step.begun (h : Step F m m') (hb : Begun m) : Begun m' := by
  cases h with
  | sigint => exact hb
  | connect hpc hmakes =>
    obtain ⟨x, udp, rfl, htold, hst⟩ := hmakes.connect_returns
    refine ⟨by simp [Session.made], fun _ => ⟨_, udp, ?_, htold, hst⟩⟩
    show m.exs ++ _ = _
    rw [hb.1 hpc, List.nil_append]
  | _ => exact ⟨by simp [Session.made, Session.write], by simp [Session.made, Session.write]⟩

theorem reachable_begun (hr : (machine F rows cols).Reachable m) : Begun m := by
  induction hr with
  | init hm =>
    obtain ⟨udp, forceStop, rfl⟩ := hm
    exact ⟨fun _ => rfl, by simp⟩
  | step _ hst ih => exact Step.begun hst ih

/-! ## The user -/

section Server

open ServerApp DataClientServerRunner DataClientHandler
open SimpleCLIClient (integral)

variable {V C : Type} {api : VMApi V} {cli : ClientHandler api C} {conf : ServerConfig} {c₀ : C}
  {t₀ : Threads} {s : ServerApp V (C ⊕ Threads)} {db : Debugger V} {t : Threads}

/-- The scripted VM has no code. -/
theorem code_served :
    ∃ req res, serveRequest Debugger.scripted .runCommand stoppedDb req stoppedDb res ∧
      MakesLine integral (codeLine (codePanel 24 80)) connectedClient [(req, res)]
        (.ok (lit "Error: ")) connectedClient := by
  have hanswer : (DataClientHandler.runCommand Debugger.scripted Serial.blank).on
      ⟨stoppedDb, [16, 0, 0, 0, 0, 0, 0, 0, 0, 25, 0, 0, 0, 0, 0, 0, 0], []⟩ =
      (.ok (), ⟨stoppedDb, [], errResponse (what [])⟩) :=
    @answer_error _ .getCodeText (runSwitch Debugger.scripted Serial.blank) _ _ _ _ _ _ rfl
  have hwords : SimpleCLIClient.words (codeLine (codePanel 24 80)) = [lit "code", lit "12"] := by
    rfl
  exact ⟨_, _, ⟨Serial.blank, [], [], hanswer⟩,
    SimpleCLIClient.code_refused rfl hwords rfl rfl (response_err _ (by decide))⟩

end Server

end Cli

end Odb
