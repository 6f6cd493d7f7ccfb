import Mathlib.Data.Sum.Basic
import Odb.Server.Run

/-!
# Client handlers (`server/client-handler.hh`, `server/multi-client-handler.cc`)

A `ClientHandler` is known by what its calls may do; the calls of a handler are the only ones of the
API of the debugger. `MultiClientHandler` waits with all the handlers it has, and goes on with the
first that gets a client.
-/

namespace Odb

/-- `ClientHandler::State`. -/
inductive ClientState where
  /-- Waiting for a connection. -/
  | notConnected
  /-- Talking with client. -/
  | connected
  /-- End of connection. -/
  | disconnected
deriving DecidableEq, Repr

/-- A call of the API of the debugger that is survived. -/
def Command {V : Type} (api : VMApi V) (db db' : Debugger V) : Prop :=
  ∃ k, Debugger.Step api db (.call k) db'

/-- Any number of them. -/
abbrev Commands {V : Type} (api : VMApi V) : Debugger V → Debugger V → Prop :=
  Relation.ReflTransGen (Command api)

/-- A kind of client handler: the states it has, and what its calls and its own threads may do. A
call of a connected handler executes commands or finds the client gone. -/
structure ClientHandler {V : Type} (api : VMApi V) (H : Type) where
  state : H → ClientState
  setupConnection : H → Debugger V → H → Prop
  runCommand : H → Debugger V → H → Debugger V → Prop
  checkStopped : H → Debugger V → H → Debugger V → Prop
  /-- What happens to the handler between the calls. -/
  meanwhile : H → H → Prop
  runCommand_spec : ∀ {h db h' db'}, state h = .connected → runCommand h db h' db' →
    (state h' = .connected ∧ Commands api db db') ∨
      (state h' = .disconnected ∧ Commands api db db' ∧ db'.toDbControl = db.toDbControl)
  checkStopped_spec : ∀ {h db h' db'}, state h = .connected → checkStopped h db h' db' →
    (state h' = .connected ∧ (db' = db ∨ Debugger.stop.on db = (.ok (), db'))) ∨
      (state h' = .disconnected ∧ db' = db)
  meanwhile_spec : ∀ {h h'}, meanwhile h h' → state h' = state h

/-- The members of `ServerConfig` that the server loop reads. -/
structure ServerConfig where
  enabled : Bool
  nostart : Bool
  modeServerCli : Bool
  modeTcp : Bool

structure MultiClientHandler (H : Type) where
  state : ClientState
  wait : List H
  main : Option H

namespace MultiClientHandler

variable {V H : Type} {api : VMApi V} (ch : ClientHandler api H)

/-- The constructor, with the handlers it makes. -/
def new (conf : ServerConfig) (cli data : H) : MultiClientHandler H where
  state := .notConnected
  wait := (if conf.modeServerCli then [cli] else []) ++ (if conf.modeTcp then [data] else [])
  main := none

def empty (m : MultiClientHandler H) : Bool := m.wait.isEmpty && m.main.isNone

/-- A call of `setup_connection` that finds no client. -/
def Waits (db : Debugger V) (h h' : H) : Prop :=
  ch.setupConnection h db h' ∧ ch.state h' ≠ .connected

/-- `setup_connection()`: `none` where its assertion fails. -/
inductive SetupConnection (m : MultiClientHandler H) (db : Debugger V) :
    Option (MultiClientHandler H) → Prop where
  | asserts : m.main ≠ none → SetupConnection m db none
  | connects {pre pre' post : List H} {h h' : H} : m.main = none → m.wait = pre ++ h :: post →
      List.Forall₂ (Waits ch db) pre pre' → ch.setupConnection h db h' →
      ch.state h' = .connected → SetupConnection m db (some ⟨.connected, [], some h'⟩)
  | waits {wait' : List H} : m.main = none → List.Forall₂ (Waits ch db) m.wait wait' →
      SetupConnection m db (some { m with wait := wait' })

/-- `run_command()` and `check_stopped()`, `call` being that of the main handler: `none` where the
assertion fails. -/
inductive CallMain (call : H → Debugger V → H → Debugger V → Prop) (m : MultiClientHandler H)
    (db : Debugger V) : Option (MultiClientHandler H × Debugger V) → Prop where
  | asserts : m.main = none → CallMain call m db none
  | returns {h h' : H} {db' : Debugger V} : m.main = some h → call h db h' db' →
      CallMain call m db (some ({ m with
        state := if ch.state h' = .disconnected then .disconnected else m.state
        main := some h' }, db'))

def RunCommand := CallMain ch ch.runCommand

def CheckStopped := CallMain ch ch.checkStopped

/-- Something happens to one of the handlers. -/
inductive Meanwhile : MultiClientHandler H → MultiClientHandler H → Prop where
  | waiting {m : MultiClientHandler H} {pre post : List H} {h h' : H} :
      m.wait = pre ++ h :: post → ch.meanwhile h h' →
      Meanwhile m { m with wait := pre ++ h' :: post }
  | main {m : MultiClientHandler H} {h h' : H} : m.main = some h → ch.meanwhile h h' →
      Meanwhile m { m with main := some h' }

/-! ## What always holds of it -/

/-- There is a main handler from the connection on, and it is in the state of the whole. -/
structure Ok (m : MultiClientHandler H) : Prop where
  main : ∀ h, m.main = some h → ch.state h = m.state ∧ m.state ≠ .notConnected
  waiting : m.main = none → m.state = .notConnected

variable {ch} {m : MultiClientHandler H}

theorem ok_new (conf : ServerConfig) (cli data : H) : Ok ch (new conf cli data) :=
  ⟨fun _ h => (Option.some_ne_none _ h.symm).elim, fun _ => rfl⟩

/-- The assertions on `_main` hold where the functions are called. -/
theorem Ok.main_ne_none (hm : Ok ch m) (h : m.state ≠ .notConnected) : m.main ≠ none := fun hn =>
  h (hm.waiting hn)

theorem Ok.main_eq_none (hm : Ok ch m) (h : m.state = .notConnected) : m.main = none := by
  cases hmain : m.main with
  | none => rfl
  | some hd => exact absurd h (hm.main hd hmain).2

theorem SetupConnection.ok (hm : Ok ch m) (hs : m.state = .notConnected) {db : Debugger V}
    {r : Option (MultiClientHandler H)} (h : SetupConnection ch m db r) :
    ∃ m', r = some m' ∧ Ok ch m' ∧ m'.state ≠ .disconnected := by
  cases h with
  | asserts hn => exact absurd (hm.main_eq_none hs) hn
  | connects _ _ _ _ hc =>
    refine ⟨_, rfl, ⟨fun h hh => ?_, fun hn => by cases hn⟩, by simp⟩
    obtain rfl := Option.some.inj hh
    exact ⟨hc, by simp⟩
  | waits => exact ⟨_, rfl, ⟨hm.main, hm.waiting⟩, by simp [hs]⟩

/-- A call of a connected handler that does what `P` says to the debugger, or what `Q` says if the
client is gone. -/
theorem CallMain.ok {call : H → Debugger V → H → Debugger V → Prop}
    {P Q : Debugger V → Debugger V → Prop}
    (hspec : ∀ {h db h' db'}, ch.state h = .connected → call h db h' db' →
      (ch.state h' = .connected ∧ P db db') ∨ (ch.state h' = .disconnected ∧ Q db db'))
    (hm : Ok ch m) (hs : m.state = .connected) {db : Debugger V}
    {r : Option (MultiClientHandler H × Debugger V)} (h : CallMain ch call m db r) :
    ∃ m' db', r = some (m', db') ∧ Ok ch m' ∧
      ((m'.state = .connected ∧ P db db') ∨ (m'.state = .disconnected ∧ Q db db')) := by
  cases h with
  | asserts hn => exact absurd hn (hm.main_ne_none (by simp [hs]))
  | @returns hd h' db' hmain hcall =>
    refine ⟨_, db', rfl, ?_⟩
    rcases hspec ((hm.main hd hmain).1.trans hs) hcall with ⟨h1, h2⟩ | ⟨h1, h2⟩
    · exact ⟨⟨by simp [h1, hs], by simp⟩, .inl ⟨by simp [h1, hs], h2⟩⟩
    · exact ⟨⟨by simp [h1], by simp⟩, .inr ⟨by simp [h1], h2⟩⟩

theorem RunCommand.ok (hm : Ok ch m) (hs : m.state = .connected) {db : Debugger V}
    {r : Option (MultiClientHandler H × Debugger V)} (h : RunCommand ch m db r) :
    ∃ m' db', r = some (m', db') ∧ Ok ch m' ∧
      ((m'.state = .connected ∧ Commands api db db') ∨
        (m'.state = .disconnected ∧ Commands api db db' ∧ db'.toDbControl = db.toDbControl)) :=
  CallMain.ok (P := Commands api)
    (Q := fun db db' => Commands api db db' ∧ db'.toDbControl = db.toDbControl)
    ch.runCommand_spec hm hs h

theorem CheckStopped.ok (hm : Ok ch m) (hs : m.state = .connected) {db : Debugger V}
    {r : Option (MultiClientHandler H × Debugger V)} (h : CheckStopped ch m db r) :
    ∃ m' db', r = some (m', db') ∧ Ok ch m' ∧
      ((m'.state = .connected ∧ (db' = db ∨ Debugger.stop.on db = (.ok (), db'))) ∨
        (m'.state = .disconnected ∧ db' = db)) :=
  CallMain.ok (P := fun db db' => db' = db ∨ Debugger.stop.on db = (.ok (), db'))
    (Q := fun db db' => db' = db) ch.checkStopped_spec hm hs h

theorem Meanwhile.ok {m' : MultiClientHandler H} (h : Meanwhile ch m m') (hm : Ok ch m) :
    Ok ch m' ∧ m'.state = m.state := by
  cases h with
  | waiting => exact ⟨⟨hm.main, hm.waiting⟩, rfl⟩
  | @main hd h' hmain hw =>
    refine ⟨⟨fun h hh => ?_, fun hn => by cases hn⟩, rfl⟩
    obtain rfl := Option.some.inj hh
    rw [ch.meanwhile_spec hw]
    exact hm.main hd hmain

/-! ## What holds of every handler -/

end MultiClientHandler

/-- The calls keep `P`. -/
structure ClientHandler.Keeps {V H : Type} {api : VMApi V} (ch : ClientHandler api H)
    (P : H → Prop) : Prop where
  setupConnection : ∀ h db h', P h → ch.setupConnection h db h' → P h'
  runCommand : ∀ h db h' db', P h → ch.runCommand h db h' db' → P h'
  checkStopped : ∀ h db h' db', P h → ch.checkStopped h db h' db' → P h'
  meanwhile : ∀ h h', P h → ch.meanwhile h h' → P h'

namespace MultiClientHandler

variable {V H : Type} {api : VMApi V} {ch : ClientHandler api H} {m : MultiClientHandler H}
  {P : H → Prop}

/-- `P` holds of every handler of `m`. -/
def All (P : H → Prop) (m : MultiClientHandler H) : Prop :=
  (∀ h ∈ m.wait, P h) ∧ ∀ h, m.main = some h → P h

theorem all_new {conf : ServerConfig} {cli data : H} (hcli : P cli) (hdata : P data) :
    All P (new conf cli data) := by
  refine ⟨fun h hh => ?_, fun h hh => by cases hh⟩
  unfold new at hh
  rcases List.mem_append.mp hh with hh | hh <;> split at hh <;> simp at hh
  · exact hh ▸ hcli
  · exact hh ▸ hdata

theorem SetupConnection.all (hP : ch.Keeps P) (hm : All P m) {db : Debugger V}
    {r : Option (MultiClientHandler H)} (h : SetupConnection ch m db r) : ∀ m' ∈ r, All P m' := by
  rintro m' hm'
  cases h with
  | asserts => cases hm'
  | connects _ hw _ hset _ =>
    cases hm'
    refine ⟨by simp, fun h hh => ?_⟩
    cases hh
    exact hP.setupConnection _ _ _ (hm.1 _ (by simp [hw])) hset
  | @waits wait' _ hw =>
    cases hm'
    refine ⟨fun h hh => ?_, hm.2⟩
    obtain ⟨i, hi, rfl⟩ := List.mem_iff_getElem.mp hh
    have hi' : i < m.wait.length := hw.length_eq ▸ hi
    exact hP.setupConnection _ _ _ (hm.1 _ (List.getElem_mem hi')) (hw.get hi' hi).1

theorem CallMain.all {call : H → Debugger V → H → Debugger V → Prop}
    (hP : ∀ h db h' db', P h → call h db h' db' → P h') (hm : All P m) {db : Debugger V}
    {r : Option (MultiClientHandler H × Debugger V)} (h : CallMain ch call m db r) :
    ∀ p ∈ r, All P p.1 := by
  rintro p hp
  cases h with
  | asserts => cases hp
  | returns hmain hcall =>
    cases hp
    refine ⟨hm.1, fun h hh => ?_⟩
    cases hh
    exact hP _ _ _ _ (hm.2 _ hmain) hcall

theorem Meanwhile.all {m' : MultiClientHandler H} (hP : ch.Keeps P) (hm : All P m)
    (h : Meanwhile ch m m') : All P m' := by
  cases h with
  | waiting hw hmean =>
    refine ⟨fun h hh => ?_, hm.2⟩
    have hP' := hP.meanwhile _ _ (hm.1 _ (by simp [hw])) hmean
    rcases List.mem_append.mp hh with hh | hh
    · exact hm.1 h (by simp [hw, hh])
    · rcases List.mem_cons.mp hh with rfl | hh
      · exact hP'
      · exact hm.1 h (by simp [hw, hh])
  | main hmain hmean =>
    refine ⟨hm.1, fun h hh => ?_⟩
    cases hh
    exact hP.meanwhile _ _ (hm.2 _ hmain) hmean

end MultiClientHandler

/-- Handlers of two kinds. -/
def ClientHandler.sum {V H K : Type} {api : VMApi V} (ch : ClientHandler api H)
    (kh : ClientHandler api K) : ClientHandler api (H ⊕ K) where
  state := Sum.elim ch.state kh.state
  setupConnection h db h' :=
    Sum.LiftRel (ch.setupConnection · db ·) (kh.setupConnection · db ·) h h'
  runCommand h db h' db' := Sum.LiftRel (ch.runCommand · db · db') (kh.runCommand · db · db') h h'
  checkStopped h db h' db' :=
    Sum.LiftRel (ch.checkStopped · db · db') (kh.checkStopped · db · db') h h'
  meanwhile := Sum.LiftRel ch.meanwhile kh.meanwhile
  runCommand_spec hst h := by
    cases h with
    | inl h => exact ch.runCommand_spec hst h
    | inr h => exact kh.runCommand_spec hst h
  checkStopped_spec hst h := by
    cases h with
    | inl h => exact ch.checkStopped_spec hst h
    | inr h => exact kh.checkStopped_spec hst h
  meanwhile_spec h := by
    cases h with
    | inl h => exact ch.meanwhile_spec h
    | inr h => exact kh.meanwhile_spec h

theorem ClientHandler.Keeps.sum {V H K : Type} {api : VMApi V} {ch : ClientHandler api H}
    {kh : ClientHandler api K} {P : H → Prop} {Q : K → Prop} (hP : ch.Keeps P) (hQ : kh.Keeps Q) :
    (ch.sum kh).Keeps (Sum.elim P Q) where
  setupConnection h db h' hp hc := by
    cases hc with
    | inl hc => exact hP.setupConnection _ _ _ hp hc
    | inr hc => exact hQ.setupConnection _ _ _ hp hc
  runCommand h db h' db' hp hc := by
    cases hc with
    | inl hc => exact hP.runCommand _ _ _ _ hp hc
    | inr hc => exact hQ.runCommand _ _ _ _ hp hc
  checkStopped h db h' db' hp hc := by
    cases hc with
    | inl hc => exact hP.checkStopped _ _ _ _ hp hc
    | inr hc => exact hQ.checkStopped _ _ _ _ hp hc
  meanwhile h h' hp hc := by
    cases hc with
    | inl hc => exact hP.meanwhile _ _ hp hc
    | inr hc => exact hQ.meanwhile _ _ hp hc

end Odb
