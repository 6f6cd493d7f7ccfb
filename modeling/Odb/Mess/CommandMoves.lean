import Odb.Mess.ClientMoves
import Odb.Mess.SimpleCLIClient

/-!
# What commands do

A command line does to the implementation what the requests of its command stand for.

* `asks`: the requests of a command.
* `CommandStep`: a step of a command: of its requests, of the cache, or one that resumes the program.
* `exec_moves`: what a line does is such steps.
-/

namespace Odb

open Prog

namespace SimpleCLIClient

open DBClient

variable {F : Floats} {σ : Type} {impl : DBClientImpl σ} {cmd : List Bytes}

/-- The requests that the commands make, by their names. -/
def requests : List (Bytes × List ReqType) :=
  [(lit "preg", [.findRegsIds, .getRegsInfos, .getRegsVar]),
    (lit "sreg", [.findRegsIds, .getRegsInfos, .getSymsByIds, .getSymsByNames, .setRegsVar]),
    (lit "pregi", [.findRegsIds, .getRegsInfos]),
    (lit "pmem", [.getSymsByIds, .getSymsByNames, .readMemVar]),
    (lit "smem", [.getSymsByIds, .getSymsByNames, .writeMemVar]),
    (lit "psym", [.getSymsByIds, .getSymsByNames]),
    (lit "code", [.getCodeText, .getSymsByAddr, .getSymsByIds]),
    (lit "b", [.getSymsByIds, .getSymsByNames, .addBkps]),
    (lit "delb", [.getSymsByIds, .getSymsByNames, .delBkps]),
    (lit "c", [.resume]), (lit "continue", [.resume]), (lit "s", [.resume]), (lit "step", [.resume]),
    (lit "n", [.resume]), (lit "next", [.resume]), (lit "fin", [.resume]), (lit "finish", [.resume]),
    (lit "state", [.getSymsByAddr]), (lit "bt", [.getSymsByAddr])]

/-- The requests that the command with this name makes. -/
def asks (name : Bytes) : List ReqType :=
  match requests.find? (·.1 = name) with
  | some p => p.2
  | none => []

/-- The command that is the first word of the line. -/
def command (line : Bytes) : Bytes := (words line).headD []

section Moves

variable {α : Type} {R : σ → σ → Prop} {C : Fault → Prop} {T : List ReqType}

/-- The requests `T` do steps of `R`. -/
def Asks (impl : DBClientImpl σ) (R : σ → σ → Prop) (C : Fault → Prop) (T : List ReqType) : Prop :=
  ∀ (β : Type) (i : ImplCall β), i.type ∈ T → Moves R C (impl i)

theorem Asks.forward (hT : Asks impl R C T) {k : ImplCall α} (hk : k.type ∈ T) :
    CacheMoves R C (DBClient.forward impl k) := moves_forward (hT α k hk)

theorem moves_fail (msg : Bytes) : CacheMoves R C (fail msg : ClientM σ α) := .of_keeps (.fail _)

theorem moves_guard {p : Prop} [Decidable p] {msg : Bytes} {c : Unit → ClientM σ α}
    (hc : CacheMoves R C (c ())) : CacheMoves R C (if p then fail msg >>= c else c ()) :=
  .ite (.bind (moves_fail msg) fun _ => hc) hc

theorem moves_resolveRegs (hT : Asks impl R C T) (hfind : .findRegsIds ∈ T)
    (hinfos : .getRegsInfos ∈ T) (regs : List RegVariant) :
    CacheMoves R C (resolveRegs impl regs) := by
  refine .ite (.bind (moves_pure _) fun _ => moves_lift _) (.bind ?_ fun _ => moves_lift _)
  exact moves_findRegsIds (fun _ _ => hT _ _ hinfos) (fun _ _ => hT _ _ hfind) _ _

theorem moves_resolveSyms {K : Type} {pick : ValueVariant F.Double → Option K}
    {getSymbols : List K → List SymbolInfos → ClientM σ (List SymbolInfos)}
    (hget : ∀ keys out, CacheMoves R C (getSymbols keys out)) (vv : List (ValueVariant F.Double)) :
    CacheMoves R C (resolveSyms pick getSymbols vv) :=
  .ite (moves_pure _) (.bind (hget _ _) fun _ => moves_lift _)

theorem moves_resolveVals (hT : Asks impl R C T) (hids : .getSymsByIds ∈ T)
    (hnames : .getSymsByNames ∈ T) (vv : List (ValueVariant F.Double)) :
    CacheMoves R C (resolveVals impl vv) :=
  .bind (moves_resolveSyms (fun ids out => hT.forward (k := .getSymbolsByIds ids out) hids) vv) fun _ =>
    moves_resolveSyms (fun names out => hT.forward (k := .getSymbolsByNames names out) hnames) _

theorem moves_cmdPreg (hT : Asks impl R C [.findRegsIds, .getRegsInfos, .getRegsVar]) :
    CacheMoves R C (cmdPreg F impl cmd) := by
  unfold cmdPreg
  apply moves_guard
  refine .bind (moves_lift _) fun ty => .bind (moves_lift _) fun regs => ?_
  refine .bind (moves_resolveRegs hT (by simp) (by simp) regs) fun ids => .bind (moves_lift _) fun bufs => ?_
  exact .bind (moves_getRegs (fun _ _ => hT _ _ (by simp [ImplCall.type]))
    (fun _ _ _ => hT _ _ (by simp [ImplCall.type])) _ _ _) fun _ => moves_lift _

theorem moves_cmdSreg (hT : Asks impl R C
    [.findRegsIds, .getRegsInfos, .getSymsByIds, .getSymsByNames, .setRegsVar]) :
    CacheMoves R C (cmdSreg F impl cmd) := by
  unfold cmdSreg
  apply moves_guard
  refine .bind (moves_lift _) fun ty => .bind (moves_lift _) fun args => ?_
  refine .bind (moves_resolveRegs hT (by simp) (by simp) _) fun ids => ?_
  refine .bind (moves_resolveVals hT (by simp) (by simp) _) fun vals => ?_
  refine .bind (moves_lift _) fun _ => .bind (moves_lift _) fun bufs => ?_
  exact .bind (moves_setRegs (fun _ _ => hT _ _ (by simp [ImplCall.type]))
    (fun _ _ _ => hT _ _ (by simp [ImplCall.type])) _ _ _) fun _ => moves_pure _

theorem moves_cmdPregi (hT : Asks impl R C [.findRegsIds, .getRegsInfos]) :
    CacheMoves R C (cmdPregi impl cmd) := by
  unfold cmdPregi
  apply moves_guard
  refine .bind (moves_lift _) fun regs => .bind (moves_resolveRegs hT (by simp) (by simp) _) fun ids => ?_
  exact .bind (moves_getRegsInfos (fun _ _ => hT _ _ (by simp [ImplCall.type])) _ _) fun _ =>
    moves_pure _

theorem moves_cmdPmem (hT : Asks impl R C [.getSymsByIds, .getSymsByNames, .readMemVar]) :
    CacheMoves R C (cmdPmem F impl cmd) := by
  unfold cmdPmem
  apply moves_guard
  refine .bind (moves_lift _) fun ty => .bind (moves_lift _) fun n => .bind (moves_lift _) fun buff => ?_
  refine .bind (moves_lift _) fun val => .bind (moves_resolveVals hT (by simp) (by simp) _) fun vals => ?_
  refine .bind (moves_lift _) fun addr => ?_
  exact .bind (hT.forward (by simp [ImplCall.type])) fun _ => moves_lift _

theorem moves_cmdSmem (hT : Asks impl R C [.getSymsByIds, .getSymsByNames, .writeMemVar]) :
    CacheMoves R C (cmdSmem F impl cmd) := by
  unfold cmdSmem
  apply moves_guard
  refine .bind (moves_lift _) fun ty => .bind (moves_lift _) fun _ => .bind (moves_lift _) fun vals => ?_
  refine .bind (moves_resolveVals hT (by simp) (by simp) _) fun vals => .bind (moves_lift _) fun addr => ?_
  refine .bind (moves_lift _) fun items => ?_
  exact .bind (hT.forward (by simp [ImplCall.type])) fun _ =>
    moves_pure _

theorem moves_cmdPsym (hT : Asks impl R C [.getSymsByIds, .getSymsByNames]) :
    CacheMoves R C (cmdPsym F impl cmd) := by
  unfold cmdPsym
  apply moves_guard
  refine .bind (moves_lift _) fun val => ?_
  dsimp only
  split
  · exact .bind (hT.forward (by simp [ImplCall.type])) fun _ => moves_pure _
  · exact .bind (hT.forward (by simp [ImplCall.type])) fun _ => moves_pure _
  · exact .bind (moves_fail _) fun _ => moves_pure _

theorem moves_cmdCode (hT : Asks impl R C [.getCodeText, .getSymsByAddr, .getSymsByIds]) :
    CacheMoves R C (cmdCode impl cmd) := by
  unfold cmdCode
  refine .bind (moves_getter _) fun actAddr => .bind (moves_lift _) fun n => ?_
  refine .bind (hT.forward (by simp [ImplCall.type])) fun code => ?_
  refine .bind (moves_lift _) fun front => .bind (moves_lift _) fun back => ?_
  refine .bind (hT.forward (by simp [ImplCall.type])) fun symDefs => ?_
  refine .bind (moves_lift _) fun refs => ?_
  exact .bind (hT.forward (by simp [ImplCall.type])) fun _ => moves_lift _

theorem moves_cmdB (hT : Asks impl R C [.getSymsByIds, .getSymsByNames, .addBkps]) :
    CacheMoves R C (cmdB F impl cmd) := by
  unfold cmdB
  apply moves_guard
  refine .bind (moves_lift _) fun val => .bind (moves_resolveVals hT (by simp) (by simp) _) fun vals => ?_
  refine .bind (moves_lift _) fun addr => ?_
  exact .bind (hT.forward (by simp [ImplCall.type])) fun _ => moves_pure _

theorem moves_cmdDelb (hT : Asks impl R C [.getSymsByIds, .getSymsByNames, .delBkps]) :
    CacheMoves R C (cmdDelb F impl cmd) := by
  unfold cmdDelb
  apply moves_guard
  refine .bind (moves_lift _) fun val => .bind (moves_resolveVals hT (by simp) (by simp) _) fun vals => ?_
  refine .bind (moves_lift _) fun addr => ?_
  exact .bind (hT.forward (by simp [ImplCall.type])) fun _ => moves_pure _

theorem moves_cmdState (hT : Asks impl R C [.getSymsByAddr]) : CacheMoves R C (cmdState impl) := by
  unfold cmdState
  refine .bind (moves_getter _) fun pos => .bind (moves_getter _) fun st => ?_
  refine .bind (moves_getter _) fun cs => .bind (moves_lift _) fun last => ?_
  exact .bind (hT.forward (by simp [ImplCall.type])) fun _ => moves_pure _

theorem moves_cmdBt (hT : Asks impl R C [.getSymsByAddr]) : CacheMoves R C (cmdBt impl) := by
  unfold cmdBt
  refine .bind (moves_getter _) fun cs => .bind (moves_getter _) fun curr => ?_
  refine .bind (.mapM _ fun call => ?_) fun _ => moves_pure _
  refine .bind (hT.forward (by simp [ImplCall.type])) fun syms => ?_
  cases syms <;> exact moves_pure _

theorem moves_cmdVm : CacheMoves R C (cmdVm : ClientM σ Bytes) :=
  .bind (moves_getter _) fun _ => .bind (moves_getter _) fun _ => .bind (moves_getter _) fun _ =>
    moves_pure _

/-- A step of a command that makes the requests `types`. -/
def CommandStep (types : List ReqType) (R : σ → σ → Prop) (w w' : World σ) : Prop :=
  w'.client.udp = w.client.udp ∧ (w'.impl = w.impl ∨ R w.impl w'.impl) ∧
    (w'.client.state = w.client.state ∨ .resume ∈ types ∧ w'.client.state = .vmRunning)

/-- What `c` does is what a command does that makes the requests `T`. -/
abbrev CommandMoves (R : σ → σ → Prop) (C : Fault → Prop) (T : List ReqType) (c : ClientM σ α) :
    Prop := Moves (CommandStep T R) C c

theorem commandMoves {c : ClientM σ α} (hc : CacheMoves R C c) : CommandMoves R C T c :=
  hc.mono fun _ _ h => ⟨h.2.1, h.2.2, .inl h.1⟩

theorem moves_resume (hT : Asks impl R C T) (hres : .resume ∈ T) (type : ResumeType) :
    CommandMoves R C T (resume impl type) :=
  .bind (commandMoves (moves_assertState _)) fun _ =>
    .bind (commandMoves (moves_call (hT _ _ hres))) fun _ =>
      .of_step fun _ => ⟨rfl, .inl rfl, .inr ⟨hres, rfl⟩⟩

theorem CommandMoves.ite {p : Prop} [Decidable p] {c d : ClientM σ α}
    (hc : p → CommandMoves R C T c) (hd : CommandMoves R C T d) :
    CommandMoves R C T (if p then c else d) := by
  split
  · exact hc ‹_›
  · exact hd

/-- Every command does what its requests stand for. -/
theorem dispatch_moves {name : Bytes} (hT : Asks impl R C (asks name)) :
    CommandMoves R C (asks name) (dispatch F impl cmd name) := by
  have hnamed {types : List ReqType} {s : Bytes} {c : ClientM σ Bytes} (hs : asks s = types)
      (hc : Asks impl R C types → CacheMoves R C c) (h : name = s) :
      CommandMoves R C (asks name) c := commandMoves (hc (by rwa [← hs, ← h]))
  have hresume (type : ResumeType) {s s' : Bytes} (hs : asks s = [.resume])
      (hs' : asks s' = [.resume]) (h : name = s ∨ name = s') :
      CommandMoves R C (asks name) (resume impl type >>= fun _ => pure ([] : Bytes)) := by
    have hres : ReqType.resume ∈ asks name := by
      rcases h with rfl | rfl
      · exact hs ▸ List.mem_singleton_self _
      · exact hs' ▸ List.mem_singleton_self _
    exact .bind (moves_resume hT hres type) fun _ => commandMoves (moves_pure _)
  refine .ite (hnamed rfl moves_cmdPreg) (.ite (hnamed rfl moves_cmdSreg) ?_)
  refine .ite (hnamed rfl moves_cmdPregi) (.ite (hnamed rfl moves_cmdPmem) ?_)
  refine .ite (hnamed rfl moves_cmdSmem) (.ite (hnamed rfl moves_cmdPsym) ?_)
  refine .ite (hnamed rfl moves_cmdCode) (.ite (hnamed rfl moves_cmdB) ?_)
  refine .ite (hnamed rfl moves_cmdDelb) (.ite (hresume .continue rfl rfl) ?_)
  refine .ite (hresume .step rfl rfl) (.ite (hresume .stepOver rfl rfl) ?_)
  refine .ite (hresume .stepOut rfl rfl) (.ite (hnamed rfl moves_cmdState) ?_)
  refine .ite (hnamed rfl moves_cmdBt) (.ite (fun _ => commandMoves moves_cmdVm) ?_)
  exact commandMoves (moves_fail _)

/-- Every line does. -/
theorem exec_moves {line : Bytes} (hT : Asks impl R Caught (asks (command line))) :
    CommandMoves R Caught (asks (command line)) (exec F impl line) := by
  unfold command at *
  unfold exec
  cases h : words line with
  | nil => exact commandMoves (moves_pure _)
  | cons name args =>
    rw [h] at hT
    refine .handle (dispatch_moves hT) (fun e he => ?_) fun e he => ?_
    · cases e with
      | vmError msg => exact commandMoves (moves_pure _)
      | _ => cases he
    · cases e with
      | vmError msg => exact absurd trivial he
      | _ => rfl

end Moves

/-! ## Which commands make a request -/

/-- The commands that make one of the requests `types`. -/
def asking (types : List ReqType) : List Bytes :=
  (requests.filter fun p => types.any (· ∈ p.2)).map Prod.fst

theorem mem_asking {name : Bytes} {types : List ReqType} {ty : ReqType} (hty : ty ∈ types)
    (h : ty ∈ asks name) : name ∈ asking types := by
  unfold asks at h
  split at h
  · next p hp =>
    refine List.mem_map.mpr ⟨p, List.mem_filter.mpr ⟨List.mem_of_find?_eq_some hp, ?_⟩, ?_⟩
    · exact List.any_eq_true.mpr ⟨ty, hty, decide_eq_true h⟩
    · simpa using List.find?_some hp
  · cases h

theorem asking_resume : asking [.resume] =
    [lit "c", lit "continue", lit "s", lit "step", lit "n", lit "next", lit "fin", lit "finish"] := rfl

theorem asking_breakpoints : asking [.addBkps, .delBkps] = [lit "b", lit "delb"] := rfl

theorem asking_writes : asking [.setRegsVar, .writeMemVar] = [lit "sreg", lit "smem"] := rfl

theorem asks_state : asks (command (lit "state")) = [.getSymsByAddr] := rfl

theorem state_asks : .resume ∉ asks (command (lit "state")) := by simp [asks_state]

theorem no_stop (name : Bytes) : .stop ∉ asks name := fun h => by
  have := mem_asking (List.mem_singleton_self ReqType.stop) h
  cases this

end SimpleCLIClient

end Odb
