import Mathlib.Data.List.Induction
import Odb.Lib.Brackets
import Odb.Server.Run

/-!
# The call stack is the chain of unmatched calls

A run reports a word of updates, in which `CALL_SUB` opens a bracket and `RET_SUB` closes one.

* `stackAfter`: the call stack and the execution point as a function of the reported updates alone.
* `Run.stackAfter_eq`: that is what every run leaves, whatever else happens in it.
* `Frames`: one frame for the entry point and one for each of the calls at `ps`.
* `frames_stackAfter`: for the calls that are pending.
-/

namespace Odb

open Brackets

/-- The bracket that an update stands for. -/
def UpdateInfos.kind (u : UpdateInfos) : Kind :=
  match u.state with
  | .callSub => .opn
  | .retSub => .cls
  | _ => .other

/-- The program ended. -/
def UpdateInfos.terminal (u : UpdateInfos) : Bool := u.state = .error ∨ u.state = .exit

namespace DbControl

/-- The execution point after the updates `us`, from `e`: the one that ends the program has none. -/
def execPoint (e : VmPtr) (us : List UpdateInfos) : VmPtr :=
  us.foldl (fun addr u => if u.terminal then addr else u.actAddr) e

/-- What an update does to the call stack and the execution point. -/
def stackStep (uninit : VmPtr) (s : CallStack × VmPtr) (u : UpdateInfos) :
    Except Fault (CallStack × VmPtr) :=
  if u.terminal then .ok s
  else do
    let stack ← updateStack s.1 s.2 uninit u
    return (stack, u.actAddr)

/-- The call stack and the execution point after the updates `us`, from the entry point `e`. -/
def stackAfter (uninit e : VmPtr) (us : List UpdateInfos) : Except Fault (CallStack × VmPtr) :=
  us.foldlM (stackStep uninit) ([⟨e, uninit⟩], e)

/-- The call stack has one frame for the entry point `e` and one for each of the calls at `ps`. -/
structure Frames (e : VmPtr) (us : List UpdateInfos) (ps : List Nat) (stack : CallStack) :
    Prop where
  length : stack.length = ps.length + 1
  entry : stack[0]?.map CallInfos.callerStartAddr = some e
  /-- A call's frame starts at the address its update reported. -/
  start : ∀ k p : Nat, ps[k]? = some p →
    ∃ u, us[p]? = some u ∧ stack[k + 1]?.map CallInfos.callerStartAddr = some u.actAddr
  /-- The frame before it is at the execution point before the call. -/
  call : ∀ k p : Nat, ps[k]? = some p →
    stack[k]?.map CallInfos.callAddr = some (execPoint e (us.take p))

theorem execPoint_snoc (e : VmPtr) (us : List UpdateInfos) (u : UpdateInfos) :
    execPoint e (us ++ [u]) = if u.terminal then execPoint e us else u.actAddr := by
  simp [execPoint]

theorem stackAfter_snoc (uninit e : VmPtr) (us : List UpdateInfos) (u : UpdateInfos) :
    stackAfter uninit e (us ++ [u]) = stackAfter uninit e us >>= (stackStep uninit · u) := by
  simp [stackAfter]

/-! ## Frames under one more update -/

namespace Frames

variable {e : VmPtr} {us : List UpdateInfos} {ps : List Nat} {stack : CallStack}

/-- The frames are about the calls at `ps` only. -/
theorem extend (h : Frames e us ps stack) (u : UpdateInfos) : Frames e (us ++ [u]) ps stack where
  length := h.length
  entry := h.entry
  start k p hk := by
    obtain ⟨v, hv, hs⟩ := h.start k p hk
    have := (List.getElem?_eq_some_iff.mp hv).1
    exact ⟨v, by rw [List.getElem?_append_left this, hv], hs⟩
  call k p hk := by
    obtain ⟨v, hv, -⟩ := h.start k p hk
    have := (List.getElem?_eq_some_iff.mp hv).1
    rw [List.take_append_of_le_length this.le]
    exact h.call k p hk

theorem push (h : Frames e us ps stack) {back : CallInfos} (hb : stack.getLast? = some back)
    (u : UpdateInfos) (uninit : VmPtr) :
    Frames e (us ++ [u]) (ps ++ [us.length])
      (stack.dropLast ++ [{ back with callAddr := execPoint e us }, ⟨u.actAddr, uninit⟩]) := by
  have hx := h.extend u
  have hlen := h.length
  obtain ⟨front, rfl⟩ : ∃ front, stack = front ++ [back] := List.getLast?_eq_some_iff.mp hb
  rw [List.dropLast_concat]
  simp only [List.length_append, List.length_singleton] at hlen
  have hfront : front.length = ps.length := by omega
  refine ⟨by simp; omega, ?_, fun k p hk => ?_, fun k p hk => ?_⟩
  · rcases front with _ | ⟨f, front⟩
    · simpa using h.entry
    · simpa using h.entry
  · rcases Nat.lt_or_ge k ps.length with hlt | hge
    · rw [List.getElem?_append_left hlt] at hk
      obtain ⟨v, hv, hs⟩ := hx.start k p hk
      refine ⟨v, hv, ?_⟩
      rcases Nat.lt_or_ge (k + 1) front.length with h1 | h1
      · rwa [List.getElem?_append_left h1] at hs ⊢
      · have : k + 1 - front.length = 0 := by omega
        rw [List.getElem?_append_right h1, this] at hs ⊢
        simpa using hs
    · obtain rfl : k = ps.length := by
        have := (List.getElem?_eq_some_iff.mp hk).1
        simp at this
        omega
      simp only [List.getElem?_concat_length, Option.some.injEq] at hk
      subst hk
      refine ⟨u, by simp, ?_⟩
      rw [List.getElem?_append_right (by omega), ← hfront]
      simp
  · rcases Nat.lt_or_ge k ps.length with hlt | hge
    · rw [List.getElem?_append_left hlt] at hk
      have hc := hx.call k p hk
      rw [List.getElem?_append_left (by omega)] at hc ⊢
      exact hc
    · obtain rfl : k = ps.length := by
        have := (List.getElem?_eq_some_iff.mp hk).1
        simp at this
        omega
      simp only [List.getElem?_concat_length, Option.some.injEq] at hk
      subst hk
      rw [List.getElem?_append_right (by omega), ← hfront]
      simp

theorem pop (h : Frames e us ps stack) (u : UpdateInfos) (hp : ps ≠ []) :
    Frames e (us ++ [u]) ps.dropLast stack.dropLast := by
  have hx := h.extend u
  have hlen := h.length
  have hpos := List.length_pos_iff.mpr hp
  have hps : ∀ {k p}, ps.dropLast[k]? = some p → ps[k]? = some p ∧ k + 1 < ps.length := by
    intro k p hk
    have hlt := (List.getElem?_eq_some_iff.mp hk).1
    rw [List.length_dropLast] at hlt
    rw [List.getElem?_dropLast, if_pos hlt] at hk
    exact ⟨hk, by omega⟩
  have hst : ∀ {k}, k < ps.length → stack.dropLast[k]? = stack[k]? := by
    intro k hk
    rw [List.getElem?_dropLast, if_pos (by omega)]
  refine ⟨by simp; omega, ?_, fun k p hk => ?_, fun k p hk => ?_⟩
  · rw [hst hpos]
    exact hx.entry
  · obtain ⟨hk, hlt⟩ := hps hk
    rw [hst hlt]
    exact hx.start k p hk
  · obtain ⟨hk, hlt⟩ := hps hk
    rw [hst (by omega)]
    exact hx.call k p hk

end Frames

/-! ## The call stack is a function of the updates -/

/-- As long as no return is without a call, the call stack is the chain of pending calls. -/
theorem frames_stackAfter (uninit e : VmPtr) (us : List UpdateInfos)
    (hb : Within UpdateInfos.kind 0 us) :
    ∃ ps stack, stackAfter uninit e us = .ok (stack, execPoint e us) ∧
      Split UpdateInfos.kind us ps ∧ Frames e us ps stack := by
  induction us using List.reverseRecOn with
  | nil =>
    exact ⟨[], [⟨e, uninit⟩], rfl, .nested .nil, rfl, rfl, by simp, by simp⟩
  | append_singleton us u ih =>
    obtain ⟨ps, stack, hs, hsplit, hf⟩ := ih fun vs ws h => hb vs (ws ++ [u]) (by simp [h])
    have hne : stack ≠ [] := by
      rintro rfl
      simpa using hf.length
    rw [stackAfter_snoc, hs, ok_bind, execPoint_snoc]
    cases hu : u.state with
    | error | exit =>
      have ht : u.terminal = true := by simp [UpdateInfos.terminal, hu]
      refine ⟨ps, stack, by simp [stackStep, ht], hsplit.skip ?_, hf.extend u⟩
      simp [UpdateInfos.kind, hu]
    | ok =>
      have ht : u.terminal = false := by simp [UpdateInfos.terminal, hu]
      refine ⟨ps, stack, ?_, hsplit.skip (by simp [UpdateInfos.kind, hu]), hf.extend u⟩
      simp only [stackStep, ht, updateStack, hu]
      rfl
    | callSub =>
      have ht : u.terminal = false := by simp [UpdateInfos.terminal, hu]
      have hb := List.getLast?_eq_some_getLast hne
      refine ⟨_, _, ?_, hsplit.push (by simp [UpdateInfos.kind, hu]), hf.push hb u uninit⟩
      simp only [stackStep, ht, updateStack, hu, hb]
      rfl
    | retSub =>
      have ht : u.terminal = false := by simp [UpdateInfos.terminal, hu]
      have hk : u.kind = .cls := by simp [UpdateInfos.kind, hu]
      -- the return has a call to match, as it does not close more than was opened
      have hp : ps ≠ [] := by
        rintro rfl
        have h1 := hb (us ++ [u]) [] (by simp)
        have h2 := hsplit.opened_eq
        simp [hk] at h1 h2
        omega
      refine ⟨_, _, ?_, hsplit.pop hk hp, hf.pop u hp⟩
      simp only [stackStep, ht, updateStack, hu, assertThat_pos hne]
      rfl

end DbControl

namespace Debugger

open DbControl

/-- The updates that the VM reported in a run. -/
def updates (es : List Event) : List UpdateInfos :=
  es.filterMap fun
    | .update udp => some udp
    | .call _ => none

@[simp] theorem updates_snoc_update (es : List Event) (u : UpdateInfos) :
    updates (es ++ [.update u]) = updates es ++ [u] := by
  simp [updates]

@[simp] theorem updates_snoc_call (es : List Event) (k : Call) :
    updates (es ++ [.call k]) = updates es := by
  simp [updates]

theorem applyUpdate_stack {c c' : DbControl} {u : UpdateInfos} (h : c.update u = .ok c') :
    stackStep c.uninit (c.callStack, c.insAddr) u = .ok (c'.callStack, c'.insAddr) ∧
      c'.uninit = c.uninit := by
  unfold DbControl.update at h
  by_cases hr : isRunning c.state = true
  · rw [assertThat_pos hr, ok_bind] at h
    unfold applyUpdate at h
    unfold stackStep UpdateInfos.terminal
    cases hu : u.state with
    | error | exit =>
      simp only [hu] at h
      obtain rfl := Except.ok.inj h
      simp
    | ok | callSub | retSub =>
      simp only [hu] at h
      cases hs : updateStack c.callStack c.insAddr c.uninit u with
      | error =>
        rw [hs, error_bind] at h
        cases h
      | ok stack =>
        rw [hs, ok_bind] at h
        obtain rfl := Except.ok.inj h
        simp [pure, Except.pure]
  · simp [assertThat, hr] at h

/-- The program is at the same place. -/
structure SamePlace (c c' : DbControl) : Prop where
  callStack : c'.callStack = c.callStack
  insAddr : c'.insAddr = c.insAddr
  uninit : c'.uninit = c.uninit
  infos : c'.infos = c.infos

/-- No call moves the program. -/
theorem Call.samePlace (k : Call) (c : DbControl) : SamePlace c (k.control c) := by
  cases k with
  | addBreakpoint addr =>
    refine getD_toOption (P := SamePlace c) ⟨rfl, rfl, rfl, rfl⟩ fun c' h => ?_
    obtain ⟨-, -, rfl⟩ := addBreakpoint_ok h
    exact ⟨rfl, rfl, rfl, rfl⟩
  | delBreakpoint addr =>
    refine getD_toOption (P := SamePlace c) ⟨rfl, rfl, rfl, rfl⟩ fun c' h => ?_
    obtain ⟨-, -, rfl⟩ := delBreakpoint_ok h
    exact ⟨rfl, rfl, rfl, rfl⟩
  | resume type =>
    refine getD_toOption (P := SamePlace c) ⟨rfl, rfl, rfl, rfl⟩ fun c' h => ?_
    obtain ⟨-, -, rfl⟩ := resume_ok h
    exact ⟨rfl, rfl, rfl, rfl⟩
  | stop =>
    refine getD_toOption (P := SamePlace c) ⟨rfl, rfl, rfl, rfl⟩ fun c' h => ?_
    obtain ⟨-, rfl⟩ := stop_ok h
    exact ⟨rfl, rfl, rfl, rfl⟩
  | _ => exact ⟨rfl, rfl, rfl, rfl⟩

variable {V : Type} {api : VMApi V}

/-- Every run leaves the call stack and the execution point that its updates alone determine. -/
theorem Run.stackAfter_eq {db₀ db : Debugger V} {es : List Event} (hs : Started api db₀)
    (h : Run api db₀ es db) :
    stackAfter db₀.uninit db₀.insAddr (updates es) = .ok (db.callStack, db.insAddr) := by
  obtain ⟨-, hstack, -, -⟩ := hs.members
  suffices stackAfter db₀.uninit db₀.insAddr (updates es) = .ok (db.callStack, db.insAddr) ∧
      db.uninit = db₀.uninit from this.1
  refine h.induction (P := fun es c => stackAfter db₀.uninit db₀.insAddr (updates es) =
    .ok (c.callStack, c.insAddr) ∧ c.uninit = db₀.uninit) ⟨by rw [hstack]; rfl, rfl⟩ ?_ ?_
  · rintro es c udp c' ⟨ih, hu⟩ hc
    obtain ⟨hstep, hu'⟩ := applyUpdate_stack hc
    refine ⟨?_, hu'.trans hu⟩
    rw [updates_snoc_update, stackAfter_snoc, ih, ok_bind, ← hu]
    exact hstep
  · rintro es c k ⟨ih, hu⟩
    have hp := k.samePlace c
    refine ⟨?_, hp.uninit.trans hu⟩
    rw [updates_snoc_call, hp.callStack, hp.insAddr]
    exact ih

/-- The call stack is exactly the chain of unmatched calls, in call order, and nothing but the
reported updates has an influence on it. -/
theorem Run.callStack_eq_chain {db₀ db : Debugger V} {es : List Event} (hs : Started api db₀)
    (h : Run api db₀ es db) (hb : Within UpdateInfos.kind 0 (updates es)) :
    (∃ ps : List Nat, ps.Pairwise (· < ·) ∧
      (∀ i, i ∈ ps ↔ Pending UpdateInfos.kind (updates es) i) ∧
      Frames db₀.insAddr (updates es) ps db.callStack) ∧
    ∀ es' db', Run api db₀ es' db' → updates es' = updates es → db'.callStack = db.callStack := by
  have hst := h.stackAfter_eq hs
  obtain ⟨ps, stack, he, hsplit, hf⟩ := frames_stackAfter db₀.uninit db₀.insAddr _ hb
  obtain ⟨rfl, -⟩ := Prod.mk.inj (Except.ok.inj (he.symm.trans hst))
  refine ⟨⟨ps, hsplit.sorted, hsplit.mem_iff, hf⟩, fun es' db' h' hu => ?_⟩
  have hst' := h'.stackAfter_eq hs
  rw [hu, hst] at hst'
  exact (Prod.mk.inj (Except.ok.inj hst')).1.symm

/-- A VM that is its last update, and refuses everything else. -/
def scripted : VMApi UpdateInfos where
  getVmInfos vm := (.ok { noInfos with memorySize := 100 }, vm)
  getUpdateInfos vm := (.ok vm, vm)
  getReg _ _ _ vm := (.error [], vm)
  setReg _ _ vm := (.error [], vm)
  findRegId _ vm := (.error [], vm)
  readMem _ _ vm := (.error [], vm)
  writeMem _ _ _ vm := (.error [], vm)
  getSymbols _ _ vm := (.error [], vm)
  getSymbInfos _ vm := (.error [], vm)
  findSymId _ vm := (.error [], vm)
  getCodeText _ vm := (.error [], vm)

/-- The debugger of the scripted VM, started at address 4. -/
def scriptedDb : Debugger UpdateInfos := ((onInit scripted).on (new ⟨.ok, 4⟩ 0)).2

theorem scriptedDb_started : Started scripted scriptedDb := ⟨⟨.ok, 4⟩, 0, rfl⟩

/-- One event of a run of the scripted VM. -/
def scriptedStep (db : Debugger UpdateInfos) (e : Event) : Option (Debugger UpdateInfos) :=
  match e with
  | .update u =>
    match (onUpdate scripted).on { db with vm := u } with
    | (.ok _, db') => some db'
    | _ => none
  | .call k =>
    match (k.exec scripted).on db with
    | (.ok _, db') | (.error (.vmError _), db') => some db'
    | _ => none

theorem scriptedStep_step {db db' : Debugger UpdateInfos} {e : Event}
    (h : scriptedStep db e = some db') : Step scripted db e db' := by
  unfold scriptedStep at h
  cases e with
  | update u =>
    simp only at h
    split at h
    · next hr => exact .update rfl (Option.some.inj h ▸ hr)
    · simp at h
  | call k =>
    simp only at h
    split at h
    · next hr => exact .call (r := .ok _) (Option.some.inj h ▸ hr) trivial
    · next hr => exact .call (r := .error (.vmError _)) (Option.some.inj h ▸ hr) trivial
    · simp at h

/-- The debugger of the scripted VM after the events `es`. -/
def scriptedAfter (es : List Event) : Debugger UpdateInfos :=
  (es.foldlM scriptedStep scriptedDb).getD scriptedDb

theorem scripted_run_of {es : List Event} {db : Debugger UpdateInfos}
    (h : es.foldlM scriptedStep scriptedDb = some db) : Run scripted scriptedDb es db := by
  induction es using List.reverseRecOn generalizing db with
  | nil =>
    obtain rfl := Option.some.inj h
    exact .start
  | append_singleton es e ih =>
    rw [List.foldlM_append] at h
    obtain ⟨db', h', h⟩ := Option.bind_eq_some_iff.mp h
    simp only [List.foldlM_cons, List.foldlM_nil, bind_pure] at h
    exact .step (ih h') (scriptedStep_step h)

theorem scripted_run (es : List Event) (h : (es.foldlM scriptedStep scriptedDb).isSome) :
    Run scripted scriptedDb es (scriptedAfter es) := by
  obtain ⟨db, hdb⟩ := Option.isSome_iff_exists.mp h
  rw [scriptedAfter, hdb]
  exact scripted_run_of hdb

/-- A recursive call, of which the inner one returned: the outer one is pending. -/
theorem Run.callStack_eq_chain_rec :
    ∃ ps : List Nat, ps.Pairwise (· < ·) ∧
      (∀ i, i ∈ ps ↔ Pending UpdateInfos.kind
        [⟨.callSub, 10⟩, ⟨.ok, 11⟩, ⟨.callSub, 10⟩, ⟨.retSub, 12⟩] i) ∧
      Frames 4 [⟨.callSub, 10⟩, ⟨.ok, 11⟩, ⟨.callSub, 10⟩, ⟨.retSub, 12⟩] ps [⟨4, 4⟩, ⟨10, 11⟩] :=
  (Run.callStack_eq_chain scriptedDb_started
    (scripted_run [.update ⟨.callSub, 10⟩, .call .stop, .call (.resume .continue),
      .update ⟨.ok, 11⟩, .update ⟨.callSub, 10⟩, .update ⟨.retSub, 12⟩] rfl)
    (by decide)).1

end Debugger

end Odb
