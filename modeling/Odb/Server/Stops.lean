import Mathlib.Order.Bounds.Basic
import Mathlib.Order.Lattice
import Mathlib.Tactic.IntervalCases
import Odb.Server.CallStack

/-!
# Where the program stops

After `resume` the VM reports updates until one of them leaves the debugger stopped.

* `docRule`: when the documentation of `ResumeType` has an update stop the program, `codeRule`:
  when `on_update` does.
* `stopsAt_iff`: `on_update` stops at the first update at which `codeRule` holds.
* `Run.stops_at_docRule`: for all types but `StepOut` that is where the documentation says.
* `Run.stepOut_iff`: for `StepOut` it is, unless a subroutine called on the way returns before.
-/

namespace Odb

open Brackets

namespace DbControl

/-- The call-stack depth after the updates `us`, from depth `d`. -/
def depthAfter (d : Nat) (us : List UpdateInfos) : Nat :=
  d + opened UpdateInfos.kind us - closed UpdateInfos.kind us

/-- `on_update` for each of the updates. -/
def runUpdates (c : DbControl) (us : List UpdateInfos) : Except Fault DbControl := us.foldlM update c

/-- `on_update` leaves the debugger stopped at update `n`, and running at all earlier ones. -/
structure StopsAt (c : DbControl) (us : List UpdateInfos) (n : Nat) : Prop where
  running : ∀ k ≤ n, ∃ c', c.runUpdates (us.take k) = .ok c' ∧ isRunning c'.state
  stopped : n < us.length ∧ ∃ c', c.runUpdates (us.take (n + 1)) = .ok c' ∧ c'.state = .stopped

/-- When an update stops a program that was resumed at depth `d`, as documented: `depth` is the
depth after the update, and `B` are the breakpoints. -/
def docRule (t : ResumeType) (d : Nat) (B : VmPtr → Prop) (depth : Nat) (u : UpdateInfos) : Prop :=
  match t with
  | .continue => B u.actAddr
  | .step => True
  | .stepOver => depth ≤ d ∨ B u.actAddr
  | .stepOut => depth < d ∨ B u.actAddr
  | .toFinish | .other _ => False

/-- When an update stops the program, as coded: `StepOut` takes any return for its own. -/
def codeRule (t : ResumeType) (d : Nat) (B : VmPtr → Prop) (depth : Nat) (u : UpdateInfos) : Prop :=
  match t with
  | .stepOut => u.state = .retSub ∨ B u.actAddr
  | t => docRule t d B depth u

/-- Update `k` ends the program. -/
def EndsAt (us : List UpdateInfos) (k : Nat) : Prop := ∃ u, us[k]? = some u ∧ u.terminal

/-- Update `k` ends the program, or stops it by the rule. -/
def HaltsAt (rule : Nat → UpdateInfos → Prop) (d : Nat) (us : List UpdateInfos) (k : Nat) : Prop :=
  ∃ u, us[k]? = some u ∧ (u.terminal ∨ rule (depthAfter d (us.take (k + 1))) u)

/-- The program runs since it was resumed with `t` at depth `d`. -/
structure Resumed (t : ResumeType) (d : Nat) (B : VmPtr → Prop) (c : DbControl) : Prop where
  state : runState t = some c.state
  depth : t = .stepOver → c.stepOverDepth = d
  breakpts : ∀ addr, addr ∈ c.breakpts ↔ B addr

/-! ## One update -/

theorem Resumed.running {t : ResumeType} {d : Nat} {B : VmPtr → Prop} {c : DbControl}
    (h : Resumed t d B c) : isRunning c.state = true := by
  have hs := h.state
  cases t <;> simp only [runState, Option.some.injEq, reduceCtorEq] at hs <;> rw [← hs] <;> rfl

/-- The depth changes by one with a call or a return. -/
theorem depthAfter_snoc {d : Nat} {us : List UpdateInfos} (hb : Within UpdateInfos.kind d us)
    (u : UpdateInfos) : depthAfter d (us ++ [u]) =
      match u.state with
      | .callSub => depthAfter d us + 1
      | .retSub => depthAfter d us - 1
      | _ => depthAfter d us := by
  have := hb us [] (by simp)
  unfold depthAfter
  cases hu : u.state <;> simp [UpdateInfos.kind, hu] <;> omega

/-- An update that does not end the program: the new execution point, the new depth, and the state
by `nextState`. -/
theorem update_ok {c : DbControl} {u : UpdateInfos} (hr : isRunning c.state = true)
    (hne : c.callStack ≠ []) (hu : u.terminal = false) :
    ∃ stack, updateStack c.callStack c.insAddr c.uninit u = .ok stack ∧
      stack.length = (match u.state with
        | .callSub => c.callStack.length + 1
        | .retSub => c.callStack.length - 1
        | _ => c.callStack.length) ∧
      c.update u = .ok { c with
        insAddr := u.actAddr, callStack := stack
        state := nextState { c with insAddr := u.actAddr, callStack := stack } u } := by
  have hpos := List.length_pos_iff.mpr hne
  unfold update applyUpdate
  rw [assertThat_pos hr, ok_bind]
  simp only [UpdateInfos.terminal, Bool.decide_or, Bool.or_eq_false_iff,
    decide_eq_false_iff_not] at hu
  cases hs : u.state with
  | error | exit => simp [hs] at hu
  | ok =>
    refine ⟨c.callStack, by simp [updateStack, hs], rfl, ?_⟩
    simp only [updateStack, hs]
    rfl
  | callSub =>
    have hb := List.getLast?_eq_some_getLast hne
    refine ⟨c.callStack.dropLast ++
      [{ c.callStack.getLast hne with callAddr := c.insAddr }, ⟨u.actAddr, c.uninit⟩],
      by simp only [updateStack, hs, hb], by simp; omega, ?_⟩
    simp only [updateStack, hs, hb]
    rfl
  | retSub =>
    refine ⟨c.callStack.dropLast, by simp [updateStack, hs, assertThat_pos hne, pure, Except.pure],
      by simp, ?_⟩
    simp only [updateStack, hs, assertThat_pos hne]
    rfl

/-- `on_update` stops the program exactly by `codeRule`, and else it goes on as before. -/
theorem Resumed.update {t : ResumeType} {d : Nat} {B : VmPtr → Prop} {c : DbControl}
    {us : List UpdateInfos} {u : UpdateInfos} (h : Resumed t d B c) (hd : 0 < depthAfter d us)
    (hlen : c.callStack.length = depthAfter d us) (hb : Within UpdateInfos.kind d us)
    (hu : u.terminal = false) :
    ∃ c', c.update u = .ok c' ∧ c'.callStack.length = depthAfter d (us ++ [u]) ∧
      (codeRule t d B (depthAfter d (us ++ [u])) u → c'.state = .stopped) ∧
      (¬ codeRule t d B (depthAfter d (us ++ [u])) u → Resumed t d B c') := by
  obtain ⟨stack, -, hstack, hupd⟩ := update_ok h.running (by
    rintro h0
    simp [h0] at hlen
    omega) hu
  rw [hlen, ← depthAfter_snoc hb u] at hstack
  refine ⟨_, hupd, hstack, ?_⟩
  have hs := h.state
  have hB := h.breakpts u.actAddr
  cases t with
  | other => simp [runState] at hs
  | toFinish =>
    have hst : c.state = .runningToFinish := (Option.some.inj hs).symm
    refine ⟨by simp [codeRule, docRule], fun _ => ⟨?_, by simp, h.breakpts⟩⟩
    simp [nextState, hst, runState]
  | «continue» =>
    have hst : c.state = .runningBkp := (Option.some.inj hs).symm
    refine ⟨fun hr => ?_, fun hr => ⟨?_, by simp, h.breakpts⟩⟩ <;>
      simp only [codeRule, docRule, ← hB] at hr <;> simp [nextState, hst, hr, runState]
  | step =>
    have hst : c.state = .runningStep := (Option.some.inj hs).symm
    refine ⟨fun _ => ?_, by simp [codeRule, docRule]⟩
    simp [nextState, hst]
  | stepOver =>
    have hst : c.state = .runningStepOver := (Option.some.inj hs).symm
    have hd := h.depth rfl
    refine ⟨fun hr => ?_, fun hr => ⟨?_, h.depth, h.breakpts⟩⟩ <;>
      simp only [codeRule, docRule, ← hB, ← hd] at hr <;>
      simp [nextState, hst, runState] <;> grind
  | stepOut =>
    have hst : c.state = .runningStepOut := (Option.some.inj hs).symm
    refine ⟨fun hr => ?_, fun hr => ⟨?_, by simp, h.breakpts⟩⟩ <;>
      simp only [codeRule, ← hB] at hr <;> simp [nextState, hst, runState] <;> grind

/-! ## A run of updates -/

theorem runUpdates_snoc (c : DbControl) (us : List UpdateInfos) (u : UpdateInfos) :
    c.runUpdates (us ++ [u]) = c.runUpdates us >>= (·.update u) := by
  simp [runUpdates]

theorem take_succ_of_getElem? {us : List UpdateInfos} {n : Nat} {u : UpdateInfos}
    (h : us[n]? = some u) : us.take (n + 1) = us.take n ++ [u] := by
  rw [List.take_add_one, h]
  rfl

theorem runUpdates_take_succ (c : DbControl) {us : List UpdateInfos} {n : Nat} {u : UpdateInfos}
    (h : us[n]? = some u) :
    c.runUpdates (us.take (n + 1)) = c.runUpdates (us.take n) >>= (·.update u) := by
  rw [take_succ_of_getElem? h, runUpdates_snoc]

section Resumed

variable {t : ResumeType} {d : Nat} {B : VmPtr → Prop} {c : DbControl} {us : List UpdateInfos}

theorem within_take {d : Nat} (hb : Within UpdateInfos.kind d us) (n : Nat) :
    Within UpdateInfos.kind d (us.take n) := by
  intro vs ws h
  exact hb vs (ws ++ us.drop n) (by rw [← List.append_assoc, ← h, List.take_append_drop])

/-- The outermost frame is never popped: the depth stays above 0. -/
theorem depthAfter_pos (hd : 0 < d) (hb : Within UpdateInfos.kind (d - 1) us) (n : Nat) :
    0 < depthAfter d (us.take n) := by
  have := hb (us.take n) (us.drop n) (List.take_append_drop n us).symm
  unfold depthAfter
  omega

theorem within_mono {d d' : Nat} (h : d ≤ d') (hb : Within UpdateInfos.kind d us) :
    Within UpdateInfos.kind d' us := by
  intro vs ws e
  have := hb vs ws e
  omega

/-- As long as nothing halts the program, it runs as it was resumed. -/
theorem Resumed.run (h : Resumed t d B c) (hd : 0 < d) (hlen : c.callStack.length = d)
    (hb : Within UpdateInfos.kind (d - 1) us) (n : Nat) (hn : n ≤ us.length)
    (hno : ∀ k < n, ¬ HaltsAt (codeRule t d B) d us k) :
    ∃ c', c.runUpdates (us.take n) = .ok c' ∧ Resumed t d B c' ∧
      c'.callStack.length = depthAfter d (us.take n) := by
  induction n with
  | zero => exact ⟨c, rfl, h, by simp [depthAfter, hlen]⟩
  | succ n ih =>
    obtain ⟨c₁, hrun, h₁, hlen₁⟩ := ih (by omega) fun k hk => hno k (by omega)
    have hu : us[n]? = some us[n] := List.getElem?_eq_getElem (by omega)
    have hhalt := hno n (by omega)
    simp only [HaltsAt, hu, Option.some.injEq, exists_eq_left', not_or, Bool.not_eq_true] at hhalt
    rw [take_succ_of_getElem? hu] at hhalt ⊢
    obtain ⟨c', hupd, hlen', -, hgo⟩ := h₁.update (depthAfter_pos hd hb n) hlen₁
      (within_mono (by omega) (within_take hb n)) hhalt.1
    exact ⟨c', by rw [runUpdates_snoc, hrun, ok_bind, hupd], hgo hhalt.2, hlen'⟩

/-- An update that ends the program leaves the execution point and the call stack alone. -/
theorem update_terminal {c : DbControl} {u : UpdateInfos} (hr : isRunning c.state = true)
    (hu : u.terminal = true) :
    c.update u = .ok { c with state := if u.state = .error then .error else .exit } := by
  unfold update applyUpdate
  rw [assertThat_pos hr, ok_bind]
  cases hs : u.state <;> simp [UpdateInfos.terminal, hs] at hu ⊢

/-- What the update does before which nothing halted the program. -/
theorem Resumed.next (h : Resumed t d B c) (hd : 0 < d) (hlen : c.callStack.length = d)
    (hb : Within UpdateInfos.kind (d - 1) us) {n : Nat} {u : UpdateInfos} (hu : us[n]? = some u)
    (hno : ∀ k < n, ¬ HaltsAt (codeRule t d B) d us k) :
    ∃ c₁ c', c.runUpdates (us.take n) = .ok c₁ ∧ isRunning c₁.state ∧
      c.runUpdates (us.take (n + 1)) = .ok c' ∧
      (u.terminal → c' = { c₁ with state := if u.state = .error then .error else .exit }) ∧
      (¬ u.terminal → codeRule t d B (depthAfter d (us.take (n + 1))) u → c'.state = .stopped) ∧
      (¬ u.terminal → ¬ codeRule t d B (depthAfter d (us.take (n + 1))) u → Resumed t d B c') := by
  have hn := (List.getElem?_eq_some_iff.mp hu).1
  obtain ⟨c₁, hrun, h₁, hlen₁⟩ := h.run hd hlen hb n (by omega) hno
  rw [runUpdates_take_succ c hu, hrun, ok_bind, take_succ_of_getElem? hu]
  by_cases ht : u.terminal = true
  · exact ⟨c₁, _, rfl, h₁.running, update_terminal h₁.running ht, fun _ => rfl,
      fun h => absurd ht h, fun h => absurd ht h⟩
  · obtain ⟨c', hupd, -, hstop, hgo⟩ := h₁.update (depthAfter_pos hd hb n) hlen₁
      (within_mono (by omega) (within_take hb n)) (by simpa using ht)
    exact ⟨c₁, c', rfl, h₁.running, hupd, fun h => absurd h ht, fun _ => hstop, fun _ => hgo⟩

/-- `on_update` stops at the first update at which `codeRule` holds, if the program does not end
before. -/
theorem Resumed.stopsAt_iff (h : Resumed t d B c) (hd : 0 < d) (hlen : c.callStack.length = d)
    (hb : Within UpdateInfos.kind (d - 1) us) (n : Nat) :
    StopsAt c us n ↔ IsLeast {k | HaltsAt (codeRule t d B) d us k} n ∧ ¬ EndsAt us n := by
  constructor
  · intro hs
    -- a halt at an earlier update would leave the debugger in a state that does not run
    have hno : ∀ k < n, ¬ HaltsAt (codeRule t d B) d us k := by
      intro k
      induction k using Nat.strong_induction_on with
      | _ k ih =>
        rintro hk ⟨u, hu, hhalt⟩
        obtain ⟨c₁, c', -, -, hrun, hend, hstop, -⟩ :=
          h.next hd hlen hb hu fun j hj => ih j hj (by omega)
        obtain ⟨c₂, hrun₂, hr⟩ := hs.running (k + 1) hk
        obtain rfl : c' = c₂ := Except.ok.inj (hrun.symm.trans hrun₂)
        by_cases ht : u.terminal = true
        · rw [hend ht] at hr
          split at hr <;> simp [isRunning] at hr
        · simp [hstop ht (hhalt.resolve_left ht), isRunning] at hr
    obtain ⟨hlt, c₂, hrun₂, hst⟩ := hs.stopped
    obtain ⟨c₁, c', -, -, hrun, hend, -, hgo⟩ :=
      h.next hd hlen hb (List.getElem?_eq_getElem hlt) hno
    obtain rfl : c' = c₂ := Except.ok.inj (hrun.symm.trans hrun₂)
    have ht : ¬ us[n].terminal = true := by
      intro ht
      rw [hend ht] at hst
      split at hst <;> simp at hst
    refine ⟨⟨⟨us[n], List.getElem?_eq_getElem hlt, .inr ?_⟩, fun k hk => ?_⟩, ?_⟩
    · by_contra hrule
      have := (hgo ht hrule).running
      simp [hst, isRunning] at this
    · by_contra hlt'
      exact hno k (by omega) hk
    · rintro ⟨u, hu, hu'⟩
      rw [List.getElem?_eq_getElem hlt] at hu
      exact ht (Option.some.inj hu ▸ hu')
  · rintro ⟨⟨⟨u, hu, hhalt⟩, hleast⟩, hend⟩
    have hno : ∀ k < n, ¬ HaltsAt (codeRule t d B) d us k := by
      intro k hk hh
      have := hleast hh
      omega
    have hn := (List.getElem?_eq_some_iff.mp hu).1
    have ht : ¬ u.terminal = true := fun ht => hend ⟨u, hu, ht⟩
    refine ⟨fun k hk => ?_, hn, ?_⟩
    · obtain ⟨c', hrun, h', -⟩ := h.run hd hlen hb k (by omega) fun j hj => hno j (by omega)
      exact ⟨c', hrun, h'.running⟩
    · obtain ⟨c₁, c', -, -, hrun, -, hstop, -⟩ := h.next hd hlen hb hu hno
      exact ⟨c', hrun, hstop ht (hhalt.resolve_left ht)⟩

end Resumed

/-- `resume` of a stopped program. -/
theorem resumed_of_resume {c : DbControl} {t : ResumeType} {s : DbState} (hs : c.state = .stopped)
    (ht : runState t = some s) :
    ∃ c', c.resume t = .ok c' ∧ Resumed t c.callStack.length (· ∈ c.breakpts) c' ∧
      c'.callStack = c.callStack ∧ c'.insAddr = c.insAddr := by
  unfold resume
  rw [if_neg (by simp [hs])]
  cases t with
  | other => simp [runState] at ht
  | _ => exact ⟨_, rfl, ⟨rfl, by simp, fun _ => Iff.rfl⟩, rfl, rfl⟩

/-! ## StepOut -/

/-- Two sets have the same least number if they agree on the numbers before which the second has
none. -/
theorem isLeast_congr {P Q : Nat → Prop} (h : ∀ k, (∀ j < k, ¬ Q j) → (P k ↔ Q k)) (n : Nat) :
    IsLeast {k | P k} n ↔ IsLeast {k | Q k} n := by
  constructor
  · rintro ⟨hP, hleast⟩
    have hno : ∀ j < n, ¬ Q j := by
      intro j
      induction j using Nat.strong_induction_on with
      | _ j ih =>
        intro hj hQ
        have := hleast ((h j fun i hi => ih i hi (by omega)).mpr hQ)
        omega
    refine ⟨(h n hno).mp hP, fun k hk => ?_⟩
    by_contra hlt
    exact hno k (by omega) hk
  · rintro ⟨hQ, hleast⟩
    have hno : ∀ j < n, ¬ Q j := fun j hj hQj => by
      have := hleast hQj
      omega
    refine ⟨(h n hno).mpr hQ, fun k hk => ?_⟩
    by_contra hlt
    exact hno k (by omega) ((h k fun j hj => hno j (by omega)).mp hk)

/-- `on_update` stops a program resumed with `StepOut` as documented: at the first update after
which the depth is below `d` or the execution point is a breakpoint. -/
def StepOutMeetsDoc (c : DbControl) (d : Nat) (B : VmPtr → Prop) (us : List UpdateInfos) : Prop :=
  ∀ n, StopsAt c us n ↔ IsLeast {k | HaltsAt (docRule .stepOut d B) d us k} n ∧ ¬ EndsAt us n

/-- No subroutine that the program called on its way returns (to an address without a breakpoint)
before the program is to stop, or ends. -/
def NoNestedReturn (d : Nat) (B : VmPtr → Prop) (us : List UpdateInfos) : Prop :=
  ∀ n u, us[n]? = some u → u.state = .retSub → ¬ B u.actAddr →
    d ≤ depthAfter d (us.take (n + 1)) → ∃ k < n, HaltsAt (docRule .stepOut d B) d us k

section StepOut

variable {d : Nat} {B : VmPtr → Prop} {us : List UpdateInfos}

/-- Before the program is to stop its depth is not below `d`. -/
theorem le_depthAfter {n : Nat} (hn : n ≤ us.length)
    (hno : ∀ k < n, ¬ HaltsAt (docRule .stepOut d B) d us k) : d ≤ depthAfter d (us.take n) := by
  cases n with
  | zero => simp [depthAfter]
  | succ n =>
    by_contra hlt
    refine hno n (by omega) ⟨us[n], List.getElem?_eq_getElem (by omega), .inr (.inl ?_)⟩
    omega

/-- Before the program is to stop, the code stops it where the documentation does, but for nested
returns. -/
theorem haltsAt_stepOut_iff (hb : Within UpdateInfos.kind d us) {k : Nat}
    (hno : ∀ j < k, ¬ HaltsAt (docRule .stepOut d B) d us j) :
    HaltsAt (codeRule .stepOut d B) d us k ↔ HaltsAt (docRule .stepOut d B) d us k ∨
      ∃ u, us[k]? = some u ∧ u.state = .retSub ∧ ¬ B u.actAddr ∧
        d ≤ depthAfter d (us.take (k + 1)) := by
  constructor
  · rintro ⟨u, hu, ht | hret | hB⟩
    · exact .inl ⟨u, hu, .inl ht⟩
    · by_cases hB : B u.actAddr
      · exact .inl ⟨u, hu, .inr (.inr hB)⟩
      · by_cases hd : d ≤ depthAfter d (us.take (k + 1))
        · exact .inr ⟨u, hu, hret, hB, hd⟩
        · exact .inl ⟨u, hu, .inr (.inl (by omega))⟩
    · exact .inl ⟨u, hu, .inr (.inr hB)⟩
  · rintro (⟨u, hu, ht | hd | hB⟩ | ⟨u, hu, hret, -⟩)
    · exact ⟨u, hu, .inl ht⟩
    · -- the depth was not below `d` before the update, so the update is a return
      have hle := le_depthAfter (List.getElem?_eq_some_iff.mp hu).1.le hno
      rw [take_succ_of_getElem? hu, depthAfter_snoc (within_take hb k)] at hd
      refine ⟨u, hu, .inr (.inl ?_)⟩
      cases hs : u.state <;> simp only [hs] at hd <;> first | rfl | omega
    · exact ⟨u, hu, .inr (.inr hB)⟩
    · exact ⟨u, hu, .inr (.inl hret)⟩

/-- `StepOut` does what is documented exactly if no nested subroutine returns on the way. -/
theorem Resumed.meetsDoc_iff {c : DbControl} (h : Resumed .stepOut d B c) (hd : 0 < d)
    (hlen : c.callStack.length = d) (hb : Within UpdateInfos.kind (d - 1) us) :
    StepOutMeetsDoc c d B us ↔ NoNestedReturn d B us := by
  have hb' : Within UpdateInfos.kind d us := within_mono (by omega) hb
  constructor
  · intro hdoc n
    induction n using Nat.strong_induction_on with
    | _ n ih =>
    intro u hu hret hB hle
    by_contra hno
    push Not at hno
    -- the code stops at this return, and the documentation does not
    have hcode : IsLeast {k | HaltsAt (codeRule .stepOut d B) d us k} n := by
      refine ⟨⟨u, hu, .inr (.inl hret)⟩, fun k hk => ?_⟩
      by_contra hlt
      have hkn : k < n := by omega
      rcases (haltsAt_stepOut_iff hb' fun j hj => hno j (by omega)).mp hk with hk | hk
      · exact hno k hkn hk
      · obtain ⟨v, hv, hret', hB', hle'⟩ := hk
        obtain ⟨j, hj, hh⟩ := ih k hkn v hv hret' hB' hle'
        exact hno j (by omega) hh
    have hend : ¬ EndsAt us n := by
      rintro ⟨v, hv, ht⟩
      obtain rfl := Option.some.inj (hu.symm.trans hv)
      simp [UpdateInfos.terminal, hret] at ht
    obtain ⟨⟨⟨v, hv, hhalt⟩, -⟩, -⟩ := (hdoc n).mp ((h.stopsAt_iff hd hlen hb n).mpr ⟨hcode, hend⟩)
    obtain rfl := Option.some.inj (hu.symm.trans hv)
    rcases hhalt with ht | hlt | hB'
    · exact hend ⟨u, hu, ht⟩
    · omega
    · exact hB hB'
  · intro hno n
    rw [h.stopsAt_iff hd hlen hb n]
    refine and_congr (isLeast_congr (fun k hk => ?_) n) Iff.rfl
    rw [haltsAt_stepOut_iff hb' hk]
    refine ⟨fun hor => hor.resolve_right ?_, .inl⟩
    rintro ⟨u, hu, hret, hB, hle⟩
    obtain ⟨j, hj, hh⟩ := hno k u hu hret hB hle
    exact hk j hj hh

end StepOut

end DbControl

namespace Debugger

open DbControl

/-! ## Breakpoints over a run -/

/-- The last call to add or delete a breakpoint at `addr`: whether it was to add one. -/
def lastEdit (addr : VmPtr) (es : List Event) : Option Bool :=
  es.foldl (fun last e =>
    match e with
    | .call (.addBreakpoint a) => if a = addr then some true else last
    | .call (.delBreakpoint a) => if a = addr then some false else last
    | _ => last) none

/-- There is a breakpoint at `addr`: it is in memory, and the last call about it was to add it. -/
def HasBkp (memorySize : VmSize) (es : List Event) (addr : VmPtr) : Prop :=
  addr < memorySize ∧ lastEdit addr es = some true

variable {V : Type} {api : VMApi V} {db₀ db : Debugger V} {es : List Event}

theorem lastEdit_snoc (addr : VmPtr) (es : List Event) (e : Event) :
    lastEdit addr (es ++ [e]) = match e with
      | .call (.addBreakpoint a) => if a = addr then some true else lastEdit addr es
      | .call (.delBreakpoint a) => if a = addr then some false else lastEdit addr es
      | _ => lastEdit addr es := by
  simp only [lastEdit, List.foldl_append, List.foldl_cons, List.foldl_nil]

/-- What a call does to the breakpoints, successful or not. -/
theorem Call.mem_control_breakpts {k : Call} {c : DbControl} {es : List Event}
    (ih : ∀ addr, addr ∈ c.breakpts ↔ HasBkp c.infos.memorySize es addr) (addr : VmPtr) :
    addr ∈ (k.control c).breakpts ↔ HasBkp c.infos.memorySize (es ++ [.call k]) addr := by
  rw [HasBkp, lastEdit_snoc]
  cases k with
  | addBreakpoint a =>
    show addr ∈ ((c.addBreakpoint a).toOption.getD c).breakpts ↔ _
    have ha := ih a
    cases h : c.addBreakpoint a with
    | ok c' =>
      obtain ⟨hlt, -, rfl⟩ := addBreakpoint_ok h
      have := ih addr
      grind [HasBkp, Except.toOption]
    | error =>
      -- out of memory, or there already
      have hf : c.infos.memorySize ≤ a ∨ a ∈ c.breakpts := by
        by_contra hf
        rw [not_or] at hf
        rw [DbControl.addBreakpoint, if_neg hf.1, if_neg hf.2] at h
        cases h
      have := ih addr
      grind [HasBkp, Except.toOption, UInt64.not_le]
  | delBreakpoint a =>
    show addr ∈ ((c.delBreakpoint a).toOption.getD c).breakpts ↔ _
    have ha := ih a
    cases h : c.delBreakpoint a with
    | ok c' =>
      obtain ⟨hlt, -, rfl⟩ := delBreakpoint_ok h
      have := ih addr
      grind [HasBkp, Except.toOption]
    | error =>
      have hf : c.infos.memorySize ≤ a ∨ a ∉ c.breakpts := by
        by_contra hf
        rw [not_or] at hf
        rw [DbControl.delBreakpoint, if_neg hf.1, if_neg hf.2] at h
        cases h
      have := ih addr
      grind [HasBkp, Except.toOption, UInt64.not_le]
  | resume t =>
    refine getD_toOption (P := fun c' => addr ∈ c'.breakpts ↔ _) (ih addr) fun c' h => ?_
    obtain ⟨-, -, rfl⟩ := resume_ok h
    exact ih addr
  | stop =>
    refine getD_toOption (P := fun c' => addr ∈ c'.breakpts ↔ _) (ih addr) fun c' h => ?_
    obtain ⟨-, rfl⟩ := stop_ok h
    exact ih addr
  | _ => exact ih addr

/-- The breakpoints after any history of successful and failing calls. -/
theorem Run.mem_breakpts (hs : Started api db₀) (h : Run api db₀ es db) (addr : VmPtr) :
    addr ∈ db.breakpts ↔ HasBkp db₀.infos.memorySize es addr := by
  obtain ⟨-, -, hempty, -⟩ := hs.members
  suffices db.infos = db₀.infos ∧
      ∀ addr, addr ∈ db.breakpts ↔ HasBkp db₀.infos.memorySize es addr from this.2 addr
  refine h.induction (P := fun es c => c.infos = db₀.infos ∧
    ∀ addr, addr ∈ c.breakpts ↔ HasBkp db₀.infos.memorySize es addr) ⟨rfl, ?_⟩ ?_ ?_
  · intro addr
    simp [hempty, HasBkp, lastEdit]
  · rintro es c u c' ⟨hi, ih⟩ hc
    obtain ⟨h1, h2⟩ := update_breakpts hc
    refine ⟨h1.trans hi, fun addr => ?_⟩
    rw [h2, ih addr, HasBkp, HasBkp, lastEdit_snoc]
  · rintro es c k ⟨hi, ih⟩
    rw [← hi] at ih ⊢
    exact ⟨(k.samePlace c).infos, Call.mem_control_breakpts ih⟩

/-! ## Resuming a program that a run stopped -/

/-- The depth in a run that never returned from the entry point, and the frame that stays. -/
theorem Run.depth (hs : Started api db₀) (h : Run api db₀ es db) {us : List UpdateInfos}
    (hb : Within UpdateInfos.kind 0 (updates es ++ us)) :
    0 < db.callStack.length ∧ Within UpdateInfos.kind (db.callStack.length - 1) us := by
  have hes : Within UpdateInfos.kind 0 (updates es) := fun vs ws e => hb vs (ws ++ us) (by simp [e])
  obtain ⟨ps, stack, he, hsplit, hf⟩ := frames_stackAfter db₀.uninit db₀.insAddr _ hes
  obtain ⟨rfl, -⟩ := Prod.mk.inj (Except.ok.inj (he.symm.trans (h.stackAfter_eq hs)))
  have hlen := hf.length
  have hcount := hsplit.opened_eq
  refine ⟨by omega, fun vs ws e => ?_⟩
  have := hb (updates es ++ vs) ws (by simp [e])
  simp only [opened_append, closed_append] at this
  omega

theorem resume_on {c : DbControl} {t : ResumeType} (h : db.toDbControl.resume t = .ok c) :
    (resume t).on db = (.ok (), { db with toDbControl := c }) := by
  rw [resume, onControl_on, h]

theorem of_resume_on {c : DbControl} {t : ResumeType}
    (h : (resume t).on db = (.ok (), { db with toDbControl := c })) :
    db.toDbControl.resume t = .ok c := by
  rw [resume, onControl_on] at h
  cases hc : db.toDbControl.resume t with
  | error => simp [hc] at h
  | ok c' =>
    rw [hc] at h
    exact congrArg Except.ok (congrArg Debugger.toDbControl (Prod.mk.inj h).2)

/-- `Continue`, `Step`, `StepOver` and `ToFinish` stop a stopped program of any run exactly where
documented, whatever the history of its breakpoints; a program that ends first is left with the
execution point and the call stack from before. -/
theorem Run.stops_at_docRule (hs : Started api db₀) (h : Run api db₀ es db)
    (hst : db.state = .stopped) {t : ResumeType}
    (ht : t = .toFinish ∨ t = .continue ∨ t = .step ∨ t = .stepOver) (us : List UpdateInfos)
    (hb : Within UpdateInfos.kind 0 (updates es ++ us)) :
    ∃ c, (resume t).on db = (.ok (), { db with toDbControl := c }) ∧
      (∀ n, StopsAt c us n ↔
        IsLeast {k | HaltsAt (docRule t db.callStack.length (HasBkp db₀.infos.memorySize es))
          db.callStack.length us k} n ∧ ¬ EndsAt us n) ∧
      ∀ n u, us[n]? = some u → u.terminal →
        (∀ k < n, ¬ HaltsAt (docRule t db.callStack.length (HasBkp db₀.infos.memorySize es))
          db.callStack.length us k) →
        ∃ c₁ c', c.runUpdates (us.take n) = .ok c₁ ∧ c.runUpdates (us.take (n + 1)) = .ok c' ∧
          c'.state = (if u.state = .error then .error else .exit) ∧ c'.insAddr = c₁.insAddr ∧
          c'.callStack = c₁.callStack := by
  obtain ⟨s, hts⟩ : ∃ s, runState t = some s := by
    rcases ht with rfl | rfl | rfl | rfl <;> exact ⟨_, rfl⟩
  obtain ⟨hd, hw⟩ := h.depth hs hb
  obtain ⟨c, hc, hres, hstack, -⟩ := resumed_of_resume hst hts
  have hB : (· ∈ db.breakpts) = HasBkp db₀.infos.memorySize es :=
    funext fun addr => propext (h.mem_breakpts hs addr)
  rw [hB] at hres
  have hrule : codeRule t = docRule t := by
    rcases ht with rfl | rfl | rfl | rfl <;> rfl
  have hlen : c.callStack.length = db.callStack.length := by rw [hstack]
  refine ⟨c, resume_on hc, fun n => ?_, fun n u hu hut hno => ?_⟩
  · rw [hres.stopsAt_iff hd hlen hw n, hrule]
  · rw [← hrule] at hno
    obtain ⟨c₁, c', hrun, -, hrun', hend, -, -⟩ := hres.next hd hlen hw hu hno
    rw [hend hut] at hrun'
    exact ⟨c₁, _, hrun, hrun', rfl, rfl, rfl⟩

/-- `StepOver` over a recursive call, with a breakpoint that was set twice and one deleted. -/
theorem Run.stops_at_docRule_stepOver :
    ∃ c, (scriptedAfter [.call (.addBreakpoint 11), .call (.addBreakpoint 12),
        .call (.addBreakpoint 11), .call (.delBreakpoint 12), .call .stop]).toDbControl.resume
          .stepOver = .ok c ∧
      ∀ n, StopsAt c [⟨.callSub, 10⟩, ⟨.ok, 12⟩, ⟨.callSub, 10⟩, ⟨.ok, 11⟩, ⟨.retSub, 13⟩] n ↔
        IsLeast {k | HaltsAt (docRule .stepOver 1 (HasBkp 100 [.call (.addBreakpoint 11),
            .call (.addBreakpoint 12), .call (.addBreakpoint 11), .call (.delBreakpoint 12),
            .call .stop])) 1
          [⟨.callSub, 10⟩, ⟨.ok, 12⟩, ⟨.callSub, 10⟩, ⟨.ok, 11⟩, ⟨.retSub, 13⟩] k} n ∧
        ¬ EndsAt [⟨.callSub, 10⟩, ⟨.ok, 12⟩, ⟨.callSub, 10⟩, ⟨.ok, 11⟩, ⟨.retSub, 13⟩] n := by
  obtain ⟨c, hc, hstop, -⟩ := Run.stops_at_docRule scriptedDb_started
    (scripted_run [.call (.addBreakpoint 11), .call (.addBreakpoint 12), .call (.addBreakpoint 11),
      .call (.delBreakpoint 12), .call .stop] rfl) rfl (t := .stepOver) (by simp)
    [⟨.callSub, 10⟩, ⟨.ok, 12⟩, ⟨.callSub, 10⟩, ⟨.ok, 11⟩, ⟨.retSub, 13⟩] (by decide)
  exact ⟨c, of_resume_on hc, hstop⟩

/-- `StepOut` stops a stopped program of any run where documented exactly if no subroutine called
on the way returns before. -/
theorem Run.stepOut_iff (hs : Started api db₀) (h : Run api db₀ es db) (hst : db.state = .stopped)
    (us : List UpdateInfos) (hb : Within UpdateInfos.kind 0 (updates es ++ us)) :
    ∃ c, (resume .stepOut).on db = (.ok (), { db with toDbControl := c }) ∧
      (StepOutMeetsDoc c db.callStack.length (HasBkp db₀.infos.memorySize es) us ↔
        NoNestedReturn db.callStack.length (HasBkp db₀.infos.memorySize es) us) := by
  obtain ⟨hd, hw⟩ := h.depth hs hb
  obtain ⟨c, hc, hres, hstack, -⟩ := resumed_of_resume (t := .stepOut) hst rfl
  have hB : (· ∈ db.breakpts) = HasBkp db₀.infos.memorySize es :=
    funext fun addr => propext (h.mem_breakpts hs addr)
  rw [hB] at hres
  exact ⟨c, resume_on hc, hres.meetsDoc_iff hd (by rw [hstack]) hw⟩

/-- A call that returns at once, from a program without a call before. -/
theorem Run.stepOut_iff_call :
    ∃ c, (scriptedAfter [.call .stop]).toDbControl.resume .stepOut = .ok c ∧
      (StepOutMeetsDoc c 1 (HasBkp 100 [.call .stop]) [⟨.callSub, 10⟩, ⟨.retSub, 5⟩] ↔
        NoNestedReturn 1 (HasBkp 100 [.call .stop]) [⟨.callSub, 10⟩, ⟨.retSub, 5⟩]) := by
  obtain ⟨c, hc, h⟩ := Run.stepOut_iff scriptedDb_started (scripted_run [.call .stop] rfl) rfl
    [⟨.callSub, 10⟩, ⟨.retSub, 5⟩] (by decide)
  exact ⟨c, of_resume_on hc, h⟩

/-- `StepOut` at depth 1 stops at the return of a subroutine that it called, where the depth is 1
again and there is no breakpoint. -/
theorem Run.stepOut_nested_return :
    Started scripted scriptedDb ∧
      Run scripted scriptedDb [.call .stop] (scriptedAfter [.call .stop]) ∧
      (scriptedAfter [.call .stop]).state = .stopped ∧
      (scriptedAfter [.call .stop]).callStack.length = 1 ∧
      Within UpdateInfos.kind 0 [⟨.callSub, 10⟩, ⟨.retSub, 5⟩] ∧
      ∃ c, (scriptedAfter [.call .stop]).toDbControl.resume .stepOut = .ok c ∧
        StopsAt c [⟨.callSub, 10⟩, ⟨.retSub, 5⟩] 1 ∧
        ¬ StepOutMeetsDoc c 1 (HasBkp 100 [.call .stop]) [⟨.callSub, 10⟩, ⟨.retSub, 5⟩] := by
  refine ⟨scriptedDb_started, scripted_run _ rfl, rfl, rfl, by decide, _, rfl, ?_⟩
  suffices hstop : StopsAt _ [⟨.callSub, 10⟩, ⟨.retSub, 5⟩] 1 by
    refine ⟨hstop, fun hdoc => ?_⟩
    obtain ⟨⟨⟨u, hu, hhalt⟩, -⟩, -⟩ := (hdoc 1).mp hstop
    obtain rfl := Option.some.inj hu
    rcases hhalt with ht | hlt | hB
    · exact absurd ht (by decide)
    · exact absurd hlt (by decide)
    · exact absurd hB.2 (by decide)
  refine ⟨fun k hk => ?_, by decide, _, rfl, rfl⟩
  interval_cases k
  · exact ⟨_, rfl, rfl⟩
  · exact ⟨_, rfl, rfl⟩

end Debugger

end Odb
