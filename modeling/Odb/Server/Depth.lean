import Odb.Server.Stops
import Odb.Server.VMSide

/-!
# When the call stack has a frame

`on_update` pops a frame at every `RET_SUB`, also the one of the entry point.

* `Run.length_callStack`: the frames are one more than the calls without the returns.
* `Run.hasFrame_iff`: the call stack never runs empty if and only if the program never returns more
  often than it calls.
-/

namespace Odb

namespace Debugger

open DbControl Brackets

variable {V : Type} {api : VMApi V} {db₀ db : Debugger V} {es : List Event}

/-- The call stack has a frame, no update finds it empty, and a client that is told that the program
stopped is sent a last frame. -/
structure HasFrame (api : VMApi V) (db : Debugger V) : Prop where
  frame : db.callStack ≠ []
  update : isRunning db.state = true → ∀ vm udp vm', api.getUpdateInfos vm = (.ok udp, vm') →
    ∃ db', (onUpdate api).on { db with vm := vm } = (.ok (), db')
  sent : ∀ udp udp' db', (VMSide.checkStopped udp).on db = (.ok udp', db') →
    udp'.stopped = true → udp'.stack.getLast?.isSome

/-- With a frame, every update of a running program goes through. -/
theorem update_isOk {c : DbControl} (hr : isRunning c.state = true) (hne : c.callStack ≠ [])
    (u : UpdateInfos) : ∃ c', c.update u = .ok c' := by
  by_cases hu : u.terminal = true
  · exact ⟨_, update_terminal hr hu⟩
  · obtain ⟨stack, -, -, hs⟩ := update_ok hr hne (Bool.eq_false_iff.mpr hu)
    exact ⟨_, hs⟩

theorem hasFrame_of_ne (hne : db.callStack ≠ []) : HasFrame api db := by
  refine ⟨hne, fun hr vm udp vm' hu => ?_, fun udp udp' db' h hstop => ?_⟩
  · obtain ⟨c', hc⟩ := update_isOk hr hne udp
    rw [onUpdate_on api hu, hc]
    exact ⟨_, rfl⟩
  · obtain ⟨-, -, hsent⟩ := VMSide.checkStopped_ok h
    rw [(hsent hstop).2]
    exact List.getLast?_isSome.mpr hne

/-- A part of a run is a run. -/
theorem Run.of_prefix (h : Run api db₀ es db) {es' : List Event} (hp : es' <+: es) :
    ∃ db', Run api db₀ es' db' := by
  induction h generalizing es' with
  | start =>
    obtain rfl := List.prefix_nil.mp hp
    exact ⟨_, .start⟩
  | @step es e db db' h hst ih =>
    rcases List.prefix_concat_iff.mp hp with rfl | hp
    · exact ⟨_, h.step hst⟩
    · exact ih hp

/-- A call adds a frame, a return takes one away. -/
theorem updateStack_length {uninit addr : VmPtr} {stack stack' : CallStack} {u : UpdateInfos}
    (h : updateStack stack addr uninit u = .ok stack') :
    stack'.length + (if u.kind = .cls then 1 else 0) =
      stack.length + (if u.kind = .opn then 1 else 0) := by
  unfold updateStack at h
  unfold UpdateInfos.kind
  cases hu : u.state with
  | callSub =>
    simp only [hu] at h
    cases hb : stack.getLast? with
    | none =>
      rw [hb] at h
      cases h
    | some back =>
      rw [hb] at h
      cases h
      have : stack.length ≠ 0 := fun hz => by simp [List.length_eq_zero_iff.mp hz] at hb
      simp
      omega
  | retSub =>
    simp only [hu] at h
    by_cases hne : stack ≠ []
    · rw [assertThat_pos hne, ok_bind] at h
      cases h
      have := List.length_pos_iff.mpr hne
      simp
      omega
    · rw [assertThat, if_neg hne] at h
      cases h
  | error | exit | ok =>
    simp only [hu] at h
    cases h
    rfl

theorem stackStep_length {uninit addr addr' : VmPtr} {stack stack' : CallStack} {u : UpdateInfos}
    (h : stackStep uninit (stack, addr) u = .ok (stack', addr')) :
    stack'.length + (if u.kind = .cls then 1 else 0) =
      stack.length + (if u.kind = .opn then 1 else 0) := by
  unfold stackStep at h
  by_cases hu : u.terminal = true
  · rw [if_pos hu] at h
    cases h
    have hk : u.kind = .other := by
      unfold UpdateInfos.terminal at hu
      unfold UpdateInfos.kind
      cases hs : u.state <;> simp [hs] at hu ⊢
    rw [hk]
    rfl
  · rw [if_neg hu] at h
    cases hs : updateStack stack addr uninit u with
    | error =>
      rw [hs, error_bind] at h
      cases h
    | ok stack'' =>
      rw [hs, ok_bind] at h
      cases h
      exact updateStack_length hs

/-- The frames are one more than the calls without the returns. -/
theorem Run.length_callStack (hs : Started api db₀) (h : Run api db₀ es db) :
    db.callStack.length + closed UpdateInfos.kind (updates es) =
      1 + opened UpdateInfos.kind (updates es) := by
  obtain ⟨-, hstack, -, -⟩ := hs.members
  refine h.induction (P := fun es c => c.callStack.length + closed UpdateInfos.kind (updates es) =
    1 + opened UpdateInfos.kind (updates es)) (by rw [hstack]; rfl) ?_ ?_
  · intro es c u c' ih hc
    have := stackStep_length (applyUpdate_stack hc).1
    rw [updates_snoc_update, opened_append, closed_append]
    simp only [opened_cons, closed_cons, opened_nil, closed_nil]
    omega
  · intro es c k ih
    rw [updates_snoc_call, (k.samePlace c).callStack]
    exact ih

/-- The updates up to one of them are those of a part of the run. -/
theorem exists_prefix_of_updates {us ws : List UpdateInfos} (h : updates es = us ++ ws) :
    ∃ es', es' <+: es ∧ updates es' = us := by
  obtain ⟨es', rest, rfl, hus, -⟩ := List.filterMap_eq_append_iff.mp h
  exact ⟨es', List.prefix_append _ _, hus⟩

/-- In every state of a run the call stack has a frame, and the next update finds it, if and only if
no part of the reported updates has more returns than calls. -/
theorem Run.hasFrame_iff (hs : Started api db₀) (h : Run api db₀ es db) :
    (∀ es' db', es' <+: es → Run api db₀ es' db' → HasFrame api db') ↔
      Within UpdateInfos.kind 0 (updates es) := by
  refine ⟨fun hall us ws hsplit => ?_, fun hb es' db' hp h' => ?_⟩
  · obtain ⟨es', hp, rfl⟩ := exists_prefix_of_updates hsplit
    obtain ⟨db', h'⟩ := h.of_prefix hp
    have hlen := h'.length_callStack hs
    have hpos := List.length_pos_iff.mpr (hall es' db' hp h').frame
    omega
  · obtain ⟨rest, rfl⟩ := hp
    have hlen := h'.length_callStack hs
    have := hb (updates es') (updates rest) (by simp [updates])
    refine hasFrame_of_ne fun hnil => ?_
    rw [hnil] at hlen
    simp only [List.length_nil] at hlen
    omega

/-- One call and its return. -/
theorem Run.hasFrame_iff_call :
    (∀ es' db', es' <+: [.update ⟨.callSub, 10⟩, .update ⟨.retSub, 5⟩] →
      Run scripted scriptedDb es' db' → HasFrame scripted db') ∧
      Within UpdateInfos.kind 0 (updates [.update ⟨.callSub, 10⟩, .update ⟨.retSub, 5⟩]) := by
  have hiff := Run.hasFrame_iff scriptedDb_started
    (scripted_run [.update ⟨.callSub, 10⟩, .update ⟨.retSub, 5⟩] rfl)
  exact ⟨hiff.mpr (by decide), by decide⟩

/-- A return from the entry point leaves no frame, and the next call takes the last one of none. -/
theorem Run.hasFrame_return :
    Run scripted scriptedDb [.update ⟨.retSub, 5⟩] (scriptedAfter [.update ⟨.retSub, 5⟩]) ∧
      (scriptedAfter [.update ⟨.retSub, 5⟩]).callStack = [] ∧
      ((onUpdate scripted).on { scriptedAfter [.update ⟨.retSub, 5⟩] with vm := ⟨.callSub, 10⟩ }).1 =
        .error .undefined :=
  ⟨scripted_run _ rfl, rfl, rfl⟩

end Debugger

end Odb
