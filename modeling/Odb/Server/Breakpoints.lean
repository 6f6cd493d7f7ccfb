import Odb.Server.CallStack
import Odb.Server.VMSide

/-!
# A batch of breakpoint edits

* `VMSide.edits_applied`: a batch is applied up to its first address that is refused.
* `VMSide.breakpoints_prefix`: what `add_breakpoints` and `del_breakpoints` leave of the set.
* `VMSide.addBreakpoints_partial`: a batch that throws and leaves a breakpoint.
-/

namespace Odb

open Prog Debugger

namespace VMSide

variable {V : Type}

/-- The debugger with other breakpoints. -/
def withBreakpts (db : Debugger V) (b : Std.TreeSet VmPtr) : Debugger V :=
  { db with toDbControl := { db.toDbControl with breakpts := b } }

/-- `pre` are the addresses of a batch that are applied before it ends with `r`: every one of them
could be after those before it, and the batch ends there or throws at an address that could not. -/
structure Applied (Ok : List VmPtr → VmPtr → Prop) (r : Except Fault Unit)
    (addrs pre : List VmPtr) : Prop where
  each : ∀ l x l', pre = l ++ x :: l' → Ok l x
  stop : r = .ok () ∧ pre = addrs ∨
    ∃ a post msg, r = .error (.vmError msg) ∧ addrs = pre ++ a :: post ∧ ¬ Ok pre a

section Edits

variable {f : DbControl → VmPtr → Except Fault DbControl}
  {g : Std.TreeSet VmPtr → VmPtr → Std.TreeSet VmPtr} {Ok : List VmPtr → VmPtr → Prop}
  {db : Debugger V}

/-- The debugger after the edits of `pre`. -/
def edited (g : Std.TreeSet VmPtr → VmPtr → Std.TreeSet VmPtr) (db : Debugger V)
    (pre : List VmPtr) : Debugger V := withBreakpts db (pre.foldl g db.breakpts)

theorem edited_snoc (pre : List VmPtr) (a : VmPtr) :
    edited g db (pre ++ [a]) = withBreakpts db (g (edited g db pre).breakpts a) := by
  simp only [edited, List.foldl_append, List.foldl_cons, List.foldl_nil]
  rfl

/-- A batch of edits, each of which changes the breakpoints by `g` or is refused. -/
theorem edits_applied
    (hok : ∀ pre a, Ok pre a → f (edited g db pre).toDbControl a =
      .ok (withBreakpts db (g (edited g db pre).breakpts a)).toDbControl)
    (herr : ∀ pre a, ¬ Ok pre a → ∃ msg, f (edited g db pre).toDbControl a = .error (.vmError msg))
    (addrs : List VmPtr) :
    ∃ r pre, (addrs.forM fun a => onControl (f · a)).on db = (r, edited g db pre) ∧
      Applied Ok r addrs pre := by
  -- after the edits of `done`
  suffices hgen : ∀ done, ∃ r pre,
      (addrs.forM fun a => onControl (f · a)).on (edited g db done) = (r, edited g db (done ++ pre)) ∧
        Applied (fun l => Ok (done ++ l)) r addrs pre from hgen []
  induction addrs with
  | nil =>
    intro done
    refine ⟨.ok (), [], by rw [List.append_nil]; rfl, fun l x l' h => ?_, .inl ⟨rfl, rfl⟩⟩
    simp at h
  | cons a addrs ih =>
    intro done
    show ∃ r pre, (onControl (f · a) >>= fun _ =>
      addrs.forM fun a => onControl (f · a)).on (edited g db done) = _ ∧ _
    by_cases ha : Ok done a
    · have hrun : (onControl (f · a)).on (edited g db done) = (.ok (), edited g db (done ++ [a])) := by
        rw [onControl_on, hok done a ha, edited_snoc]
        rfl
      obtain ⟨r, pre, h, happ⟩ := ih (done ++ [a])
      refine ⟨r, a :: pre, ?_, fun l x l' he => ?_, ?_⟩
      · rw [on_bind_ok hrun, h, List.append_assoc, List.singleton_append]
      · rcases l with _ | ⟨b, l⟩
        · obtain ⟨rfl, -⟩ := List.cons.inj he
          simpa using ha
        · obtain ⟨rfl, hpre⟩ := List.cons.inj he
          simpa using happ.each l x l' hpre
      · rcases happ.stop with ⟨hr, he⟩ | ⟨b, post, msg, hr, he, hb⟩
        · exact .inl ⟨hr, congrArg (a :: ·) he⟩
        · refine .inr ⟨b, post, msg, hr, by rw [he, List.cons_append], ?_⟩
          simpa using hb
    · obtain ⟨msg, hf⟩ := herr done a ha
      have hrun : (onControl (f · a)).on (edited g db done) =
          (.error (.vmError msg), edited g db done) := by
        rw [onControl_on, hf]
      refine ⟨.error (.vmError msg), [], ?_, fun l x l' h => ?_, .inr ⟨a, addrs, msg, rfl, rfl, ?_⟩⟩
      · rw [on_bind_error hrun, List.append_nil]
      · simp at h
      · simpa using ha

end Edits

theorem mem_foldl_insert (b : Std.TreeSet VmPtr) (addrs : List VmPtr) (x : VmPtr) :
    x ∈ addrs.foldl Std.TreeSet.insert b ↔ x ∈ b ∨ x ∈ addrs := by
  induction addrs generalizing b with
  | nil => simp
  | cons a addrs ih =>
    rw [List.foldl_cons, ih, Std.TreeSet.mem_insert, List.mem_cons, Std.compare_eq_iff_eq]
    grind

theorem mem_foldl_erase (b : Std.TreeSet VmPtr) (addrs : List VmPtr) (x : VmPtr) :
    x ∈ addrs.foldl Std.TreeSet.erase b ↔ x ∈ b ∧ x ∉ addrs := by
  induction addrs generalizing b with
  | nil => simp
  | cons a addrs ih =>
    rw [List.foldl_cons, ih, Std.TreeSet.mem_erase, List.mem_cons, Ne, Std.compare_eq_iff_eq]
    grind

/-- A breakpoint can be added at `a` after the addresses `pre`. -/
def Addable (db : Debugger V) (pre : List VmPtr) (a : VmPtr) : Prop :=
  a < db.infos.memorySize ∧ a ∉ db.breakpts ∧ a ∉ pre

/-- The breakpoint at `a` can be deleted after those of the addresses `pre`. -/
def Deletable (db : Debugger V) (pre : List VmPtr) (a : VmPtr) : Prop :=
  a < db.infos.memorySize ∧ a ∈ db.breakpts ∧ a ∉ pre

theorem addBreakpoints_applied (db : Debugger V) (addrs : List VmPtr) :
    ∃ r pre, (addBreakpoints addrs).on db = (r, edited Std.TreeSet.insert db pre) ∧
      Applied (Addable db) r addrs pre := by
  have hset (pre : List VmPtr) (a : VmPtr) :
      a ∈ (edited Std.TreeSet.insert db pre).breakpts ↔ a ∈ db.breakpts ∨ a ∈ pre :=
    mem_foldl_insert db.breakpts pre a
  refine edits_applied (f := DbControl.addBreakpoint) (fun pre a h => ?_) (fun pre a h => ?_) addrs
  · obtain ⟨hin, hnew, hpre⟩ := h
    exact (if_neg (not_le.mpr hin)).trans (if_neg (by simp [hset, hnew, hpre]))
  · by_cases hin : db.infos.memorySize ≤ a
    · exact ⟨_, if_pos hin⟩
    · have hold : a ∈ (edited Std.TreeSet.insert db pre).breakpts := by
        rw [hset]
        by_contra hnew
        exact h ⟨not_le.mp hin, not_or.mp hnew⟩
      exact ⟨_, (if_neg hin).trans (if_pos hold)⟩

theorem delBreakpoints_applied (db : Debugger V) (addrs : List VmPtr) :
    ∃ r pre, (delBreakpoints addrs).on db = (r, edited Std.TreeSet.erase db pre) ∧
      Applied (Deletable db) r addrs pre := by
  have hset (pre : List VmPtr) (a : VmPtr) :
      a ∈ (edited Std.TreeSet.erase db pre).breakpts ↔ a ∈ db.breakpts ∧ a ∉ pre :=
    mem_foldl_erase db.breakpts pre a
  refine edits_applied (f := DbControl.delBreakpoint) (fun pre a h => ?_) (fun pre a h => ?_) addrs
  · obtain ⟨hin, hold, hpre⟩ := h
    exact (if_neg (not_le.mpr hin)).trans (if_neg (by simp [hset, hold, hpre]))
  · by_cases hin : db.infos.memorySize ≤ a
    · exact ⟨_, if_pos hin⟩
    · have hgone : a ∉ (edited Std.TreeSet.erase db pre).breakpts := by
        rw [hset]
        exact fun hold => h ⟨not_le.mp hin, hold⟩
      exact ⟨_, (if_neg hin).trans (if_pos hgone)⟩

/-- A batch is applied as a whole, or it throws at the first address that is out of memory or has its
breakpoint already (for `del_breakpoints`: has none), from before the call or by an earlier address
of the batch. Then the addresses before that one are applied and nothing else, so that the set is as
it was if and only if that address is the first. -/
theorem breakpoints_prefix (db : Debugger V) (addrs : List VmPtr) :
    (∃ r b pre, (addBreakpoints addrs).on db = (r, withBreakpts db b) ∧
      Applied (Addable db) r addrs pre ∧ (∀ x, x ∈ b ↔ x ∈ db.breakpts ∨ x ∈ pre) ∧
      ((∀ x, x ∈ b ↔ x ∈ db.breakpts) ↔ pre = [])) ∧
    ∃ r b pre, (delBreakpoints addrs).on db = (r, withBreakpts db b) ∧
      Applied (Deletable db) r addrs pre ∧ (∀ x, x ∈ b ↔ x ∈ db.breakpts ∧ x ∉ pre) ∧
      ((∀ x, x ∈ b ↔ x ∈ db.breakpts) ↔ pre = []) := by
  constructor
  · obtain ⟨r, pre, hrun, happ⟩ := addBreakpoints_applied db addrs
    have hset := mem_foldl_insert db.breakpts pre
    refine ⟨r, _, pre, hrun, happ, hset, fun hsame => ?_, fun h => by simp [h]⟩
    rcases pre with _ | ⟨a, pre⟩
    · rfl
    · obtain ⟨-, hnew, -⟩ := happ.each [] a pre rfl
      exact absurd ((hsame a).mp ((hset a).mpr (.inr List.mem_cons_self))) hnew
  · obtain ⟨r, pre, hrun, happ⟩ := delBreakpoints_applied db addrs
    have hset := mem_foldl_erase db.breakpts pre
    refine ⟨r, _, pre, hrun, happ, hset, fun hsame => ?_, fun h => by simp [h]⟩
    rcases pre with _ | ⟨a, pre⟩
    · rfl
    · obtain ⟨-, hold, -⟩ := happ.each [] a pre rfl
      exact absurd List.mem_cons_self ((hset a).mp ((hsame a).mpr hold)).2

/-- A list that names an address twice: the call throws, and its breakpoint stays. -/
theorem addBreakpoints_partial :
    ∃ msg db', (addBreakpoints [5, 5]).on scriptedDb = (.error (.vmError msg), db') ∧
      5 ∉ scriptedDb.breakpts ∧ 5 ∈ db'.breakpts :=
  ⟨_, _, rfl, by decide, by decide⟩

end VMSide

end Odb
