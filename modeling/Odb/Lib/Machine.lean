import Mathlib.Logic.Relation

/-!
# Machines that take steps

A machine has states, the ones it starts in, and the steps it can take. Where several threads or
parties take turns, a step of the machine is one step of any of them, and what holds in every
reachable state holds for every interleaving.

* `Machine.Reachable.invariant`: what holds at the start and is kept by every step always holds.
* `Machine.Refines.reachable`: a machine that refines another reaches only what that one reaches.
* `Machine.within`, `Machine.along`: the runs of a machine in which every state, or every step,
  satisfies something.
-/

structure Machine (σ : Type u) where
  Init : σ → Prop
  Step : σ → σ → Prop

namespace Machine

variable {σ : Type u} {τ : Type v} {M : Machine σ} {N : Machine τ}

/-- The states that `M` reaches. -/
inductive Reachable (M : Machine σ) : σ → Prop where
  | init {s : σ} : M.Init s → M.Reachable s
  | step {s s' : σ} : M.Reachable s → M.Step s s' → M.Reachable s'

/-- Any number of steps of `M`. -/
abbrev Steps (M : Machine σ) : σ → σ → Prop := Relation.ReflTransGen M.Step

theorem Reachable.steps {s s' : σ} (h : M.Reachable s) (hs : M.Steps s s') : M.Reachable s' := by
  induction hs with
  | refl => exact h
  | tail _ hst ih => exact .step ih hst

/-- What is reached is reached from the start. -/
theorem Reachable.from_init {s : σ} (h : M.Reachable s) : ∃ s₀, M.Init s₀ ∧ M.Steps s₀ s := by
  induction h with
  | init h => exact ⟨_, h, .refl⟩
  | step _ hst ih =>
    obtain ⟨s₀, hinit, hs⟩ := ih
    exact ⟨s₀, hinit, hs.tail hst⟩

/-- `P` holds at the start, and every step from a reachable state keeps it. -/
theorem Reachable.invariant {P : σ → Prop} (hinit : ∀ s, M.Init s → P s)
    (hstep : ∀ s s', M.Reachable s → P s → M.Step s s' → P s') {s : σ} (h : M.Reachable s) :
    P s := by
  induction h with
  | init h => exact hinit _ h
  | step h hst ih => exact hstep _ _ h ih hst

/-- What every step from a reachable state keeps, every run from a reachable state keeps. -/
theorem Reachable.keeps {P : σ → Prop} (hstep : ∀ s s', M.Reachable s → P s → M.Step s s' → P s')
    {s s' : σ} (h : M.Reachable s) (hp : P s) (hs : M.Steps s s') : P s' := by
  induction hs with
  | refl => exact hp
  | tail hs hst ih => exact hstep _ _ (h.steps hs) ih hst

/-- What a machine reaches, one that can do more reaches too. -/
theorem Reachable.mono {N : Machine σ} (hinit : ∀ s, M.Init s → N.Init s)
    (hstep : ∀ s s', M.Step s s' → N.Step s s') {s : σ} (h : M.Reachable s) : N.Reachable s := by
  induction h with
  | init h => exact .init (hinit _ h)
  | step _ hst ih => exact ih.step (hstep _ _ hst)

theorem Steps.mono {N : Machine σ} (hstep : ∀ s s', M.Step s s' → N.Step s s') {s s' : σ}
    (h : M.Steps s s') : N.Steps s s' := by
  induction h with
  | refl => exact .refl
  | tail _ hst ih => exact ih.tail (hstep _ _ hst)

/-- `M`, as long as `P` holds. -/
def within (M : Machine σ) (P : σ → Prop) : Machine σ where
  Init s := M.Init s ∧ P s
  Step s s' := M.Step s s' ∧ P s'

theorem Reachable.of_within {P : σ → Prop} {s : σ} (h : (M.within P).Reachable s) :
    M.Reachable s ∧ P s := by
  induction h with
  | init h => exact ⟨.init h.1, h.2⟩
  | step _ hst ih => exact ⟨ih.1.step hst.1, hst.2⟩

/-- `M`, as long as its steps are in `r`. -/
def along (M : Machine σ) (r : σ → σ → Prop) : Machine σ where
  Init := M.Init
  Step s s' := M.Step s s' ∧ r s s'

theorem Reachable.of_along {r : σ → σ → Prop} {s : σ} (h : (M.along r).Reachable s) :
    M.Reachable s := by
  induction h with
  | init h => exact .init h
  | step _ hst ih => exact ih.step hst.1

/-- Seen through `f`, every step of `M` from a reachable state is some steps of `N`. -/
structure Refines (M : Machine σ) (N : Machine τ) (f : σ → τ) : Prop where
  init : ∀ s, M.Init s → N.Init (f s)
  step : ∀ s s', M.Reachable s → M.Step s s' → N.Steps (f s) (f s')

theorem Refines.reachable {f : σ → τ} (h : Refines M N f) {s : σ} (hs : M.Reachable s) :
    N.Reachable (f s) := by
  induction hs with
  | init hi => exact .init (h.init _ hi)
  | step hs hst ih => exact ih.steps (h.step _ _ hs hst)

end Machine
