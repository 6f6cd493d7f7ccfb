import Mathlib.Order.Lattice
import Mathlib.Data.List.Basic

/-!
# Bracket matching

Words over letters that open a bracket, close one, or do neither. A word is `Nested` if each of its
brackets has its match inside it; `Matched us i j` says that the brackets at `i` and `j` of `us`
are each other's match, and `Pending us i` that the one at `i` is open and has no match in `us`.

* `Split us ps`: `us` is nested words with one open bracket between two of them, those at `ps`.
* `Split.mem_iff`: the brackets between them are the pending ones.
* `Split.push`, `.pop`, `.skip`: how the pending brackets change with one more letter, as a stack.
* `Split.opened_eq`: how many there are.
-/

namespace Brackets

inductive Kind where
  | opn
  | cls
  | other
deriving DecidableEq, Repr

variable {α : Type} (kind : α → Kind)

/-- The number of open brackets. -/
def opened (us : List α) : Nat := us.countP (kind · = .opn)

/-- The number of closing brackets. -/
def closed (us : List α) : Nat := us.countP (kind · = .cls)

@[simp] theorem opened_nil : opened kind [] = 0 := rfl

@[simp] theorem closed_nil : closed kind [] = 0 := rfl

@[simp] theorem opened_append (us vs : List α) :
    opened kind (us ++ vs) = opened kind us + opened kind vs := by
  simp [opened]

@[simp] theorem closed_append (us vs : List α) :
    closed kind (us ++ vs) = closed kind us + closed kind vs := by
  simp [closed]

@[simp] theorem opened_cons (u : α) (us : List α) :
    opened kind (u :: us) = opened kind us + if kind u = .opn then 1 else 0 := by
  simp [opened, List.countP_cons]

@[simp] theorem closed_cons (u : α) (us : List α) :
    closed kind (u :: us) = closed kind us + if kind u = .cls then 1 else 0 := by
  simp [closed, List.countP_cons]

/-- No prefix of `us` closes more than `d` brackets that it did not open. -/
def Within (d : Nat) (us : List α) : Prop :=
  ∀ vs ws, us = vs ++ ws → closed kind vs ≤ d + opened kind vs

theorem within_iff {d : Nat} {us : List α} : Within kind d us ↔
    ∀ n < us.length + 1, closed kind (us.take n) ≤ d + opened kind (us.take n) := by
  constructor
  · intro h n _
    exact h _ (us.drop n) (List.take_append_drop n us).symm
  · rintro h vs ws rfl
    simpa using h vs.length (by rw [List.length_append]; omega)

instance decidableWithin (d : Nat) (us : List α) : Decidable (Within kind d us) :=
  decidable_of_iff _ (within_iff kind).symm

/-- Each bracket has its match in the word. -/
inductive Nested : List α → Prop where
  | nil : Nested []
  | other {u : α} {us : List α} : kind u = .other → Nested us → Nested (u :: us)
  | pair {u v : α} {us vs : List α} : kind u = .opn → kind v = .cls → Nested us → Nested vs →
      Nested (u :: us ++ v :: vs)

/-- The brackets at `i` and `j` are each other's match. -/
def Matched (us : List α) (i j : Nat) : Prop :=
  ∃ pre u w v post, us = pre ++ u :: w ++ v :: post ∧ pre.length = i ∧
    (pre ++ u :: w).length = j ∧ kind u = .opn ∧ kind v = .cls ∧ Nested kind w

/-- An open bracket without a match. -/
def Pending (us : List α) (i : Nat) : Prop :=
  us[i]?.map kind = some .opn ∧ ∀ j, ¬ Matched kind us i j

/-- `us` is nested words with one open bracket between two of them, those at `ps`. -/
inductive Split : List α → List Nat → Prop where
  | nested {us : List α} : Nested kind us → Split us []
  | snoc {us vs : List α} {u : α} {ps : List Nat} : Split us ps → kind u = .opn →
      Nested kind vs → Split (us ++ u :: vs) (ps ++ [us.length])

variable {kind}

/-! ## Nested words -/

theorem Nested.append {us vs : List α} (hu : Nested kind us) (hv : Nested kind vs) :
    Nested kind (us ++ vs) := by
  induction hu with
  | nil => exact hv
  | other h _ ih => exact .other h ih
  | pair h h' h₁ _ _ ih =>
    rw [List.append_assoc, List.cons_append]
    exact .pair h h' h₁ ih

theorem Nested.opened_eq {us : List α} (h : Nested kind us) : opened kind us = closed kind us := by
  induction h with
  | nil => rfl
  | other h _ ih => simp [h, ih]
  | pair h h' _ _ ih ih' =>
    simp [h, h', ih, ih']
    omega

/-- A prefix of a nested word closes no bracket that it did not open. -/
theorem Nested.within {us : List α} (h : Nested kind us) : Within kind 0 us := by
  induction h with
  | nil =>
    intro vs ws e
    obtain ⟨rfl, rfl⟩ := List.append_eq_nil_iff.mp e.symm
    simp
  | @other u us hu _ ih =>
    intro vs ws e
    rcases List.cons_eq_append_iff.mp e with ⟨rfl, -⟩ | ⟨vs', rfl, e'⟩
    · simp
    · have := ih vs' ws e'
      simpa [hu] using this
  | @pair u v us₁ us₂ hu hv h₁ _ ih₁ ih₂ =>
    intro vs ws e
    rcases List.cons_eq_append_iff.mp e with ⟨rfl, -⟩ | ⟨vs', rfl, e'⟩
    · simp
    rcases List.append_eq_append_iff.mp e' with ⟨a, rfl, e₂⟩ | ⟨c, e₁, -⟩
    · have heq := h₁.opened_eq
      rcases List.cons_eq_append_iff.mp e₂ with ⟨rfl, -⟩ | ⟨a', rfl, e₃⟩
      · simp [hu]
        omega
      · have := ih₂ a' ws e₃
        simp [hu, hv] at this ⊢
        omega
    · have := ih₁ vs' c e₁
      simp [hu]
      omega

/-- An open bracket of a nested word has its match there. -/
theorem Nested.exists_match {us : List α} (h : Nested kind us) :
    ∀ pre u post, us = pre ++ u :: post → kind u = .opn →
      ∃ w v post', post = w ++ v :: post' ∧ kind v = .cls ∧ Nested kind w := by
  induction h with
  | nil => simp
  | @other x us hx _ ih =>
    intro pre u post e hu
    rcases List.cons_eq_append_iff.mp e with ⟨rfl, e'⟩ | ⟨pre', rfl, e'⟩
    · obtain ⟨rfl, -⟩ := List.cons.inj e'
      simp [hx] at hu
    · exact ih pre' u post e' hu
  | @pair x y us₁ us₂ hx hy h₁ _ ih₁ ih₂ =>
    intro pre u post e hu
    rcases List.cons_eq_append_iff.mp e with ⟨rfl, e'⟩ | ⟨pre', rfl, e'⟩
    · obtain ⟨rfl, rfl⟩ := List.cons.inj e'
      exact ⟨us₁, y, us₂, rfl, hy, h₁⟩
    -- the bracket is in `us₁`, or it is after the closing one (which is no open bracket)
    rcases List.append_eq_append_iff.mp e' with ⟨a, rfl, e₂⟩ | ⟨c, rfl, e₂⟩
    · rcases List.cons_eq_append_iff.mp e₂ with ⟨rfl, e₃⟩ | ⟨a', rfl, e₃⟩
      · obtain ⟨rfl, -⟩ := List.cons.inj e₃
        simp [hy] at hu
      · exact ih₂ a' u post e₃ hu
    · rcases List.cons_eq_append_iff.mp e₂ with ⟨rfl, e₃⟩ | ⟨c', rfl, rfl⟩
      · obtain ⟨rfl, -⟩ := List.cons.inj e₃
        simp [hy] at hu
      · obtain ⟨w, v, post', rfl, hv, hw⟩ := ih₁ pre' u c' rfl hu
        exact ⟨w, v, post' ++ y :: us₂, by simp, hv, hw⟩

/-! ## Pending brackets -/

/-- The open brackets between the nested words outnumber the closing ones by their number. -/
theorem Split.opened_eq {us : List α} {ps : List Nat} (h : Split kind us ps) :
    opened kind us = closed kind us + ps.length := by
  induction h with
  | nested h => simpa using h.opened_eq
  | snoc _ hu hv ih =>
    have := hv.opened_eq
    simp [hu, ih]
    omega

theorem Split.lt_length {us : List α} {ps : List Nat} (h : Split kind us ps) :
    ∀ i ∈ ps, i < us.length := by
  induction h with
  | nested => simp
  | @snoc us vs u ps _ _ _ ih =>
    intro i hi
    rcases List.mem_append.mp hi with hi | hi
    · have := ih i hi
      simp
      omega
    · simp [List.mem_singleton.mp hi]

theorem Split.sorted {us : List α} {ps : List Nat} (h : Split kind us ps) :
    ps.Pairwise (· < ·) := by
  induction h with
  | nested => exact .nil
  | snoc h _ _ ih =>
    refine List.pairwise_append.mpr ⟨ih, List.pairwise_singleton _ _, fun i hi j hj => ?_⟩
    rw [List.mem_singleton.mp hj]
    exact h.lt_length i hi

/-- After a bracket of `ps` no prefix closes more brackets than it opens. -/
theorem Split.within_after {us : List α} {ps : List Nat} (h : Split kind us ps) :
    ∀ i ∈ ps, ∃ pre u post, us = pre ++ u :: post ∧ pre.length = i ∧ kind u = .opn ∧
      Within kind 0 post := by
  induction h with
  | nested => simp
  | @snoc us vs u ps _ hu hv ih =>
    intro i hi
    rcases List.mem_append.mp hi with hi | hi
    · obtain ⟨pre, x, post, rfl, rfl, hx, hpost⟩ := ih i hi
      refine ⟨pre, x, post ++ u :: vs, by simp, rfl, hx, fun ys zs e => ?_⟩
      have hw := hv.within
      rcases List.append_eq_append_iff.mp e with ⟨a, rfl, e₂⟩ | ⟨c, e₁, -⟩
      · have := hpost post [] (by simp)
        rcases List.cons_eq_append_iff.mp e₂ with ⟨rfl, -⟩ | ⟨a', rfl, e₃⟩
        · simpa using this
        · have := hw a' zs e₃
          simp [hu] at this ⊢
          omega
      · exact hpost ys c e₁
    · exact ⟨us, u, vs, rfl, (List.mem_singleton.mp hi).symm, hu, hv.within⟩

/-- An open bracket that is not between the nested words is in one of them. -/
theorem Split.matched_of_notMem {us : List α} {ps : List Nat} (h : Split kind us ps) :
    ∀ pre u post, us = pre ++ u :: post → kind u = .opn → pre.length ∉ ps →
      ∃ j, Matched kind us pre.length j := by
  induction h with
  | nested h =>
    rintro pre u post rfl hu -
    obtain ⟨w, v, post', rfl, hv, hw⟩ := h.exists_match pre u post rfl hu
    exact ⟨_, pre, u, w, v, post', by simp, rfl, rfl, hu, hv, hw⟩
  | @snoc us vs x ps _ hx hv ih =>
    intro pre u post e hu hi
    simp only [List.mem_append, List.mem_singleton, not_or] at hi
    rcases List.append_eq_append_iff.mp e with ⟨a, rfl, e₂⟩ | ⟨c, rfl, e₂⟩
    · rcases List.cons_eq_append_iff.mp e₂ with ⟨rfl, -⟩ | ⟨a', rfl, e₃⟩
      · simp at hi
      · obtain ⟨w, v, post', rfl, hv', hw⟩ := hv.exists_match a' u post e₃ hu
        exact ⟨_, us ++ x :: a', u, w, v, post', by simp [e₃], rfl, rfl, hu, hv', hw⟩
    · rcases List.cons_eq_append_iff.mp e₂ with ⟨rfl, e₃⟩ | ⟨c', rfl, rfl⟩
      · simp at hi
      · obtain ⟨j, pre', y, w, v, post', e', hp, hj, hy, hv', hw⟩ := ih pre u c' rfl hu hi.1
        exact ⟨j, pre', y, w, v, post' ++ x :: vs, by simp [e'], hp, hj, hy, hv', hw⟩

/-- The brackets between the nested words are the pending ones. -/
theorem Split.mem_iff {us : List α} {ps : List Nat} (h : Split kind us ps) (i : Nat) :
    i ∈ ps ↔ Pending kind us i := by
  constructor
  · intro hi
    obtain ⟨pre, u, post, rfl, rfl, hu, hpost⟩ := h.within_after i hi
    refine ⟨by simp [hu], ?_⟩
    rintro j ⟨pre', u', w, v, post', e, hp, -, -, hv, hw⟩
    rw [List.append_assoc] at e
    obtain ⟨-, e'⟩ := List.append_inj e hp.symm
    obtain ⟨-, rfl⟩ := List.cons.inj e'
    -- a match closes one bracket more than are open after `i`
    have hle := hpost (w ++ [v]) post' (by simp)
    simp only [closed_append, closed_cons, closed_nil, opened_append, opened_cons, opened_nil, hv,
      hw.opened_eq, reduceCtorEq, if_true, if_false] at hle
    omega
  · rintro ⟨ho, hm⟩
    by_contra hi
    rcases hu : us[i]? with _ | u
    · simp [hu] at ho
    · obtain ⟨hlt, rfl⟩ := List.getElem?_eq_some_iff.mp hu
      have e : us = us.take i ++ us[i] :: us.drop (i + 1) := by simp
      have hlen : (us.take i).length = i := by simp; omega
      simp only [hu, Option.map_some, Option.some.injEq] at ho
      obtain ⟨j, hj⟩ := h.matched_of_notMem _ _ _ e ho (by rwa [hlen])
      rw [hlen] at hj
      exact hm j hj

/-! ## One more letter -/

theorem Split.append {us vs : List α} {ps : List Nat} (h : Split kind us ps)
    (hv : Nested kind vs) : Split kind (us ++ vs) ps := by
  cases h with
  | nested h => exact .nested (h.append hv)
  | snoc h hu h' =>
    rw [List.append_assoc, List.cons_append]
    exact .snoc h hu (h'.append hv)

theorem Split.skip {us : List α} {u : α} {ps : List Nat} (h : Split kind us ps)
    (hu : kind u = .other) : Split kind (us ++ [u]) ps := h.append (.other hu .nil)

theorem Split.push {us : List α} {u : α} {ps : List Nat} (h : Split kind us ps)
    (hu : kind u = .opn) : Split kind (us ++ [u]) (ps ++ [us.length]) := .snoc h hu .nil

theorem Split.pop {us : List α} {u : α} {ps : List Nat} (h : Split kind us ps)
    (hu : kind u = .cls) (hp : ps ≠ []) : Split kind (us ++ [u]) ps.dropLast := by
  cases h with
  | nested => exact absurd rfl hp
  | @snoc us vs x ps h hx hv =>
    rw [List.dropLast_concat, List.append_assoc, List.cons_append]
    exact h.append (.pair hx hu hv .nil)

end Brackets
