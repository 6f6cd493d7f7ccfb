import Mathlib.Data.List.Forall2
import Mathlib.Logic.Relation

/-!
# Programs with a state that outlives a failure

A program of `Prog ε σ` changes a state of type `σ` and returns or fails with an `ε`. What it did
to the state before it failed stays.

* `on_bind` and the other `on_*` lemmas compute a program on a state.
* `Spec P c Q E`: from a state in `P`, `c` returns into `Q` or fails into `E`.
* `Keeps f c`: `c` never changes what `f` reads off the state, returned or failed.
* `Moves r F c`: `c` only takes steps of `r`, if it returns or fails with an `e` in `F`.
* `Safe F c s`: on the state `s`, `c` returns or fails with an `e` in `F`; a loop does if every
  round does in the state that the rounds before it left (`Along`).
* `Total c`: `c` returns on every state.
* `Yields P I F q p c R`: from a state in `P`, `c` leaves one in `I`, and what it returns is in `R`; if
  `q` holds, it returns exactly if `p` does, and else fails with an `e` in `F`.
* `zoom`: a program on a part of the state, run on the whole.
-/

/-- Programs on a state `σ` that return an `α` or fail with an `ε`. -/
abbrev Prog (ε σ α : Type) := ExceptT ε (StateM σ) α

namespace Prog

variable {ε σ τ α β β' : Type}

/-- Runs `c` on the state `s`. -/
def on (c : Prog ε σ α) (s : σ) : Except ε α × σ := (ExceptT.run c).run s

/-- A program given by what it does to each state. -/
def of (f : σ → Except ε α × σ) : Prog ε σ α := ExceptT.mk fun s => f s

/-- A program that fails or returns without a look at the state. -/
def lift (r : Except ε α) : Prog ε σ α := of fun s => (r, s)

/-- Handles a failure: the handler starts in the state that the failure left. -/
def handle (c : Prog ε σ α) (h : ε → Prog ε σ α) : Prog ε σ α := of fun s =>
  match c.on s with
  | (.ok a, s') => (.ok a, s')
  | (.error e, s') => (h e).on s'

/-- A program on the part of the state that `get` reads and `set` writes. -/
def zoom (get : σ → τ) (set : τ → σ → σ) (c : Prog ε τ α) : Prog ε σ α := of fun s =>
  ((c.on (get s)).1, set (c.on (get s)).2 s)

theorem ext {c d : Prog ε σ α} (h : ∀ s, c.on s = d.on s) : c = d := funext h

/-! ## What each program does to a state -/

@[simp] theorem on_of (f : σ → Except ε α × σ) (s : σ) : (of f).on s = f s := rfl

@[simp] theorem on_pure (a : α) (s : σ) : (pure a : Prog ε σ α).on s = (.ok a, s) := rfl

@[simp] theorem on_throw (e : ε) (s : σ) : (throw e : Prog ε σ α).on s = (.error e, s) := rfl

@[simp] theorem on_lift (r : Except ε α) (s : σ) : (lift r : Prog ε σ α).on s = (r, s) := rfl

@[simp] theorem on_get (s : σ) : (get : Prog ε σ σ).on s = (.ok s, s) := rfl

@[simp] theorem on_set (t s : σ) : (set t : Prog ε σ PUnit).on s = (.ok ⟨⟩, t) := rfl

@[simp] theorem on_modify (f : σ → σ) (s : σ) :
    (modify f : Prog ε σ PUnit).on s = (.ok ⟨⟩, f s) := rfl

theorem on_bind (c : Prog ε σ α) (f : α → Prog ε σ β) (s : σ) :
    (c >>= f).on s = match c.on s with
      | (.ok a, s') => (f a).on s'
      | (.error e, s') => (.error e, s') := by
  simp only [on, ExceptT.run_bind, StateT.run_bind]
  rcases h : (ExceptT.run c).run s with ⟨_ | a, s'⟩ <;> rfl

theorem on_bind_ok {c : Prog ε σ α} {s s' : σ} {a : α} (h : c.on s = (.ok a, s'))
    (f : α → Prog ε σ β) : (c >>= f).on s = (f a).on s' := by rw [on_bind, h]

theorem on_bind_error {c : Prog ε σ α} {s s' : σ} {e : ε} (h : c.on s = (.error e, s'))
    (f : α → Prog ε σ β) : (c >>= f).on s = (.error e, s') := by rw [on_bind, h]

/-- What a run of a sequence that returns looks like. -/
theorem bind_eq_ok {c : Prog ε σ α} {f : α → Prog ε σ β} {s t : σ} {b : β} :
    (c >>= f).on s = (.ok b, t) ↔ ∃ a s', c.on s = (.ok a, s') ∧ (f a).on s' = (.ok b, t) := by
  rcases h : c.on s with ⟨_ | a, s'⟩
  · rw [on_bind_error h]
    simp
  · rw [on_bind_ok h]
    simp [Prod.mk.injEq, and_assoc, exists_and_left]

theorem lift_eq_ok {r : Except ε α} {s t : σ} {a : α} :
    (lift r : Prog ε σ α).on s = (.ok a, t) ↔ r = .ok a ∧ s = t := by
  simp

@[simp] theorem on_map (f : α → β) (c : Prog ε σ α) (s : σ) :
    (f <$> c).on s = ((c.on s).1.map f, (c.on s).2) := by
  rw [map_eq_pure_bind, on_bind]
  rcases c.on s with ⟨_ | a, s'⟩ <;> rfl

@[simp] theorem lift_ok (a : α) : (lift (.ok a) : Prog ε σ α) = pure a := rfl

@[simp] theorem lift_error (e : ε) : (lift (.error e) : Prog ε σ α) = throw e := rfl

theorem lift_bind (x : Except ε α) (f : α → Except ε β) :
    (lift (x >>= f) : Prog ε σ β) = lift x >>= fun a => lift (f a) := by
  cases x <;> rfl

@[simp] theorem throw_bind (e : ε) (f : α → Prog ε σ β) : (throw e >>= f) = throw e := rfl

theorem on_handle (c : Prog ε σ α) (h : ε → Prog ε σ α) (s : σ) :
    (c.handle h).on s = match c.on s with
      | (.ok a, s') => (.ok a, s')
      | (.error e, s') => (h e).on s' := rfl

theorem on_bind_pure (f : α → β) (c : Prog ε σ α) (s : σ) :
    (c >>= fun a => pure (f a)).on s = ((c.on s).1.map f, (c.on s).2) := by
  rw [← map_eq_pure_bind, on_map]

theorem on_zoom {get : σ → τ} {set : τ → σ → σ} {c : Prog ε τ α} {s : σ} {r : Except ε α} {t : τ}
    (h : c.on (get s) = (r, t)) : (zoom get set c).on s = (r, set t s) := by
  rw [zoom, on_of, h]

/-! ## Pre- and postconditions -/

/-- `r` is a returned value in `Q` or a failure in `E`. -/
def Outcome (Q : α → σ → Prop) (E : ε → σ → Prop) : Except ε α × σ → Prop
  | (.ok a, s) => Q a s
  | (.error e, s) => E e s

/-- From a state in `P`, `c` returns into `Q` or fails into `E`. -/
def Spec (P : σ → Prop) (c : Prog ε σ α) (Q : α → σ → Prop) (E : ε → σ → Prop) : Prop :=
  ∀ s, P s → Outcome Q E (c.on s)

namespace Spec

variable {P P' : σ → Prop} {Q Q' : α → σ → Prop} {E E' : ε → σ → Prop} {c : Prog ε σ α}

theorem ret {a : α} (h : ∀ s, P s → Q a s) : Spec P (pure a) Q E := h

theorem conseq (hc : Spec P c Q E) (hP : ∀ s, P' s → P s) (hQ : ∀ a s, Q a s → Q' a s)
    (hE : ∀ e s, E e s → E' e s) : Spec P' c Q' E' := by
  intro s hs
  have := hc s (hP s hs)
  rcases h : c.on s with ⟨_ | a, s'⟩ <;> rw [h] at this
  · exact hE _ _ this
  · exact hQ _ _ this

theorem bind {R : β → σ → Prop} {f : α → Prog ε σ β} (hc : Spec P c Q E)
    (hf : ∀ a, Spec (Q a) (f a) R E) : Spec P (c >>= f) R E := by
  intro s hs
  have := hc s hs
  rcases h : c.on s with ⟨_ | a, s'⟩ <;> rw [h] at this
  · rw [on_bind_error h]
    exact this
  · rw [on_bind_ok h]
    exact hf a s' this

/-- A list mapped item by item: what holds before every item holds after the last, and every result
is related to its item. -/
theorem mapM {I : σ → Prop} {R : α → β → Prop} {f : α → Prog ε σ β} (xs : List α)
    (hf : ∀ x ∈ xs, Spec I (f x) (fun y s => I s ∧ R x y) E) :
    Spec I (xs.mapM f) (fun ys s => I s ∧ List.Forall₂ R xs ys) E := by
  induction xs with
  | nil => exact ret fun _ h => ⟨h, .nil⟩
  | cons x xs ih =>
    rw [List.mapM_cons]
    refine bind (hf x (by simp)) fun y => bind (Q := fun ys s => I s ∧ List.Forall₂ R (x :: xs) (y :: ys))
      ?_ fun ys => ret fun _ h => h
    rintro s ⟨hs, hy⟩
    have := ih (fun z hz => hf z (by simp [hz])) s hs
    rcases h : (xs.mapM f).on s with ⟨_ | ys, s'⟩ <;> rw [h] at this
    · exact this
    · exact ⟨this.1, .cons hy this.2⟩

/-- A loop over a list: what holds before every round holds after the last. -/
theorem forM {I : σ → Prop} {f : α → Prog ε σ PUnit} (xs : List α)
    (hf : ∀ x ∈ xs, Spec I (f x) (fun _ => I) E) : Spec I (xs.forM f) (fun _ => I) E := by
  induction xs with
  | nil => exact ret fun _ h => h
  | cons x xs ih =>
    exact bind (hf x (by simp)) fun _ => ih fun y hy => hf y (by simp [hy])

end Spec

/-- Every item has its result. -/
theorem forall₂_mem_left {R : α → β → Prop} {xs : List α} {ys : List β} (h : List.Forall₂ R xs ys)
    {x : α} (hx : x ∈ xs) : ∃ y ∈ ys, R x y := by
  induction h with
  | nil => cases hx
  | cons h _ ih =>
    rcases List.mem_cons.mp hx with rfl | hx
    · exact ⟨_, by simp, h⟩
    · obtain ⟨y, hy, hR⟩ := ih hx
      exact ⟨y, by simp [hy], hR⟩

/-- Every result is that of an item. -/
theorem forall₂_mem_right {R : α → β → Prop} {xs : List α} {ys : List β} (h : List.Forall₂ R xs ys)
    {y : β} (hy : y ∈ ys) : ∃ x ∈ xs, R x y := forall₂_mem_left h.flip hy

/-- A loop that fails at the first item that fails. -/
theorem mapM_eq_ok {f : α → Except ε β} {xs : List α} {ys : List β} :
    xs.mapM f = .ok ys ↔ List.Forall₂ (fun x y => f x = .ok y) xs ys := by
  induction xs generalizing ys with
  | nil => cases ys <;> simp [pure, Except.pure]
  | cons x xs ih =>
    rw [List.mapM_cons]
    rcases hx : f x with e | y
    · refine ⟨nofun, fun h => ?_⟩
      cases h with
      | cons hy => exact absurd (hx.symm.trans hy) nofun
    · show (xs.mapM f >>= fun ys => pure (y :: ys)) = _ ↔ _
      rcases hxs : xs.mapM f with e | ys'
      · refine ⟨nofun, fun h => ?_⟩
        cases h with
        | cons _ hys => exact absurd (hxs.symm.trans (ih.mpr hys)) nofun
      · refine ⟨fun h => ?_, fun h => ?_⟩
        · obtain rfl : y :: ys' = ys := Except.ok.inj h
          exact .cons hx (ih.mp hxs)
        · cases h with
          | cons hy hys =>
            rw [Except.ok.inj (hx.symm.trans hy), Except.ok.inj (hxs.symm.trans (ih.mpr hys))]
            rfl

/-- It returns if every item does. -/
theorem mapM_isOk {f : α → Except ε β} {xs : List α} :
    (∃ ys, xs.mapM f = .ok ys) ↔ ∀ x ∈ xs, ∃ y, f x = .ok y := by
  refine ⟨fun ⟨ys, h⟩ x hx => ?_, fun h => ?_⟩
  · obtain ⟨y, -, hy⟩ := forall₂_mem_left (mapM_eq_ok.mp h) hx
    exact ⟨y, hy⟩
  · induction xs with
    | nil => exact ⟨[], rfl⟩
    | cons x xs ih =>
      obtain ⟨⟨y, hy⟩, hxs⟩ := List.forall_mem_cons.mp h
      obtain ⟨ys, hys⟩ := ih hxs
      exact ⟨y :: ys, mapM_eq_ok.mpr (.cons hy (mapM_eq_ok.mp hys))⟩

/-- It fails as one of its items does. -/
theorem mapM_eq_error {f : α → Except ε β} {xs : List α} {e : ε} (h : xs.mapM f = .error e) :
    ∃ x ∈ xs, f x = .error e := by
  induction xs with
  | nil => cases h
  | cons x xs ih =>
    rw [List.mapM_cons] at h
    rcases hx : f x with e' | y <;> rw [hx] at h
    · cases h
      exact ⟨x, by simp, hx⟩
    · rcases hxs : xs.mapM f with e' | ys <;> rw [hxs] at h
      · cases h
        obtain ⟨z, hz, he⟩ := ih hxs
        exact ⟨z, by simp [hz], he⟩
      · cases h

theorem forall₂_imp_mem {R S : α → β → Prop} {xs : List α} {ys : List β} (h : List.Forall₂ R xs ys)
    (hRS : ∀ x y, x ∈ xs → R x y → S x y) : List.Forall₂ S xs ys := by
  induction h with
  | nil => exact .nil
  | cons h _ ih => exact .cons (hRS _ _ (by simp) h) (ih fun x y hx => hRS x y (by simp [hx]))

/-- Every result of a list mapped item by item is one of its item. -/
theorem mapM_ok {R : α → β → Prop} {f : α → Prog ε σ β} {xs : List α} {ys : List β} {s t : σ}
    (h : (xs.mapM f).on s = (.ok ys, t))
    (hf : ∀ x s y s', (f x).on s = (.ok y, s') → R x y) : List.Forall₂ R xs ys := by
  have := Spec.mapM (I := fun _ => True) (R := R) (E := fun _ _ => True) (f := f) xs ?_ s trivial
  · rw [h] at this
    exact this.2
  · intro x _ s _
    rcases hx : (f x).on s with ⟨_ | y, s'⟩
    · trivial
    · exact ⟨trivial, hf x s y s' hx⟩

/-! ## Frames -/

/-- `c` never changes what `f` reads off the state. -/
def Keeps (f : σ → τ) (c : Prog ε σ α) : Prop := ∀ s, f (c.on s).2 = f s

namespace Keeps

variable {f : σ → τ} {c : Prog ε σ α}

theorem ret (a : α) : Keeps f (pure a : Prog ε σ α) := fun _ => rfl

theorem fail (e : ε) : Keeps f (throw e : Prog ε σ α) := fun _ => rfl

theorem lift (r : Except ε α) : Keeps f (Prog.lift r : Prog ε σ α) := fun _ => rfl

theorem get : Keeps f (get : Prog ε σ σ) := fun _ => rfl

theorem modify {g : σ → σ} (h : ∀ s, f (g s) = f s) : Keeps f (modify g : Prog ε σ PUnit) := h

theorem bind {g : α → Prog ε σ β} (hc : Keeps f c) (hg : ∀ a, Keeps f (g a)) :
    Keeps f (c >>= g) := by
  intro s
  rcases h : c.on s with ⟨_ | a, s'⟩
  · rw [on_bind_error h, ← hc s, h]
  · rw [on_bind_ok h, hg a s', ← hc s, h]

theorem handle {h : ε → Prog ε σ α} (hc : Keeps f c) (hh : ∀ e, Keeps f (h e)) :
    Keeps f (c.handle h) := by
  intro s
  rw [on_handle]
  rcases hrun : c.on s with ⟨e | a, s'⟩
  · rw [← hc s, hrun]
    exact hh e s'
  · rw [← hc s, hrun]

theorem discard (hc : Keeps f c) : Keeps f (Functor.discard c) := by
  intro s
  show f ((Function.const _ () <$> c : Prog ε σ Unit).on s).2 = _
  rw [on_map]
  exact hc s

theorem ite {p : Prop} [Decidable p] {d : Prog ε σ α} (hc : Keeps f c) (hd : Keeps f d) :
    Keeps f (if p then c else d) := by
  split
  · exact hc
  · exact hd

theorem forM {g : α → Prog ε σ PUnit} (xs : List α) (hg : ∀ x, Keeps f (g x)) :
    Keeps f (xs.forM g) := by
  induction xs with
  | nil => exact ret _
  | cons x xs ih =>
    exact bind (hg x) fun _ => ih

theorem mapM {g : α → Prog ε σ β} (xs : List α) (hg : ∀ x, Keeps f (g x)) :
    Keeps f (xs.mapM g) := by
  induction xs with
  | nil => exact ret _
  | cons x xs ih =>
    rw [List.mapM_cons]
    exact bind (hg x) fun _ => bind ih fun _ => ret _

/-- A program on a part of the state keeps on the whole what it keeps there. -/
theorem zoom {υ : Type} {g : τ → υ} {get : σ → τ} {set : τ → σ → σ} {d : Prog ε τ α}
    (hd : Keeps g d) (hget : ∀ t s, get (set t s) = t) :
    Keeps (fun s => g (get s)) (Prog.zoom get set d) := by
  intro s
  show g (get (set (d.on (get s)).2 s)) = g (get s)
  rw [hget]
  exact hd (get s)

/-- What holds of the part that `c` keeps holds after it. -/
theorem spec {p : τ → Prop} (hc : Keeps f c) :
    Spec (fun s => p (f s)) c (fun _ s => p (f s)) (fun _ s => p (f s)) := by
  intro s hs
  have := hc s
  rcases h : c.on s with ⟨_ | a, s'⟩ <;> rw [h] at this <;> show p (f s') <;> rwa [this]

end Keeps

/-! ## Steps -/

/-- When `c` returns, or fails with an `e` in `F`, it has taken the state some steps of `r`
further. -/
def Moves (r : σ → σ → Prop) (F : ε → Prop) (c : Prog ε σ α) : Prop :=
  ∀ s, Outcome (fun _ s' => Relation.ReflTransGen r s s')
    (fun e s' => F e → Relation.ReflTransGen r s s') (c.on s)

namespace Moves

variable {r : σ → σ → Prop} {F : ε → Prop} {c : Prog ε σ α}

theorem of_keeps (hc : Keeps id c) : Moves r F c := by
  intro s
  have : (c.on s).2 = s := hc s
  rcases h : c.on s with ⟨_ | a, s'⟩ <;> rw [h] at this
  · exact fun _ => this ▸ .refl
  · exact this ▸ Relation.ReflTransGen.refl

theorem bind {g : α → Prog ε σ β} (hc : Moves r F c) (hg : ∀ a, Moves r F (g a)) :
    Moves r F (c >>= g) := by
  intro s
  have hs := hc s
  rcases h : c.on s with ⟨e | a, s'⟩ <;> rw [h] at hs
  · rw [on_bind_error h]
    exact hs
  · rw [on_bind_ok h]
    have hs' := hg a s'
    rcases h' : (g a).on s' with ⟨e | b, s''⟩ <;> rw [h'] at hs'
    · exact fun he => .trans hs (hs' he)
    · exact .trans hs hs'

theorem mono {r' : σ → σ → Prop} (hc : Moves r F c) (h : ∀ s s', r s s' → r' s s') :
    Moves r' F c := by
  intro s
  have hs := hc s
  rcases hrun : c.on s with ⟨e | a, s'⟩ <;> rw [hrun] at hs
  · exact fun he => Relation.ReflTransGen.mono h _ _ (hs he)
  · exact Relation.ReflTransGen.mono h _ _ hs

/-- A program of one step. -/
theorem of_step (hc : ∀ s, r s (c.on s).2) : Moves r F c := by
  intro s
  have := hc s
  rcases h : c.on s with ⟨_ | a, s'⟩ <;> rw [h] at this
  · exact fun _ => .single this
  · exact .single this

/-- What is handled are the failures in `F`. -/
theorem handle {g : ε → Prog ε σ α} (hc : Moves r F c) (hg : ∀ e, F e → Moves r F (g e))
    (hpass : ∀ e, ¬ F e → g e = throw e) : Moves r F (c.handle g) := by
  intro s
  have hs := hc s
  rw [on_handle]
  rcases h : c.on s with ⟨e | a, s'⟩ <;> rw [h] at hs
  · by_cases he : F e
    · have hs' := hg e he s'
      simp only
      rcases h' : (g e).on s' with ⟨e' | b, s''⟩ <;> rw [h'] at hs'
      · exact fun he' => .trans (hs he) (hs' he')
      · exact .trans (hs he) hs'
    · show Outcome _ _ ((g e).on s')
      rw [hpass e he]
      exact fun he' => absurd he' he
  · exact hs

/-- The steps of a program on a part of the state are steps of the whole. -/
theorem zoom {r' : τ → τ → Prop} {get : σ → τ} {set : τ → σ → σ} {d : Prog ε τ α}
    (hd : Moves r' F d) (hr : ∀ t t' s, r' t t' → r (set t s) (set t' s))
    (hset : ∀ s, set (get s) s = s) : Moves r F (Prog.zoom get set d) := by
  intro s
  have hlift {t : τ} (h : Relation.ReflTransGen r' (get s) t) :
      Relation.ReflTransGen r s (set t s) := by
    have : Relation.ReflTransGen r (set (get s) s) (set t s) :=
      h.lift (set · s) fun t t' => hr t t' s
    rwa [hset] at this
  have hs := hd (get s)
  rcases h : d.on (get s) with ⟨e | a, t⟩ <;> rw [h] at hs <;> rw [on_zoom h]
  · exact fun he => hlift (hs he)
  · exact hlift hs

theorem ite {p : Prop} [Decidable p] {d : Prog ε σ α} (hc : Moves r F c) (hd : Moves r F d) :
    Moves r F (if p then c else d) := by
  split
  · exact hc
  · exact hd

theorem discard_iff : Moves r F (Functor.discard c) ↔ Moves r F c := by
  refine forall_congr' fun s => ?_
  show Outcome _ _ ((Function.const _ () <$> c : Prog ε σ Unit).on s) ↔ _
  rw [on_map]
  rcases c.on s with ⟨_ | a, s'⟩ <;> rfl

theorem forM {g : α → Prog ε σ PUnit} (xs : List α) (hg : ∀ x, Moves r F (g x)) :
    Moves r F (xs.forM g) := by
  induction xs with
  | nil => exact of_keeps (.ret _)
  | cons x xs ih => exact bind (hg x) fun _ => ih

theorem mapM {g : α → Prog ε σ β} (xs : List α) (hg : ∀ x, Moves r F (g x)) :
    Moves r F (xs.mapM g) := by
  induction xs with
  | nil => exact of_keeps (.ret _)
  | cons x xs ih =>
    rw [List.mapM_cons]
    exact bind (hg x) fun _ => bind ih fun _ => of_keeps (.ret _)

end Moves

/-! ## Safety on a state -/

/-- On the state `s`, `c` returns or fails with an `e` in `F`. -/
def Safe (F : ε → Prop) (c : Prog ε σ α) (s : σ) : Prop :=
  Outcome (fun _ _ => True) (fun e _ => F e) (c.on s)

/-- `P` holds of every item in the state that `f` of the items before it left. -/
def Along (f : α → Prog ε σ β) (P : α → σ → Prop) : List α → σ → Prop
  | [], _ => True
  | x :: xs, s => P x s ∧ ∀ y s', (f x).on s = (.ok y, s') → Along f P xs s'

theorem Along.of_forall {f : α → Prog ε σ β} {P : α → σ → Prop} {xs : List α}
    (h : ∀ x ∈ xs, ∀ s, P x s) (s : σ) : Along f P xs s := by
  induction xs generalizing s with
  | nil => trivial
  | cons x xs ih => exact ⟨h x (by simp) s, fun _ s' _ => ih (fun y hy => h y (by simp [hy])) s'⟩

/-- Where every round returns, the loop reaches every item. -/
theorem Along.all {f : α → Prog ε σ β} {P : α → Prop} {xs : List α} {s : σ}
    (hf : ∀ x ∈ xs, ∀ s, ∃ y s', (f x).on s = (.ok y, s')) (h : Along f (fun x _ => P x) xs s) :
    ∀ x ∈ xs, P x := by
  induction xs generalizing s with
  | nil => simp
  | cons x xs ih =>
    obtain ⟨y, s', hrun⟩ := hf x (by simp) s
    exact List.forall_mem_cons.mpr ⟨h.1, ih (fun y hy => hf y (by simp [hy])) (h.2 y s' hrun)⟩

/-- Only what the rounds that return leave counts, and only where `P` holds. -/
theorem along_congr {f : α → Prog ε σ β} {g : α → Prog ε σ β'} {P Q : α → σ → Prop} {xs : List α}
    (hP : ∀ x ∈ xs, ∀ s, P x s ↔ Q x s)
    (hf : ∀ x ∈ xs, ∀ s s', P x s →
      ((∃ y, (f x).on s = (.ok y, s')) ↔ ∃ y, (g x).on s = (.ok y, s'))) (s : σ) :
    Along f P xs s ↔ Along g Q xs s := by
  induction xs generalizing s with
  | nil => rfl
  | cons x xs ih =>
    have hx : x ∈ x :: xs := by simp
    have ih := ih (fun y hy => hP y (by simp [hy])) fun y hy => hf y (by simp [hy])
    constructor
    · rintro ⟨h, hall⟩
      refine ⟨(hP x hx s).mp h, fun y s' hrun => ?_⟩
      obtain ⟨z, hz⟩ := (hf x hx s s' h).mpr ⟨y, hrun⟩
      exact (ih s').mp (hall z s' hz)
    · rintro ⟨h, hall⟩
      have h := (hP x hx s).mpr h
      refine ⟨h, fun y s' hrun => ?_⟩
      obtain ⟨z, hz⟩ := (hf x hx s s' h).mp ⟨y, hrun⟩
      exact (ih s').mpr (hall z s' hz)

theorem along_map {γ : Type} (g : γ → α) (f : α → Prog ε σ β) (P : α → σ → Prop) (xs : List γ)
    (s : σ) : Along f P (xs.map g) s ↔ Along (fun x => f (g x)) (fun x => P (g x)) xs s := by
  induction xs generalizing s with
  | nil => rfl
  | cons x xs ih => simp only [List.map_cons, Along, ih]

namespace Safe

variable {F : ε → Prop} {c : Prog ε σ α} {s : σ}

theorem ret (a : α) : Safe F (pure a : Prog ε σ α) s := trivial

theorem modify (f : σ → σ) : Safe F (modify f : Prog ε σ PUnit) s := trivial

theorem iff_of_error {e : ε} {s' : σ} (h : c.on s = (.error e, s')) : Safe F c s ↔ F e := by
  rw [Safe, h]
  rfl

theorem iff_error : Safe F c s ↔ ∀ e, (c.on s).1 = .error e → F e := by
  rcases h : c.on s with ⟨e | a, s'⟩ <;> simp [Safe, h, Outcome]

theorem of_ok {a : α} {s' : σ} (h : c.on s = (.ok a, s')) : Safe F c s := by
  rw [Safe, h]
  trivial

theorem then_ok {a : α} {s' : σ} (h : c.on s = (.ok a, s')) {f : α → Prog ε σ β} :
    Safe F (c >>= f) s ↔ Safe F (f a) s' := by rw [Safe, on_bind_ok h f, Safe]

theorem bind_iff {f : α → Prog ε σ β} :
    Safe F (c >>= f) s ↔ Safe F c s ∧ ∀ a s', c.on s = (.ok a, s') → Safe F (f a) s' := by
  rcases h : c.on s with ⟨e | a, s'⟩
  · rw [iff_of_error (on_bind_error h f), iff_of_error h]
    exact (and_iff_left fun _ _ h' => by cases h').symm
  · rw [then_ok h]
    refine ⟨fun hf => ⟨of_ok h, fun b t h' => ?_⟩, fun hf => hf.2 a s' rfl⟩
    cases h'
    exact hf

theorem bind {f : α → Prog ε σ β} (hc : Safe F c s)
    (hf : ∀ a s', c.on s = (.ok a, s') → Safe F (f a) s') : Safe F (c >>= f) s :=
  bind_iff.mpr ⟨hc, hf⟩

/-- What follows a safe program is all that counts if the program always is safe. -/
theorem then_iff {f : α → Prog ε σ β} (hf : ∀ a s', Safe F (f a) s') :
    Safe F (c >>= f) s ↔ Safe F c s := by
  rw [bind_iff]
  exact and_iff_left fun a s' _ => hf a s'

theorem mapM_iff {f : α → Prog ε σ β} (xs : List α) (s : σ) :
    Safe F (xs.mapM f) s ↔ Along f (fun x => Safe F (f x)) xs s := by
  induction xs generalizing s with
  | nil => exact iff_of_true (ret _) trivial
  | cons x xs ih =>
    rw [List.mapM_cons, bind_iff]
    refine and_congr_right fun _ => forall_congr' fun y => forall_congr' fun s' => ?_
    rw [then_iff fun _ _ => ret _, ih]

theorem forM_iff {f : α → Prog ε σ PUnit} (xs : List α) (s : σ) :
    Safe F (xs.forM f) s ↔ Along f (fun x => Safe F (f x)) xs s := by
  induction xs generalizing s with
  | nil => exact iff_of_true (ret _) trivial
  | cons x xs ih =>
    rw [show (x :: xs).forM f = f x >>= fun _ => xs.forM f from rfl, bind_iff]
    exact and_congr_right fun _ => forall_congr' fun y => forall_congr' fun s' => by rw [ih]

theorem mapM {f : α → Prog ε σ β} {xs : List α} (h : ∀ x ∈ xs, ∀ s, Safe F (f x) s) (s : σ) :
    Safe F (xs.mapM f) s := (mapM_iff xs s).mpr (.of_forall h s)

theorem forM {f : α → Prog ε σ PUnit} {xs : List α} (h : ∀ x ∈ xs, ∀ s, Safe F (f x) s) (s : σ) :
    Safe F (xs.forM f) s := (forM_iff xs s).mpr (.of_forall h s)

end Safe

/-- `c` always returns. -/
def Total (c : Prog ε σ α) : Prop := ∀ s, Safe (fun _ => False) c s

namespace Total

variable {c : Prog ε σ α}

theorem on (hc : Total c) (s : σ) : ∃ a s', c.on s = (.ok a, s') := by
  have := hc s
  rcases h : c.on s with ⟨e | a, s'⟩
  · exact ((Safe.iff_of_error h).mp this).elim
  · exact ⟨a, s', rfl⟩

theorem ret (a : α) : Total (pure a : Prog ε σ α) := fun _ => .ret a

theorem modify (f : σ → σ) : Total (modify f : Prog ε σ PUnit) := fun _ => trivial

theorem bind {f : α → Prog ε σ β} (hc : Total c) (hf : ∀ a, Total (f a)) : Total (c >>= f) :=
  fun s => .bind (hc s) fun a s' _ => hf a s'

theorem forM {f : α → Prog ε σ PUnit} (h : ∀ x, Total (f x)) (xs : List α) : Total (xs.forM f) :=
  Safe.forM fun x _ => h x

end Total

/-! ## Returning exactly when -/

/-- From a state in `P`, `c` leaves a state in `I`, and what it returns is in `R`. If `q` holds, it
returns exactly if `p` does, and else fails with an `e` in `F`. -/
def Yields (P I : σ → Prop) (F : ε → Prop) (q p : Prop) (c : Prog ε σ α) (R : α → σ → Prop) : Prop :=
  Spec P c (fun a s => I s ∧ R a s ∧ (q → p)) fun e s => I s ∧ (q → ¬ p ∧ F e)

namespace Yields

variable {P P' I I' : σ → Prop} {F : ε → Prop} {p p' q q' : Prop} {c : Prog ε σ α}
  {R R' : α → σ → Prop} {S : β → σ → Prop} {f : α → Prog ε σ β}

theorem ret {a : α} (hp : q → p) (h : ∀ s, P s → I s ∧ R a s) :
    Yields P I F q p (pure a : Prog ε σ α) R := fun s hs => ⟨(h s hs).1, (h s hs).2, hp⟩

theorem keeps (h : Yields P I F q p c R) : Spec P c (fun _ => I) fun _ => I :=
  Spec.conseq h (fun _ hs => hs) (fun _ _ hr => hr.1) fun _ _ he => he.1

theorem congr {u v : Prop} (h : Yields P I F q p c R) (hq : u → q) (hp : u → (p ↔ v)) :
    Yields P I F u v c R :=
  Spec.conseq h (fun _ hs => hs)
    (fun _ _ hr => ⟨hr.1, hr.2.1, fun h => (hp h).mp (hr.2.2 (hq h))⟩)
    fun _ _ he => ⟨he.1, fun h => ⟨fun h' => (he.2 (hq h)).1 ((hp h).mpr h'), (he.2 (hq h)).2⟩⟩

/-- A part of the precondition that does not speak of the state. -/
theorem pull {r : Prop} (h : r → Yields P I F q p c R) : Yields (fun s => P s ∧ r) I F q p c R :=
  fun s hs => h hs.2 s hs.1

theorem conseq (h : Yields P I F q p c R) (hI : ∀ s, I s → I' s)
    (hR : ∀ a s, I s → R a s → R' a s) : Yields P I' F q p c R' :=
  Spec.conseq h (fun _ hs => hs) (fun a s hr => ⟨hI s hr.1, hR a s hr.1 hr.2.1, hr.2.2⟩)
    fun _ s he => ⟨hI s he.1, he.2⟩

theorem bind (hc : Yields P I F q p c R)
    (hf : (q → p) → ∀ a, Yields (fun s => I s ∧ R a s) I F q p' (f a) S) :
    Yields P I F q (p ∧ p') (c >>= f) S := by
  intro s hs
  have := hc s hs
  rcases h : c.on s with ⟨e | a, s'⟩ <;> rw [h] at this
  · rw [on_bind_error h]
    exact ⟨this.1, fun hq => ⟨fun hpq => (this.2 hq).1 hpq.1, (this.2 hq).2⟩⟩
  · obtain ⟨hI, hR, hp⟩ := this
    rw [on_bind_ok h]
    exact Spec.conseq (hf hp a) (fun _ h => h) (fun _ _ h => ⟨h.1, h.2.1, fun hq => ⟨hp hq, h.2.2 hq⟩⟩)
      (fun _ _ h => ⟨h.1, fun hq => ⟨fun hpq => (h.2 hq).1 hpq.2, (h.2 hq).2⟩⟩) s' ⟨hI, hR⟩

/-- What follows returns if nothing else than `q` keeps it from that. -/
theorem andThen (hc : Yields P I F q p c R)
    (hf : (q → p) → ∀ a, Yields (fun s => I s ∧ R a s) I F q True (f a) S) :
    Yields P I F q p (c >>= f) S :=
  (hc.bind hf).congr (fun h => h) fun _ => and_iff_left trivial

/-- What follows always returns. -/
theorem andReturn (hc : Yields P I F q p c R) (hf : ∀ a s, I s → R a s →
    ∃ b s', (f a).on s = (.ok b, s') ∧ I s' ∧ S b s') : Yields P I F q p (c >>= f) S := by
  refine hc.andThen fun _ a s ⟨hI, hR⟩ => ?_
  obtain ⟨b, s', hrun, hI', hS⟩ := hf a s hI hR
  rw [hrun]
  exact ⟨hI', hS, fun _ => trivial⟩

/-- A step that does not look at the state. -/
theorem lift {r : Except ε α} (hI : ∀ s, P s → I s) (h : q → ∃ a, r = .ok a) :
    Yields P I F q True (Prog.lift r) fun a s => r = .ok a ∧ P s := by
  intro s hs
  rcases r with e | a
  · refine ⟨hI s hs, fun hq => ?_⟩
    obtain ⟨a, ha⟩ := h hq
    cases ha
  · exact ⟨hI s hs, ⟨rfl, hs⟩, fun _ => trivial⟩

/-- The program that follows a look at the state. -/
theorem get {g : σ → Prog ε σ β} (h : ∀ s, P s → Yields (fun s' => s' = s) I F q p (g s) S) :
    Yields P I F q p ((get : Prog ε σ σ) >>= g) S := fun s hs => h s hs s rfl

/-- A part of the state that the program on another part leaves alone. -/
theorem zoom {P' I' : τ → Prop} {get : σ → τ} {set : τ → σ → σ} {d : Prog ε τ α}
    {S : α → τ → Prop} {J : σ → Prop} (hd : Yields P' I' F q p d S)
    (hget : ∀ t s, get (set t s) = t) (hJ : ∀ t s, J s → J (set t s)) :
    Yields (fun s => P' (get s) ∧ J s) (fun s => I' (get s) ∧ J s) F q p (Prog.zoom get set d)
      fun a s => S a (get s) := by
  intro s ⟨hs, hj⟩
  have := hd (get s) hs
  rcases h : d.on (get s) with ⟨e | a, t⟩ <;> rw [h] at this <;> rw [on_zoom h]
  · refine ⟨⟨?_, hJ t s hj⟩, this.2⟩
    rw [hget]
    exact this.1
  · refine ⟨⟨?_, hJ t s hj⟩, ?_, this.2.2⟩ <;> simp only [hget]
    · exact this.1
    · exact this.2.1

/-- A list mapped item by item returns if every item does. -/
theorem mapM {p : α → Prop} {f : α → Prog ε σ β} {S : α → β → Prop} (xs : List α)
    (hf : ∀ x ∈ xs, Yields I I F q (p x) (f x) fun y _ => S x y) :
    Yields I I F q (∀ x ∈ xs, p x) (xs.mapM f) fun ys _ => List.Forall₂ S xs ys := by
  induction xs with
  | nil => exact ret (by simp) fun s hs => ⟨hs, .nil⟩
  | cons x xs ih =>
    rw [List.mapM_cons]
    have ih := ih fun y hy => hf y (by simp [hy])
    refine ((hf x (by simp)).bind fun _ y => pull fun hy => ?_).congr (fun h => h)
      fun _ => List.forall_mem_cons.symm
    exact ih.andReturn fun ys s hs hys => ⟨y :: ys, s, rfl, hs, .cons hy hys⟩

end Yields

end Prog
