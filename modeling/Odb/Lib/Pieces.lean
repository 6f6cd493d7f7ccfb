import Mathlib.Order.Lattice
import Mathlib.Data.List.Basic

/-!
# Piecewise constant maps

A list of pieces, each a first key and a value, stands for the map that gives a key the value of
the last piece that begins at or before it (`valueAt`). Everything here is over any linear order
of keys.

* `valueAt_split`, `valueAt_fill`, `valueAt_coalesce`: what the map becomes when a piece is cut in
  two, when a stretch of pieces takes one value, and when equal neighbours are merged.
* `Canonical`: first keys increase and neighbours differ, so that the pieces are the maximal runs
  of equal value. A canonical list is the only one of its map (`Canonical.unique`).
-/

namespace Pieces

/-- The keys from `begKey` to the next piece have the value `val`. -/
structure Piece (K α : Type) where
  begKey : K
  val : α
deriving DecidableEq, Repr

variable {K α : Type}

/-- The piece with the value `v` instead of its own. -/
def Piece.withVal (v : α) (p : Piece K α) : Piece K α := { p with val := v }

@[simp] theorem Piece.withVal_begKey (v : α) (p : Piece K α) : (p.withVal v).begKey = p.begKey := rfl

@[simp] theorem Piece.withVal_val (v : α) (p : Piece K α) : (p.withVal v).val = v := rfl

section Merge

variable [DecidableEq α]

/-- Drop every piece whose value is that of the piece kept before it (`cur` is the last kept). -/
def coalesceFrom (cur : Piece K α) : List (Piece K α) → List (Piece K α)
  | [] => [cur]
  | p :: ps => if cur.val = p.val then coalesceFrom cur ps else cur :: coalesceFrom p ps

/-- Merge neighbours with equal values. -/
def coalesce : List (Piece K α) → List (Piece K α)
  | [] => []
  | p :: ps => coalesceFrom p ps

theorem coalesceFrom_head (cur : Piece K α) (ps : List (Piece K α)) :
    ∃ qs, coalesceFrom cur ps = cur :: qs := by
  induction ps with
  | nil => exact ⟨[], rfl⟩
  | cons p ps ih =>
    rw [coalesceFrom]
    split
    · exact ih
    · exact ⟨_, rfl⟩

theorem coalesceFrom_sublist (cur : Piece K α) (ps : List (Piece K α)) :
    (coalesceFrom cur ps).Sublist (cur :: ps) := by
  induction ps generalizing cur with
  | nil => exact List.Sublist.refl _
  | cons p ps ih =>
    rw [coalesceFrom]
    split
    · exact (ih cur).trans ((List.sublist_cons_self p ps).cons_cons cur)
    · exact (ih p).cons_cons cur

/-- After the merge, neighbours differ. -/
theorem coalesceFrom_chain (cur : Piece K α) (ps : List (Piece K α)) :
    (coalesceFrom cur ps).IsChain fun p q => p.val ≠ q.val := by
  induction ps generalizing cur with
  | nil => exact .singleton _
  | cons p ps ih =>
    rw [coalesceFrom]
    split
    · exact ih cur
    · rename_i hne
      obtain ⟨qs, hqs⟩ := coalesceFrom_head p ps
      have := ih p
      rw [hqs] at this ⊢
      exact List.isChain_cons_cons.mpr ⟨hne, this⟩

theorem coalesce_sublist (ps : List (Piece K α)) : (coalesce ps).Sublist ps := by
  cases ps with
  | nil => exact List.Sublist.refl _
  | cons p ps => exact coalesceFrom_sublist p ps

theorem coalesce_head? (ps : List (Piece K α)) : (coalesce ps).head? = ps.head? := by
  cases ps with
  | nil => rfl
  | cons p ps =>
    obtain ⟨qs, hqs⟩ := coalesceFrom_head p ps
    simp [coalesce, hqs]

end Merge

variable [LinearOrder K]

/-- The value of the last piece that begins at or before `k`. -/
def valueAt : List (Piece K α) → K → Option α
  | [], _ => none
  | p :: ps, k => (valueAt ps k).or (if p.begKey ≤ k then some p.val else none)

/-- First keys strictly increase. -/
def Sorted (ps : List (Piece K α)) : Prop := ps.Pairwise fun p q => p.begKey < q.begKey

@[simp] theorem valueAt_nil (k : K) : valueAt ([] : List (Piece K α)) k = none := rfl

theorem valueAt_cons (p : Piece K α) (ps : List (Piece K α)) (k : K) :
    valueAt (p :: ps) k = (valueAt ps k).or (if p.begKey ≤ k then some p.val else none) := rfl

theorem valueAt_append (ps qs : List (Piece K α)) (k : K) :
    valueAt (ps ++ qs) k = (valueAt qs k).or (valueAt ps k) := by
  induction ps with
  | nil => simp
  | cons p ps ih => simp only [List.cons_append, valueAt_cons, ih, Option.or_assoc]

/-- A key below every piece has no value. -/
theorem valueAt_eq_none {ps : List (Piece K α)} {k : K} (h : ∀ p ∈ ps, k < p.begKey) :
    valueAt ps k = none := by
  induction ps with
  | nil => rfl
  | cons p ps ih =>
    rw [valueAt_cons, ih fun q hq => h q (List.mem_cons_of_mem _ hq),
      if_neg (not_le_of_gt (h p List.mem_cons_self))]
    rfl

/-- A key at or after some piece has a value. -/
theorem valueAt_isSome {ps : List (Piece K α)} {p : Piece K α} {k : K} (hp : p ∈ ps)
    (h : p.begKey ≤ k) : (valueAt ps k).isSome := by
  induction ps with
  | nil => cases hp
  | cons q ps ih =>
    rw [valueAt_cons]
    rcases List.mem_cons.mp hp with rfl | hp
    · simp [h]
    · simp [ih hp]

/-- A key with a value is at or after some piece. -/
theorem exists_of_valueAt {ps : List (Piece K α)} {k : K} {v : α} (h : valueAt ps k = some v) :
    ∃ p ∈ ps, p.begKey ≤ k := by
  by_contra hn
  rw [valueAt_eq_none fun p hp => lt_of_not_ge fun hk => hn ⟨p, hp, hk⟩] at h
  cases h

/-- The key lies in the piece `p`: at or after it, and before every later one. -/
theorem valueAt_mid {ps qs : List (Piece K α)} {p : Piece K α} {k : K} (hp : p.begKey ≤ k)
    (hq : ∀ q ∈ qs, k < q.begKey) : valueAt (ps ++ p :: qs) k = some p.val := by
  rw [valueAt_append, valueAt_cons, valueAt_eq_none hq, if_pos hp]
  rfl

theorem Sorted.of_append {ps qs : List (Piece K α)} (h : Sorted (ps ++ qs)) :
    Sorted ps ∧ Sorted qs ∧ ∀ p ∈ ps, ∀ q ∈ qs, p.begKey < q.begKey :=
  List.pairwise_append.mp h

theorem sorted_append {ps qs : List (Piece K α)} (hp : Sorted ps) (hq : Sorted qs)
    (h : ∀ p ∈ ps, ∀ q ∈ qs, p.begKey < q.begKey) : Sorted (ps ++ qs) :=
  List.pairwise_append.mpr ⟨hp, hq, h⟩

theorem sorted_cons {p : Piece K α} {ps : List (Piece K α)} :
    Sorted (p :: ps) ↔ (∀ q ∈ ps, p.begKey < q.begKey) ∧ Sorted ps := List.pairwise_cons

/-! ## Cutting, filling and merging -/

/-- Cutting the piece that holds `c` at `c` changes no value. -/
theorem valueAt_split (ps qs : List (Piece K α)) {p : Piece K α} {c : K} (h : p.begKey ≤ c)
    (k : K) : valueAt (ps ++ p :: ⟨c, p.val⟩ :: qs) k = valueAt (ps ++ p :: qs) k := by
  simp only [valueAt_append, valueAt_cons, Option.or_assoc]
  by_cases hc : c ≤ k
  · simp [hc, le_trans h hc]
  · simp [hc]

theorem sorted_split {ps qs : List (Piece K α)} {p : Piece K α} {c : K} {v : α}
    (h : Sorted (ps ++ p :: qs)) (hp : p.begKey < c) (hq : ∀ q ∈ qs, c < q.begKey) :
    Sorted (ps ++ p :: ⟨c, v⟩ :: qs) := by
  obtain ⟨h1, h2, h3⟩ := h.of_append
  obtain ⟨h4, h5⟩ := sorted_cons.mp h2
  refine sorted_append h1 (sorted_cons.mpr ⟨?_, sorted_cons.mpr ⟨hq, h5⟩⟩) ?_
  · intro q hm
    rcases List.mem_cons.mp hm with rfl | hm
    · exact hp
    · exact h4 q hm
  · intro a ha q hm
    have hap := h3 a ha p List.mem_cons_self
    rcases List.mem_cons.mp hm with rfl | hm
    · exact hap
    rcases List.mem_cons.mp hm with rfl | hm
    · exact lt_trans hap hp
    · exact h3 a ha q (List.mem_cons_of_mem _ hm)

/-- All pieces of the list take the value `v`. -/
theorem valueAt_withVal (ps : List (Piece K α)) (v : α) (k : K) :
    valueAt (ps.map (Piece.withVal v)) k = (valueAt ps k).map fun _ => v := by
  induction ps with
  | nil => rfl
  | cons p ps ih =>
    simp only [List.map_cons, valueAt_cons, ih, Piece.withVal_begKey, Piece.withVal_val]
    cases valueAt ps k <;> by_cases h : p.begKey ≤ k <;> simp [h]

/-- Filling the pieces `p :: mid` with `v` changes the keys from `p.begKey` up to the first key of
the pieces after them, and no others. -/
theorem valueAt_fill {ps mid qs : List (Piece K α)} {p : Piece K α} (v : α)
    (h : Sorted (ps ++ (p :: mid ++ qs))) (k : K) :
    valueAt (ps ++ ((p :: mid).map (Piece.withVal v) ++ qs)) k =
      if p.begKey ≤ k ∧ (∀ q ∈ qs, k < q.begKey) then some v
      else valueAt (ps ++ (p :: mid ++ qs)) k := by
  obtain ⟨-, h2, -⟩ := h.of_append
  obtain ⟨h3, h4, h5⟩ := h2.of_append
  rw [valueAt_append, valueAt_append, valueAt_append, valueAt_append, valueAt_withVal]
  by_cases hq : ∀ q ∈ qs, k < q.begKey
  · rw [valueAt_eq_none hq]
    by_cases hp : p.begKey ≤ k
    · obtain ⟨x, hx⟩ := Option.isSome_iff_exists.mp
        (valueAt_isSome (show p ∈ p :: mid from List.mem_cons_self) hp)
      simp [hp, hx, if_pos hq]
    · have hn : valueAt (p :: mid) k = none := valueAt_eq_none fun q hm => by
        rcases List.mem_cons.mp hm with rfl | hm
        · exact lt_of_not_ge hp
        · exact lt_trans (lt_of_not_ge hp) ((sorted_cons.mp h3).1 q hm)
      simp [hp, hn]
  · -- A later piece begins at or before `k`, so both sides read it.
    rw [if_neg fun h' => hq h'.2]
    simp only [not_forall, not_lt] at hq
    obtain ⟨q, hm, hk⟩ := hq
    obtain ⟨x, hx⟩ := Option.isSome_iff_exists.mp (valueAt_isSome hm hk)
    simp [hx]

section Coalesce

variable [DecidableEq α]

theorem valueAt_coalesceFrom (cur : Piece K α) (ps : List (Piece K α)) (h : Sorted (cur :: ps))
    (k : K) : valueAt (coalesceFrom cur ps) k = valueAt (cur :: ps) k := by
  induction ps generalizing cur with
  | nil => rfl
  | cons p ps ih =>
    obtain ⟨h1, h2⟩ := sorted_cons.mp h
    have hcp := h1 p List.mem_cons_self
    have hs : Sorted (cur :: ps) := sorted_cons.mpr
      ⟨fun q hq => h1 q (List.mem_cons_of_mem _ hq), (sorted_cons.mp h2).2⟩
    rw [coalesceFrom]
    split
    · -- `p` repeats the value of `cur`: it reads the same without it.
      rename_i he
      rw [ih cur hs]
      simp only [valueAt_cons, Option.or_assoc]
      by_cases hk : p.begKey ≤ k
      · simp [hk, le_trans (le_of_lt hcp) hk, he]
      · simp [hk]
    · rw [valueAt_cons, ih p h2, valueAt_cons cur]

theorem valueAt_coalesce {ps : List (Piece K α)} (h : Sorted ps) (k : K) :
    valueAt (coalesce ps) k = valueAt ps k := by
  cases ps with
  | nil => rfl
  | cons p ps => exact valueAt_coalesceFrom p ps h k

end Coalesce

/-! ## Canonical lists -/

/-- First keys increase and neighbours have different values. -/
structure Canonical (ps : List (Piece K α)) : Prop where
  sorted : Sorted ps
  differ : ps.IsChain fun p q => p.val ≠ q.val

theorem canonical_coalesce [DecidableEq α] {ps : List (Piece K α)} (h : Sorted ps) :
    Canonical (coalesce ps) := by
  refine ⟨List.Pairwise.sublist (coalesce_sublist ps) h, ?_⟩
  cases ps with
  | nil => exact .nil
  | cons p ps => exact coalesceFrom_chain p ps

theorem Canonical.tail {p : Piece K α} {ps : List (Piece K α)} (h : Canonical (p :: ps)) :
    Canonical ps :=
  ⟨(sorted_cons.mp h.sorted).2, by
    cases ps with
    | nil => exact .nil
    | cons q ps => exact (List.isChain_cons_cons.mp h.differ).2⟩

theorem Canonical.right {ps qs : List (Piece K α)} (h : Canonical (ps ++ qs)) : Canonical qs := by
  induction ps with
  | nil => exact h
  | cons p ps ih => exact ih h.tail

/-- Neighbours differ. -/
theorem Canonical.ne {ps qs : List (Piece K α)} {p q : Piece K α}
    (h : Canonical (ps ++ p :: q :: qs)) : p.val ≠ q.val :=
  (List.isChain_cons_cons.mp h.right.differ).1

/-- The value at the first key. -/
theorem valueAt_head {p : Piece K α} {ps : List (Piece K α)} (h : Sorted (p :: ps)) :
    valueAt (p :: ps) p.begKey = some p.val := by
  rw [valueAt_cons, valueAt_eq_none (sorted_cons.mp h).1, if_pos (le_refl _)]
  rfl

/-- The tail of a canonical list has the value of the whole list, from the first key that differs
from the head on. -/
private theorem tail_head_le {p q r : Piece K α} {ps qs : List (Piece K α)}
    (hp : Canonical (p :: r :: ps)) (hv : p.val = q.val)
    (h : valueAt (p :: r :: ps) r.begKey = valueAt (q :: qs) r.begKey) :
    ∃ s ∈ qs, s.begKey ≤ r.begKey := by
  have hr : valueAt (p :: r :: ps) r.begKey = some r.val := by
    rw [valueAt_cons, valueAt_head hp.tail.sorted]
    rfl
  rw [hr, valueAt_cons] at h
  cases hq : valueAt qs r.begKey with
  | some x => exact exists_of_valueAt hq
  | none =>
    -- The head alone would give `r`'s key the value of `p`.
    rw [hq] at h
    have hne := (List.isChain_cons_cons.mp hp.differ).1
    split at h
    · exact absurd (hv.trans (Option.some.inj h).symm) hne
    · cases h

/-- Two canonical lists that agree at each other's first keys are equal. -/
theorem Canonical.unique {ps qs : List (Piece K α)} (hp : Canonical ps) (hq : Canonical qs)
    (h1 : ∀ p ∈ ps, valueAt ps p.begKey = valueAt qs p.begKey)
    (h2 : ∀ q ∈ qs, valueAt ps q.begKey = valueAt qs q.begKey) : ps = qs := by
  induction ps generalizing qs with
  | nil =>
    cases qs with
    | nil => rfl
    | cons q qs =>
      have := h2 q List.mem_cons_self
      rw [valueAt_head hq.sorted] at this
      cases this
  | cons p ps ih =>
    cases qs with
    | nil =>
      have := h1 p List.mem_cons_self
      rw [valueAt_head hp.sorted] at this
      cases this
    | cons q qs =>
      have e1 := h1 p List.mem_cons_self
      have e2 := h2 q List.mem_cons_self
      rw [valueAt_head hp.sorted] at e1
      rw [valueAt_head hq.sorted] at e2
      -- Both lists begin at the same key: each has a value at the other's first key.
      have hle : ∀ {a b : Piece K α} {as : List (Piece K α)} {v : α}, Sorted (a :: as) →
          valueAt (a :: as) b.begKey = some v → a.begKey ≤ b.begKey := by
        intro a b as v hs hv
        obtain ⟨c, hc, hcb⟩ := exists_of_valueAt hv
        rcases List.mem_cons.mp hc with rfl | hc
        · exact hcb
        · exact le_trans (le_of_lt ((sorted_cons.mp hs).1 c hc)) hcb
      have hkey : p.begKey = q.begKey := le_antisymm (hle hp.sorted e2) (hle hq.sorted e1.symm)
      have hval : p.val = q.val := by
        rw [hkey, valueAt_head hq.sorted] at e1
        exact Option.some.inj e1
      have hpq : p = q := by cases p; cases q; simp_all
      subst hpq
      congr 1
      refine ih hp.tail hq.tail (fun a ha => ?_) fun a ha => ?_
      · have ha' := h1 a (List.mem_cons_of_mem _ ha)
        obtain ⟨x, hx⟩ := Option.isSome_iff_exists.mp (valueAt_isSome ha (le_refl a.begKey))
        obtain ⟨s, hs, hsa⟩ : ∃ s ∈ qs, s.begKey ≤ a.begKey := by
          cases ps with
          | nil => cases ha
          | cons r ps =>
            obtain ⟨s, hs, hsr⟩ := tail_head_le hp rfl (h1 r (by simp))
            refine ⟨s, hs, le_trans hsr ?_⟩
            rcases List.mem_cons.mp ha with rfl | ha
            · exact le_refl _
            · exact le_of_lt ((sorted_cons.mp hp.tail.sorted).1 a ha)
        obtain ⟨y, hy⟩ := Option.isSome_iff_exists.mp (valueAt_isSome hs hsa)
        simpa [valueAt_cons, hx, hy] using ha'
      · have ha' := h2 a (List.mem_cons_of_mem _ ha)
        obtain ⟨x, hx⟩ := Option.isSome_iff_exists.mp (valueAt_isSome ha (le_refl a.begKey))
        obtain ⟨s, hs, hsa⟩ : ∃ s ∈ ps, s.begKey ≤ a.begKey := by
          cases qs with
          | nil => cases ha
          | cons r qs =>
            obtain ⟨s, hs, hsr⟩ := tail_head_le hq rfl (h2 r (by simp)).symm
            refine ⟨s, hs, le_trans hsr ?_⟩
            rcases List.mem_cons.mp ha with rfl | ha
            · exact le_refl _
            · exact le_of_lt ((sorted_cons.mp hq.tail.sorted).1 a ha)
        obtain ⟨y, hy⟩ := Option.isSome_iff_exists.mp (valueAt_isSome hs hsa)
        simpa [valueAt_cons, hx, hy] using ha'

end Pieces
