import Mathlib.Init

/-!
# Memories of a fixed size

* `poke`, `peek`: writing and reading some cells after each other.
* `peek_poke`: what was written is read.
* `peek_poke_of_disjoint`: elsewhere a write changes nothing.
-/

namespace Memory

variable {α : Type} {n : Nat}

/-- The memory with `xs` written from the cell `p` on, as far as there are cells. -/
def poke (m : Vector α n) (p : Nat) : List α → Vector α n
  | [] => m
  | x :: xs => poke (m.setIfInBounds p x) (p + 1) xs

/-- The `k` cells from `p` on, `d` where there are none. -/
def peek (d : α) (m : Vector α n) (p k : Nat) : List α := (List.range' p k).map fun i => m[i]?.getD d

variable {d : α} {m : Vector α n} {p q k : Nat} {xs : List α}

@[simp] theorem length_peek : (peek d m p k).length = k := by
  simp [peek]

theorem getElem?_peek {i : Nat} (h : i < k) : (peek d m p k)[i]? = some (m[p + i]?.getD d) := by
  simp [peek, h]

theorem getElem?_poke (i : Nat) (hi : i < n) :
    (poke m p xs)[i]? = if p ≤ i ∧ i < p + xs.length then xs[i - p]? else m[i]? := by
  induction xs generalizing m p with
  | nil =>
    have : ¬ (p ≤ i ∧ i < p + ([] : List α).length) := by
      rw [List.length_nil]
      omega
    rw [poke, if_neg this]
  | cons x xs ih =>
    rw [poke, ih, List.length_cons, Vector.getElem?_setIfInBounds]
    by_cases hp : p = i
    · subst hp
      have : ¬ (p + 1 ≤ p ∧ p < p + 1 + xs.length) := by omega
      rw [if_neg this, if_pos rfl, if_pos hi, if_pos (by omega), Nat.sub_self]
      rfl
    · rw [if_neg hp]
      by_cases hlt : p + 1 ≤ i ∧ i < p + 1 + xs.length
      · have hsub : i - p = i - (p + 1) + 1 := by omega
        rw [if_pos hlt, if_pos (by omega), hsub]
        rfl
      · rw [if_neg hlt, if_neg (by omega)]

theorem peek_poke (h : p + xs.length ≤ n) : peek d (poke m p xs) p xs.length = xs := by
  refine List.ext_getElem? fun i => ?_
  by_cases hi : i < xs.length
  · rw [getElem?_peek hi, getElem?_poke _ (by omega), if_pos (by omega), Nat.add_sub_cancel_left,
      List.getElem?_eq_getElem hi]
    rfl
  · rw [List.getElem?_eq_none (by simpa using hi), List.getElem?_eq_none (by omega)]

/-- Cells that are not written. -/
theorem peek_poke_of_disjoint (h : q + k ≤ p ∨ p + xs.length ≤ q) :
    peek d (poke m p xs) q k = peek d m q k := by
  refine List.map_congr_left fun i hi => ?_
  rw [List.mem_range'_1] at hi
  by_cases hn : i < n
  · rw [getElem?_poke _ hn, if_neg (by omega)]
  · rw [Vector.getElem?_eq_none (by omega), Vector.getElem?_eq_none (by omega)]

end Memory
