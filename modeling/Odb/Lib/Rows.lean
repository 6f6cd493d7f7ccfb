import Mathlib.Data.List.Basic

/-!
# A text in rows

A text is shown in rows: its lines are divided by a separator, and cut where they are too wide.

* `pieces n l`: a line in pieces of width `n`; the last may be narrower, and an empty line is one
  piece.
* `rows n sep t`: the pieces of all lines.
* `rows_line`, `rows_sep`, `rows_cut`: the rows of a text from its first row on.
-/

namespace Rows

variable {α : Type}

def pieces (n : Nat) (l : List α) : List (List α) :=
  if _ : l.length ≤ n ∨ n = 0 then [l] else l.take n :: pieces n (l.drop n)
termination_by l.length
decreasing_by
  rw [List.length_drop]
  omega

def rows [DecidableEq α] (n : Nat) (sep : α) (t : List α) : List (List α) :=
  (t.splitOn sep).flatMap (pieces n)

variable {n : Nat} {l t : List α}

theorem pieces_of_le (h : l.length ≤ n) : pieces n l = [l] := by
  rw [pieces, dif_pos (.inl h)]

theorem pieces_append (hn : 0 < n) (hl : l.length = n) (ht : t ≠ []) :
    pieces n (l ++ t) = l :: pieces n t := by
  have hlt : 0 < t.length := List.length_pos_iff.mpr ht
  rw [pieces, dif_neg, ← hl, List.take_left, List.drop_left]
  rw [List.length_append]
  omega

section Rows

variable [DecidableEq α] {sep c : α}

theorem splitOn_append (hl : sep ∉ l) :
    (l ++ t).splitOn sep = (t.splitOn sep).modifyHead (l ++ ·) := by
  induction l with
  | nil =>
    show t.splitOn sep = _
    cases t.splitOn sep <;> rfl
  | cons x l ih =>
    rw [List.mem_cons, not_or] at hl
    obtain ⟨hx, hl⟩ := hl
    rw [List.cons_append, List.splitOn_cons_eq_if_modifyHead, if_neg (by simpa using Ne.symm hx),
      ih hl]
    cases h : t.splitOn sep <;> rfl

theorem rows_line (hl : sep ∉ l) (hn : l.length ≤ n) : rows n sep l = [l] := by
  rw [rows, List.splitOn_eq_singleton hl, List.flatMap_singleton, pieces_of_le hn]

theorem rows_sep (hl : sep ∉ l) (hn : l.length ≤ n) :
    rows n sep (l ++ sep :: t) = l :: rows n sep t := by
  rw [rows, List.splitOn_append_cons_of_beq _ _ (by simp), List.splitOn_eq_singleton hl,
    List.singleton_append, List.flatMap_cons, pieces_of_le hn]
  rfl

/-- A full row, and more of its line. -/
theorem rows_cut (hn : 0 < n) (hl : sep ∉ l) (hfull : l.length = n) (hc : c ≠ sep) :
    rows n sep (l ++ c :: t) = l :: rows n sep (c :: t) := by
  unfold rows
  rw [splitOn_append hl]
  cases hs : (c :: t).splitOn sep with
  | nil => exact absurd hs (List.splitOn_ne_nil _ _)
  | cons q qs =>
    have hq : q ≠ [] := by
      rintro rfl
      rw [List.splitOn_cons_eq_if_modifyHead, if_neg (by simpa using hc)] at hs
      cases ht : t.splitOn sep <;> rw [ht] at hs <;> cases hs
    rw [List.modifyHead_cons, List.flatMap_cons, List.flatMap_cons, pieces_append hn hfull hq]
    rfl

end Rows

end Rows
