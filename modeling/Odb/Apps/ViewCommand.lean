import Odb.Fault
import Odb.Lib.Rows

/-!
# The panels of the terminal client (`apps/odb-cli/view-command.cc`)

A panel shows text in a region of the terminal. Panels with `shift_lines` go on at their lower end, the
others stop there.

* `Bounded`: the panel stays in its region.
* `write_flatten`: on a panel that shifts, writing twice is writing both at once.
* `shows`: which rows of the text the panel shows.
-/

namespace Odb

structure ViewCommand where
  row0 : Nat
  col0 : Nat
  nrows : Nat
  ncols : Nat
  shiftLines : Bool
  /-- The lines but for the last. -/
  above : List Bytes
  last : Bytes

namespace ViewCommand

/-- `_lines`, which is never empty. -/
def lines (v : ViewCommand) : List Bytes := v.above ++ [v.last]

def clear (v : ViewCommand) : ViewCommand := { v with above := [], last := [] }

def new (row0 col0 height width : Nat) (shiftLines : Bool) : ViewCommand :=
  ⟨row0, col0, height, width, shiftLines, [], []⟩

/-- `isprint(c)` in the locale `C`. -/
def isprint (c : UInt8) : Bool := 32 ≤ c ∧ c < 127

/-- The text without the special characters. -/
def visible (str : Bytes) : Bytes := str.flatMap fun c =>
  if isprint c ∨ c = 10 ∨ c = 32 then [c] else if c = 9 then lit "    " else []

/-- `_lines.push_back({})`, and the first line goes if there is no row left for it. -/
def newLine (v : ViewCommand) : ViewCommand :=
  { v with
    above := if v.nrows < v.lines.length + 1 then v.lines.drop 1 else v.lines
    last := [] }

def put (c : UInt8) (v : ViewCommand) : ViewCommand :=
  if c = 10 then v else { v with last := v.last ++ [c] }

/-- The loop of `write`. -/
def writeChars : Bytes → ViewCommand → ViewCommand
  | [], v => v
  | c :: rstr, v =>
    if v.last.length = v.ncols ∨ c = 10 then
      if v.lines.length = v.nrows ∧ v.shiftLines = false then v
      else writeChars rstr (put c v.newLine)
    else writeChars rstr (put c v)

/-- `write(str)`. -/
def write (str : Bytes) (v : ViewCommand) : ViewCommand := writeChars (visible str) v

variable {v : ViewCommand} {s t : Bytes} {all : List Bytes}

/-! ## What a panel does not change -/

/-- The members that are set once. -/
def frame (v : ViewCommand) : Nat × Nat × Nat × Nat × Bool :=
  (v.row0, v.col0, v.nrows, v.ncols, v.shiftLines)

theorem frame_put (c : UInt8) (v : ViewCommand) : (put c v).frame = v.frame := by
  unfold put
  split <;> rfl

theorem nrows_put (c : UInt8) (v : ViewCommand) : (put c v).nrows = v.nrows :=
  congrArg (·.2.2.1) (frame_put c v)

theorem ncols_put (c : UInt8) (v : ViewCommand) : (put c v).ncols = v.ncols :=
  congrArg (·.2.2.2.1) (frame_put c v)

theorem shiftLines_put (c : UInt8) (v : ViewCommand) : (put c v).shiftLines = v.shiftLines :=
  congrArg (·.2.2.2.2) (frame_put c v)

theorem above_put (c : UInt8) (v : ViewCommand) : (put c v).above = v.above := by
  unfold put
  split <;> rfl

theorem frame_writeChars (s : Bytes) (v : ViewCommand) : (writeChars s v).frame = v.frame := by
  induction s generalizing v with
  | nil => rfl
  | cons c s ih =>
    unfold writeChars
    split
    · split
      · rfl
      · exact (ih _).trans (frame_put c v.newLine)
    · exact (ih _).trans (frame_put c v)

theorem shiftLines_writeChars (s : Bytes) (v : ViewCommand) :
    (writeChars s v).shiftLines = v.shiftLines :=
  congrArg (·.2.2.2.2) (frame_writeChars s v)

/-! ## Writing again -/

theorem visible_append (s t : Bytes) : visible (s ++ t) = visible s ++ visible t :=
  List.flatMap_append

theorem writeChars_append (hs : v.shiftLines = true) (s t : Bytes) :
    writeChars (s ++ t) v = writeChars t (writeChars s v) := by
  induction s generalizing v with
  | nil => rfl
  | cons c s ih =>
    rw [List.cons_append, writeChars, writeChars]
    split
    · rw [if_neg (by simp [hs]), if_neg (by simp [hs])]
      exact ih ((shiftLines_put c v.newLine).trans hs)
    · exact ih ((shiftLines_put c v).trans hs)

/-- A panel that shifts shows what it would if everything had been written at once. -/
theorem write_flatten (hs : v.shiftLines = true) (strs : List Bytes) :
    strs.foldl (fun v str => v.write str) v = v.write strs.flatten := by
  induction strs generalizing v with
  | nil => rfl
  | cons str strs ih =>
    refine (ih ((shiftLines_writeChars (visible str) v).trans hs)).trans ?_
    unfold write
    rw [List.flatten_cons, visible_append, writeChars_append hs]

/-! ## The region -/

/-- The panel stays in its region. -/
structure Bounded (v : ViewCommand) : Prop where
  height : v.lines.length ≤ max 1 v.nrows
  width : ∀ line ∈ v.lines, line.length ≤ v.ncols

theorem Bounded.newLine (h : v.Bounded) : v.newLine.Bounded := by
  have hlines : v.newLine.lines =
      (if v.nrows < v.lines.length + 1 then v.lines.drop 1 else v.lines) ++ [[]] := rfl
  have hheight := h.height
  constructor
  · rw [hlines, List.length_append, List.length_singleton]
    show _ ≤ max 1 v.nrows
    split
    · rw [List.length_drop]
      omega
    · omega
  · rw [hlines, List.forall_mem_append, List.forall_mem_singleton]
    refine ⟨fun line hline => h.width line ?_, Nat.zero_le _⟩
    split at hline
    · exact List.mem_of_mem_drop hline
    · exact hline

theorem Bounded.put (h : v.Bounded) {c : UInt8} (hc : c = 10 ∨ v.last.length < v.ncols) :
    (put c v).Bounded := by
  unfold ViewCommand.put
  split
  · exact h
  · next hne =>
    obtain ⟨hheight, hwidth⟩ := h
    unfold lines at hheight hwidth
    rw [List.forall_mem_append] at hwidth
    refine ⟨by simpa [lines] using hheight, ?_⟩
    unfold lines
    rw [List.forall_mem_append, List.forall_mem_singleton, List.length_append, List.length_singleton]
    exact ⟨hwidth.1, hc.resolve_left hne⟩

theorem Bounded.writeChars (h : v.Bounded) (hw : 0 < v.ncols) (s : Bytes) :
    (writeChars s v).Bounded := by
  induction s generalizing v with
  | nil => exact h
  | cons c s ih =>
    rw [ViewCommand.writeChars]
    split
    · split
      · exact h
      · exact ih (h.newLine.put (.inr hw)) (by rw [ncols_put]; exact hw)
    · next hgo =>
      rw [not_or] at hgo
      have hlast : v.last.length ≤ v.ncols := h.width v.last (by simp [lines])
      exact ih (h.put (.inr (Nat.lt_of_le_of_ne hlast hgo.1))) (by rw [ncols_put]; exact hw)

theorem Bounded.writes (h : v.Bounded) (hw : 0 < v.ncols) (strs : List Bytes) :
    (strs.foldl (fun v str => v.write str) v).Bounded := by
  induction strs generalizing v with
  | nil => exact h
  | cons str strs ih =>
    have hncols : (v.write str).ncols = v.ncols :=
      congrArg (·.2.2.2.1) (frame_writeChars (visible str) v)
    exact ih (h.writeChars hw (visible str)) (by rw [hncols]; exact hw)

/-! ## Rows -/

/-- The last line can be written to. -/
structure Fits (v : ViewCommand) : Prop where
  ncols : 0 < v.ncols
  width : v.last.length ≤ v.ncols
  line : 10 ∉ v.last

theorem Fits.newLine (h : v.Fits) : v.newLine.Fits := ⟨h.ncols, Nat.zero_le _, List.not_mem_nil⟩

theorem Fits.put (h : v.Fits) {c : UInt8} (hc : c = 10 ∨ v.last.length < v.ncols) :
    (put c v).Fits := by
  unfold ViewCommand.put
  split
  · exact h
  · next hne =>
    refine ⟨h.ncols, ?_, ?_⟩
    · rw [List.length_append, List.length_singleton]
      exact hc.resolve_left hne
    · rw [List.mem_append, List.mem_singleton, not_or]
      exact ⟨h.line, Ne.symm hne⟩

/-- The rows that follow the ones above the last line, the text being written. -/
def rest (v : ViewCommand) (s : Bytes) : List Bytes := Rows.rows v.ncols 10 (v.last ++ s)

theorem rest_break (h : v.Fits) {c : UInt8} (hc : v.last.length = v.ncols ∨ c = 10) (s : Bytes) :
    v.rest (c :: s) = v.last :: (put c v.newLine).rest s := by
  unfold rest put
  by_cases hsep : c = 10
  · subst hsep
    rw [if_pos rfl, Rows.rows_sep h.line h.width]
    rfl
  · rw [if_neg hsep, Rows.rows_cut h.ncols h.line (hc.resolve_right hsep) hsep]
    rfl

theorem rest_put {c : UInt8} (hc : c ≠ 10) (s : Bytes) : v.rest (c :: s) = (put c v).rest s := by
  unfold rest put
  rw [if_neg hc, List.append_assoc]
  rfl

theorem rest_nil (h : v.Fits) : v.rest [] = [v.last] := by
  unfold rest
  rw [List.append_nil, Rows.rows_line h.line h.width]

/-- What is left of a list if all but its last `k` items go. -/
def lastN (k : Nat) (l : List Bytes) : List Bytes := l.drop (l.length - k)

/-- A panel that shifts shows the last of all rows; `upper` are those that were above. -/
structure Scrolled (v : ViewCommand) (upper : List Bytes) : Prop where
  shift : v.shiftLines = true
  shown : v.lines = lastN (max 1 v.nrows) (upper ++ [v.last])
  fits : v.Fits

theorem Scrolled.newLine {upper : List Bytes} (h : Scrolled v upper) :
    Scrolled v.newLine (upper ++ [v.last]) := by
  refine ⟨h.shift, ?_, h.fits.newLine⟩
  have hshown := h.shown
  have hlen : v.lines.length = min (max 1 v.nrows) (upper.length + 1) := by
    rw [hshown, lastN, List.length_drop, List.length_append, List.length_singleton]
    omega
  show (if v.nrows < v.lines.length + 1 then v.lines.drop 1 else v.lines) ++ [[]] =
    lastN (max 1 v.nrows) (upper ++ [v.last] ++ [[]])
  have hdrop : (upper ++ [v.last] ++ [[]]).length - max 1 v.nrows ≤ (upper ++ [v.last]).length := by
    simp only [List.length_append, List.length_singleton]
    omega
  unfold lastN at hshown ⊢
  rw [List.drop_append_of_le_length hdrop]
  congr 1
  split
  · next hfull =>
    rw [hshown, List.drop_drop]
    congr 1
    simp only [List.length_append, List.length_singleton] at *
    omega
  · next hroom =>
    rw [hshown]
    congr 1
    simp only [List.length_append, List.length_singleton] at *
    omega

theorem Scrolled.put {upper : List Bytes} (h : Scrolled v upper) {c : UInt8}
    (hc : c = 10 ∨ v.last.length < v.ncols) : Scrolled (put c v) upper := by
  refine ⟨?_, ?_, h.fits.put hc⟩
  · exact (shiftLines_put c v).trans h.shift
  · have hshown := h.shown
    unfold ViewCommand.put
    split
    · exact hshown
    · have hle (l : Bytes) : (upper ++ [l]).length - max 1 v.nrows ≤ upper.length := by
        rw [List.length_append, List.length_singleton]
        omega
      unfold lines lastN at *
      rw [List.drop_append_of_le_length (hle _)] at hshown ⊢
      have := List.append_cancel_right hshown
      rw [this]
      simp

theorem Scrolled.writeChars {upper : List Bytes} (h : Scrolled v upper) (s : Bytes) :
    (writeChars s v).lines = lastN (max 1 v.nrows) (upper ++ v.rest s) := by
  induction s generalizing v upper with
  | nil =>
    rw [rest_nil h.fits]
    exact h.shown
  | cons c s ih =>
    rw [ViewCommand.writeChars]
    split
    · next hbreak =>
      rw [if_neg (by simp [h.shift]), rest_break h.fits hbreak, ih (h.newLine.put (.inr h.fits.ncols)),
        nrows_put, ← List.append_cons]
      rfl
    · next hgo =>
      rw [not_or] at hgo
      have hroom : v.last.length < v.ncols := Nat.lt_of_le_of_ne h.fits.width hgo.1
      rw [rest_put hgo.2, ih (h.put (.inr hroom)), nrows_put]

/-- A panel that does not shift shows the first of all rows. -/
theorem writeChars_first (hf : v.Fits) (hs : v.shiftLines = false)
    (hrows : v.lines.length ≤ v.nrows) (s : Bytes) :
    (writeChars s v).lines = (v.above ++ v.rest s).take v.nrows := by
  have hlen (w : ViewCommand) : w.lines.length = w.above.length + 1 := by simp [lines]
  induction s generalizing v with
  | nil =>
    rw [rest_nil hf]
    exact (List.take_of_length_le hrows).symm
  | cons c s ih =>
    rw [writeChars]
    split
    · next hbreak =>
      rw [rest_break hf hbreak, List.append_cons]
      split
      · next hfull => exact (List.take_left' hfull.1).symm
      · next hroom =>
        have hlt : v.lines.length < v.nrows := by
          simp only [hs, and_true] at hroom
          omega
        have habove : (put c v.newLine).above = v.lines := by
          rw [above_put]
          exact if_neg (by omega)
        rw [ih (hf.newLine.put (.inr hf.ncols)) ((shiftLines_put c v.newLine).trans hs), habove,
          nrows_put]
        · rfl
        · rw [hlen, habove, nrows_put]
          exact hlt
    · next hgo =>
      rw [not_or] at hgo
      have hroom : v.last.length < v.ncols := Nat.lt_of_le_of_ne hf.width hgo.1
      rw [rest_put hgo.2, ih (hf.put (.inr hroom)) ((shiftLines_put c v).trans hs), above_put, nrows_put]
      rw [hlen, above_put, nrows_put, ← hlen]
      exact hrows

/-- A panel that shifts shows the last rows of all that was written to it. -/
theorem lines_writes (hwidth : 0 < v.ncols) (hs : v.shiftLines = true) (strs : List Bytes) :
    (strs.foldl (fun v str => v.write str) v.clear).lines =
      lastN (max 1 v.nrows) (Rows.rows v.ncols 10 (visible strs.flatten)) := by
  have hscrolled : Scrolled v.clear [] := by
    refine ⟨hs, ?_, ⟨hwidth, Nat.zero_le _, List.not_mem_nil⟩⟩
    have hone : 1 - max 1 v.nrows = 0 := by omega
    show [[]] = List.drop (1 - max 1 v.nrows) [[]]
    rw [hone, List.drop_zero]
  have hclear : v.clear.shiftLines = true := hs
  rw [write_flatten hclear]
  exact hscrolled.writeChars _

/-- A panel stays in its region. If it shifts, it shows the last rows of all that was written to it,
and else the first rows of the text. -/
theorem shows (v : ViewCommand) (hwidth : 0 < v.ncols) :
    (∀ strs : List Bytes, (strs.foldl (fun v str => v.write str) v.clear).Bounded) ∧
    (v.shiftLines = true → ∀ strs : List Bytes,
      (strs.foldl (fun v str => v.write str) v.clear).lines =
        lastN (max 1 v.nrows) (Rows.rows v.ncols 10 (visible strs.flatten))) ∧
    (v.shiftLines = false → 0 < v.nrows → ∀ str : Bytes,
      (v.clear.write str).lines = (Rows.rows v.ncols 10 (visible str)).take v.nrows) := by
  have hbounded : v.clear.Bounded :=
    ⟨Nat.le_max_left _ _, List.forall_mem_singleton.mpr (Nat.zero_le _)⟩
  refine ⟨hbounded.writes hwidth, lines_writes hwidth, fun hs hrows str => ?_⟩
  have hfits : v.clear.Fits := ⟨hwidth, Nat.zero_le _, List.not_mem_nil⟩
  exact writeChars_first hfits hs hrows _

/-- A panel of two rows. -/
theorem shows_two : ((new 0 0 2 3 true).write (lit "abcd\nef")).lines = [lit "d", lit "ef"] := by
  have h := (shows (new 0 0 2 3 true) (by decide)).2.1 rfl [lit "abcd\nef"]
  exact h.trans (by decide +kernel)

end ViewCommand

end Odb
