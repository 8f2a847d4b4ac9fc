import ContinuumOS.Lib.TextCursor
import ContinuumOS.TextEditor.Model

/-! # The text that an editor holds

The rows of the editor hold the lines of a text, with the cursor where the text
has it. What the loops over rows and over the characters of a row leave is said
in terms of the text. -/
namespace ContinuumOS.TextEditor.View
open ContinuumOS.Lib.Terminated ContinuumOS.Lib.TextCursor ContinuumOS.Libc.String
open ContinuumOS.TextEditor.Model

/-- The row holds a line. -/
abbrev RowHolds (r : Row) (l : CStr) : Prop := Holds 0 lineLength r l

/-- The rows from `k` on hold the lines. -/
def RowsFrom (b : Nat → Row) : Nat → List CStr → Prop
  | _, [] => True
  | k, l :: ls => RowHolds (b k) l ∧ RowsFrom b (k + 1) ls

/-- The rows below `k`, up to `i`, hold what those above them held. -/
def lowered (b : Nat → Row) (k i : Nat) : Nat → Row := fun j =>
  if k < j ∧ j ≤ i then copyLine (b j) (b (j - 1)) else b j

/-- The rows from `i` on, below `k`, hold what those below them held. -/
def raised (b : Nat → Row) (i k : Nat) : Nat → Row := fun j =>
  if i ≤ j ∧ j < k then copyLine (b j) (b (j + 1)) else b j

/-- The editor has the lines. -/
structure HasLines (e : Editor) (ls : List CStr) : Prop where
  count : e.lineCount = ls.length
  count_le : ls.length ≤ maxLines
  rows : RowsFrom e.buffer 0 ls

/-- The editor holds the text. -/
structure Shows (e : Editor) (t : Text UInt8) : Prop extends HasLines e t.lines where
  line : e.cursorLine = t.line
  col : e.cursorCol = t.col

/-- The line with the cursor is one of those that are drawn. -/
structure InView (e : Editor) : Prop where
  nonneg : 0 ≤ e.viewportOffset
  first : e.viewportOffset ≤ e.cursorLine
  last : e.cursorLine < e.viewportOffset + viewRows

section

variable {e e' : Editor} {t t' : Text UInt8} {b b' : Nat → Row} {l : CStr} {ls ms : List CStr}
  {k n : Nat}

/-! ## Rows -/

theorem rowsFrom_append : ∀ {k : Nat} {ls : List CStr},
    RowsFrom b k (ls ++ ms) ↔ RowsFrom b k ls ∧ RowsFrom b (k + ls.length) ms
  | k, [] => ⟨fun h => ⟨trivial, h⟩, fun h => h.2⟩
  | k, l :: ls => by
    rw [List.cons_append, RowsFrom, RowsFrom, rowsFrom_append, List.length_cons, and_assoc,
      Nat.add_right_comm k 1, Nat.add_assoc]

theorem rowsFrom_move : ∀ {k k' : Nat} {ls : List CStr}, RowsFrom b k ls →
    (∀ i l, i < ls.length → RowHolds (b (k + i)) l → RowHolds (b' (k' + i)) l) →
    RowsFrom b' k' ls
  | _, _, [], _, _ => trivial
  | k, k', l :: ls, h, hm => by
    refine ⟨hm 0 l (Nat.zero_lt_succ _) h.1, rowsFrom_move h.2 fun i m hi hh => ?_⟩
    rw [Nat.add_assoc, Nat.add_comm 1 i] at hh ⊢
    exact hm (i + 1) m (Nat.succ_lt_succ hi) hh

theorem rowsFrom_congr (h : RowsFrom b k ls) (hs : ∀ i, i < ls.length → b' (k + i) = b (k + i)) :
    RowsFrom b' k ls := rowsFrom_move h fun i l hi hh => by rw [hs i hi]; exact hh

theorem row_eq (h : n < maxLines) : e.row n = some (e.buffer n) := by
  rw [Editor.row, if_pos ⟨Int.natCast_nonneg n, Int.ofNat_lt.mpr h⟩, Int.toNat_natCast]

theorem setRow_eq (h : n < maxLines) (r : Row) :
    e.setRow n r = some { e with buffer := Function.update e.buffer n r } := by
  rw [Editor.setRow, if_pos ⟨Int.natCast_nonneg n, Int.ofNat_lt.mpr h⟩, Int.toNat_natCast]

theorem index_eq (n : Nat) : index n = some n := by
  rw [index, if_pos (Int.natCast_nonneg n), Int.toNat_natCast]

theorem strlen_eq {r : Row} (h : RowHolds r l) : Model.strlen r = some l.length := h.lengthFrom

theorem textOf_eq {r : Row} (h : RowHolds r l) : textOf r l.length = l := by
  refine List.ext_getElem? fun i => ?_
  by_cases hi : i < l.length
  · rw [textOf, List.getElem?_map, List.getElem?_range hi, h.get i hi, Option.map_some]
  · have hlen : (textOf r l.length).length = l.length := by
      rw [textOf, List.length_map, List.length_range]
    rw [List.getElem?_eq_none (by omega), List.getElem?_eq_none (by omega)]

theorem RowHolds.copyLine {r : Row} (h : RowHolds r l) (dst : Row) :
    RowHolds (copyLine dst r) l := by
  have hc := Holds.copy (a := dst) h
  have hlt : l.length < lineLength := h.length_lt
  -- the last cell is the terminator or one of those it is filled up with
  refine ⟨h.length_lt, fun i hi => ?_, h.not_mem, ?_⟩
  · rw [Model.copyLine, Function.update_of_ne (by omega), hc.get i hi]
  · by_cases he : l.length = lineLength - 1
    · rw [Model.copyLine, he, Function.update_self]
    · rw [Model.copyLine, Function.update_of_ne he, hc.stop]

theorem rowsDown_eq (k : Nat) : ∀ (count : Nat) (e : Editor), k + count < maxLines →
    Editor.rowsDown count ((k + count : Nat) : Int) e =
      some { e with buffer := lowered e.buffer k (k + count) }
  | 0, e, _ => by
    have hb : lowered e.buffer k (k + 0) = e.buffer := by
      funext j
      rw [lowered, if_neg (by omega)]
    rw [Editor.rowsDown, hb]
  | count + 1, e, hi => by
    have hpred : ((k + (count + 1) : Nat) : Int) - 1 = ((k + count : Nat) : Int) := by omega
    rw [Editor.rowsDown, Editor.copyRow, hpred, row_eq (by omega), row_eq hi]
    simp only [Option.bind_eq_bind, Option.bind_some, setRow_eq hi]
    have hb : lowered (Function.update e.buffer (k + (count + 1))
        (copyLine (e.buffer (k + (count + 1))) (e.buffer (k + count)))) k (k + count) =
        lowered e.buffer k (k + (count + 1)) := by
      funext j
      rw [lowered, lowered]
      by_cases hj : j = k + (count + 1)
      · subst hj
        rw [if_neg (by omega), if_pos (by omega), Function.update_self]
        rfl
      · by_cases hin : k < j ∧ j ≤ k + (count + 1)
        · rw [if_pos (by omega), if_pos hin, Function.update_of_ne hj,
            Function.update_of_ne (by omega)]
        · rw [if_neg (by omega), if_neg hin, Function.update_of_ne hj]
    rw [rowsDown_eq k count _ (by omega), hb]

theorem rowsUp_eq : ∀ (count i : Nat) (e : Editor), i + count < maxLines →
    Editor.rowsUp count ((i + 1 : Nat) : Int) e =
      some { e with buffer := raised e.buffer i (i + count) }
  | 0, i, e, _ => by
    have hb : raised e.buffer i (i + 0) = e.buffer := by
      funext j
      rw [raised, if_neg (by omega)]
    rw [Editor.rowsUp, hb]
  | count + 1, i, e, hi => by
    have hpred : ((i + 1 : Nat) : Int) - 1 = (i : Int) := by omega
    have hsucc : ((i + 1 : Nat) : Int) + 1 = ((i + 1 + 1 : Nat) : Int) := by omega
    rw [Editor.rowsUp, Editor.copyRow, hpred, hsucc, row_eq (by omega), row_eq (by omega)]
    simp only [Option.bind_eq_bind, Option.bind_some, setRow_eq (show i < maxLines by omega)]
    have hb : raised (Function.update e.buffer i (copyLine (e.buffer i) (e.buffer (i + 1))))
        (i + 1) (i + 1 + count) = raised e.buffer i (i + (count + 1)) := by
      funext j
      rw [raised, raised]
      by_cases hj : j = i
      · rw [hj, if_neg (by omega), if_pos (by omega), Function.update_self]
      · by_cases hin : i ≤ j ∧ j < i + (count + 1)
        · rw [if_pos (by omega), if_pos hin, Function.update_of_ne hj,
            Function.update_of_ne (by omega)]
        · rw [if_neg (by omega), if_neg hin, Function.update_of_ne hj]
    rw [rowsUp_eq count (i + 1) _ (by omega), hb]

theorem rowsFrom_lowered {i : Nat} (h : RowsFrom b (k + 1) ls) (hi : k + 1 + ls.length ≤ i) :
    RowsFrom (lowered b (k + 1) i) (k + 1 + 1) ls := by
  refine rowsFrom_move h fun j l hj hh => ?_
  rw [lowered, if_pos (by omega), show k + 1 + 1 + j - 1 = k + 1 + j by omega]
  exact hh.copyLine _

theorem rowsFrom_raised {i : Nat} (h : RowsFrom b (k + 1) ls) (hi : k + ls.length ≤ i) :
    RowsFrom (raised b k i) k ls := by
  refine rowsFrom_move h fun j l hj hh => ?_
  rw [raised, if_pos (by omega), Nat.add_right_comm]
  exact hh.copyLine _

theorem HasLines.row_count (h : HasLines e ls) (hroom : ls.length < maxLines) :
    e.row e.lineCount = some (e.buffer ls.length) := by rw [h.count, row_eq hroom]

theorem HasLines.setRow_count (h : HasLines e ls) (hroom : ls.length < maxLines) (r : Row) :
    e.setRow e.lineCount r = some { e with buffer := Function.update e.buffer ls.length r } := by
  have hset := setRow_eq (e := e) hroom r
  rwa [← h.count] at hset

theorem HasLines.concat (h : HasLines e ls) (hroom : ls.length < maxLines) {r : Row}
    (hr : RowHolds r l) (hb : e'.buffer = Function.update e.buffer ls.length r)
    (hc : e'.lineCount = e.lineCount + 1) : HasLines e' (ls ++ [l]) := by
  refine ⟨?_, ?_, rowsFrom_append.mpr ⟨rowsFrom_congr h.rows fun i hi => ?_, ?_, trivial⟩⟩
  · rw [hc, h.count, List.length_append]
    rfl
  · rw [List.length_append]
    exact hroom
  · rw [hb, Function.update_of_ne (by omega)]
  · rw [hb, Nat.zero_add, Function.update_self]
    exact hr

theorem HasLines.get (h : HasLines e ls) (hk : k < ls.length) : RowHolds (e.buffer k) ls[k] := by
  have hsplit : ls = ls.take k ++ ls[k] :: ls.drop (k + 1) := by
    rw [List.getElem_cons_drop, List.take_append_drop]
  have hrows := h.rows
  rw [hsplit, rowsFrom_append, List.length_take_of_le (Nat.le_of_lt hk), Nat.zero_add] at hrows
  exact hrows.2.1

/-! ## The lines around the cursor -/

theorem length_lines (t : Text UInt8) : t.lines.length = t.line + 1 + t.below.length := by
  rw [Text.lines, List.length_append, List.length_reverse, List.length_cons, Text.line]
  omega

theorem length_current (t : Text UInt8) : t.current.length = t.col + t.right.length := by
  rw [Text.current, List.length_append, Text.col]

theorem rowsFrom_lines : RowsFrom b 0 t.lines ↔
    RowsFrom b 0 t.above.reverse ∧ RowHolds (b t.line) t.current ∧
      RowsFrom b (t.line + 1) t.below := by
  rw [Text.lines, rowsFrom_append, List.length_reverse, Nat.zero_add]
  rfl

theorem Shows.line_lt (h : Shows e t) : t.line < maxLines := by
  have := h.count_le
  rw [length_lines] at this
  omega

theorem Shows.current (h : Shows e t) : RowHolds (e.buffer t.line) t.current :=
  (rowsFrom_lines.mp h.rows).2.1

theorem Shows.row (h : Shows e t) : e.row e.cursorLine = some (e.buffer t.line) := by
  rw [h.line, row_eq h.line_lt]

theorem Shows.setRow (h : Shows e t) (r : Row) : e.setRow e.cursorLine r =
    some { e with buffer := Function.update e.buffer t.line r } := by
  have hset := setRow_eq (e := e) h.line_lt r
  rwa [← h.line] at hset

theorem Shows.index (h : Shows e t) : index e.cursorCol = some t.col := by rw [h.col, index_eq]

theorem Shows.below_lt (h : Shows e t) : t.line + t.below.length < maxLines := by
  have hlen := length_lines t
  have hle := h.count_le
  omega

theorem Shows.rowsBelow (h : Shows e t) :
    (e.lineCount - (e.cursorLine + 1)).toNat = t.below.length := by
  rw [h.count, h.line, length_lines]
  omega

theorem Shows.previous (h : Shows e t) {p : CStr} {above : List CStr} (ha : t.above = p :: above) :
    e.cursorLine = ((above.length + 1 : Nat) : Int) ∧ RowHolds (e.buffer above.length) p ∧
      RowsFrom e.buffer 0 above.reverse := by
  obtain ⟨h₁, -, -⟩ := rowsFrom_lines.mp h.rows
  rw [ha, List.reverse_cons, rowsFrom_append, List.length_reverse, Nat.zero_add] at h₁
  refine ⟨?_, h₁.2.1, h₁.1⟩
  rw [h.line, Text.line, ha, List.length_cons]

theorem Shows.first (h : Shows e t) (ha : t.above = []) : ¬ 0 < e.cursorLine := by
  rw [h.line, Text.line, ha]
  exact Int.lt_irrefl 0

theorem Shows.start (h : Shows e t) (hl : t.left = []) : ¬ 0 < e.cursorCol := by
  rw [h.col, Text.col, hl]
  exact Int.lt_irrefl 0

theorem Shows.last (h : Shows e t) (hb : t.below = []) : e.cursorLine = e.lineCount - 1 := by
  have hlen := length_lines t
  rw [hb, List.length_nil, Nat.add_zero] at hlen
  rw [h.count, h.line, hlen]
  omega

theorem Shows.move (h : Shows e t) (hl : t'.lines = t.lines) (hb : e'.buffer = e.buffer)
    (hc : e'.lineCount = e.lineCount) (hi : e'.cursorLine = t'.line) (hj : e'.cursorCol = t'.col) :
    Shows e' t' := by
  refine ⟨⟨?_, by rw [hl]; exact h.count_le, ?_⟩, hi, hj⟩
  · rw [hc, hl]
    exact h.count
  · rw [hb, hl]
    exact h.rows

theorem Shows.setCurrent (h : Shows e t) (ha : t'.above = t.above) (hbelow : t'.below = t.below)
    {r : Row} (hr : RowHolds r t'.current) (hb : e'.buffer = Function.update e.buffer t.line r)
    (hc : e'.lineCount = e.lineCount) (hi : e'.cursorLine = e.cursorLine)
    (hj : e'.cursorCol = t'.col) : Shows e' t' := by
  obtain ⟨h₁, -, h₃⟩ := rowsFrom_lines.mp h.rows
  have hline : t'.line = t.line := by rw [Text.line, ha, Text.line]
  have hlen : t'.lines.length = t.lines.length := by rw [length_lines, length_lines, hline, hbelow]
  refine ⟨⟨?_, by rw [hlen]; exact h.count_le, ?_⟩, ?_, hj⟩
  · rw [hc, hlen]
    exact h.count
  · rw [hb, rowsFrom_lines, ha, hbelow, hline]
    refine ⟨rowsFrom_congr h₁ fun i hi => ?_, ?_, rowsFrom_congr h₃ fun i hi => ?_⟩
    · rw [List.length_reverse] at hi
      exact Function.update_of_ne (by rw [Text.line]; omega) _ _
    · rw [Function.update_self]
      exact hr
    · exact Function.update_of_ne (by omega) _ _
  · rw [hi, hline]
    exact h.line

/-! ## Drawing -/

theorem drawLines_eq (h : HasLines e ls) : ∀ left k : Nat, Editor.drawLines e left k = some ()
  | 0, _ => rfl
  | left + 1, k => by
    have hrest := drawLines_eq h left (k + 1)
    rw [Editor.drawLines, show (k : Int) + 1 = ((k + 1 : Nat) : Int) from rfl, hrest]
    by_cases hk : (k : Int) < e.lineCount
    · rw [h.count, Int.ofNat_lt] at hk
      rw [row_eq (Nat.lt_of_lt_of_le hk h.count_le)]
      simp only [Option.bind_eq_bind, Option.bind_some, strlen_eq (h.get hk), ite_self]
    · rw [if_neg hk]

theorem scrollView_eq (e : Editor) :
    e.scrollView = { e with viewportOffset := e.scrollView.viewportOffset } := by
  rw [Editor.scrollView]
  split
  · rfl
  split
  · rfl
  · rfl

theorem scrollView_inView (hl : 0 ≤ e.cursorLine) (hv : 0 ≤ e.viewportOffset) :
    InView e.scrollView := by
  have hrows : (viewRows : Int) = 24 := rfl
  rw [Editor.scrollView]
  by_cases h₁ : e.cursorLine < e.viewportOffset
  · rw [if_pos h₁]
    exact ⟨hl, Int.le_refl _, by simp only [hrows]; omega⟩
  · rw [if_neg h₁]
    by_cases h₂ : e.viewportOffset + viewRows ≤ e.cursorLine
    · rw [if_pos h₂]
      refine ⟨?_, ?_, ?_⟩
      all_goals
        simp only [hrows] at h₂ ⊢
        omega
    · rw [if_neg h₂]
      exact ⟨hv, by omega, by omega⟩

/-- **`render` brings the cursor into view** and stays inside the buffer. -/
theorem render_shows (h : Shows e t) (hv : 0 ≤ e.viewportOffset) :
    ∃ v, e.render = some { e with viewportOffset := v } ∧
      Shows { e with viewportOffset := v } t ∧ InView { e with viewportOffset := v } := by
  have hline : 0 ≤ e.cursorLine := by
    rw [h.line]
    exact Int.natCast_nonneg _
  have hin := scrollView_inView hline hv
  have heq := scrollView_eq e
  generalize e.scrollView.viewportOffset = v at heq
  have hshows : Shows { e with viewportOffset := v } t := h.move rfl rfl rfl h.line h.col
  rw [heq] at hin
  refine ⟨v, ?_, hshows, hin⟩
  rw [Editor.render, heq, ← Int.toNat_of_nonneg hin.nonneg]
  simp only [drawLines_eq hshows.toHasLines, Option.bind_eq_bind, Option.bind_some,
    Option.pure_def]

end

end ContinuumOS.TextEditor.View
