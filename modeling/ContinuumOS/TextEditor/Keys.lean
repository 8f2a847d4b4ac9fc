import ContinuumOS.TextEditor.View

/-! # The keys of the editor

What each key does to the text that the editor holds, and that the key handlers
do it: they stay inside the buffer, and the rows hold the new text. -/
namespace ContinuumOS.TextEditor.Keys
open ContinuumOS.Lib.Terminated ContinuumOS.Lib.TextCursor ContinuumOS.Libc.String
open ContinuumOS.TextEditor.Model ContinuumOS.TextEditor.View

/-! ## The keys on a text -/

/-- The characters that fit behind a line. -/
def room (p : CStr) : Nat := lineLength - 1 - p.length

/-- A full line takes no character. -/
def typed (t : Text UInt8) (c : UInt8) : Text UInt8 :=
  if t.current.length < lineLength - 1 then t.insert c else t

/-- A full buffer takes no line. -/
def entered (t : Text UInt8) : Text UInt8 := if t.lines.length < maxLines then t.split else t

def backspaced (t : Text UInt8) : Text UInt8 := if t.left ≠ [] then t.erase else t.join room

/-- The last line is followed by an empty one. -/
def lowerLine (t : Text UInt8) : Text UInt8 :=
  if t.below ≠ [] then t.down else if t.lines.length < maxLines then t.openLine else t

def leftward (t : Text UInt8) : Text UInt8 := if t.left ≠ [] then t.back else t.backUp

def rightward (t : Text UInt8) : Text UInt8 := if t.right ≠ [] then t.forth else t.forthDown

def arrow (scancode : UInt8) (t : Text UInt8) : Text UInt8 :=
  if scancode = keyUpArrow then t.up
  else if scancode = keyDownArrow then lowerLine t
  else if scancode = keyLeftArrow then leftward t
  else if scancode = keyRightArrow then rightward t
  else t

/-- A key that is no command. -/
def press (ke : KeyboardEvent) (t : Text UInt8) : Text UInt8 :=
  if ke.release then t
  else if ke.backspace then backspaced t
  else if ke.enter then entered t
  else if Editor.isArrow ke.scancode then arrow ke.scancode t
  else if kbToAscii ke ≠ 0 then typed t (kbToAscii ke)
  else t

/-- What a key leaves as it was. -/
structure Kept (e e' : Editor) : Prop where
  viewportOffset : e'.viewportOffset = e.viewportOffset
  active : e'.active = e.active
  path : e'.path = e.path

section

variable {e : Editor} {t : Text UInt8}

theorem Kept.refl (e : Editor) : Kept e e := ⟨rfl, rfl, rfl⟩

/-! ## Characters -/

theorem handleChar_shows (h : Shows e t) {c : UInt8} (hc : c ≠ 0) :
    ∃ e', e.handleChar c = some e' ∧ Kept e e' ∧ Shows e' (typed t c) := by
  have hcur := h.current
  have hcol := length_current t
  simp only [Editor.handleChar, h.row, Option.bind_eq_bind, Option.bind_some, strlen_eq hcur,
    typed]
  by_cases hfull : lineLength - 1 ≤ t.current.length
  · rw [if_pos hfull, if_neg (Nat.not_lt.mpr hfull)]
    exact ⟨e, rfl, .refl e, h⟩
  have hroom : t.current.length + 1 < lineLength := by
    rw [lineLength] at hfull ⊢
    omega
  rw [if_neg hfull, if_pos (Nat.lt_of_not_le hfull)]
  obtain ⟨b, hb, hholds⟩ := hcur.insert (show t.col ≤ t.current.length by omega) hroom hc
  simp only [h.index, Option.bind_some, hb, write_eq (show t.col < lineLength by omega),
    write_eq hroom, h.setRow, Option.pure_def]
  refine ⟨_, rfl, ⟨rfl, rfl, rfl⟩, h.setCurrent rfl rfl ?_ rfl rfl rfl ?_⟩
  · rw [current_insert]
    exact hholds
  · rw [h.col]
    simp only [Text.insert, Text.col, List.length_append, List.length_singleton]
    rfl

theorem eraseChar_shows (h : Shows e t) (hl : t.left ≠ []) :
    ∃ e', e.handleBackspace = some e' ∧ Kept e e' ∧ Shows e' t.erase := by
  have hcur := h.current
  have hlen := length_current t
  obtain ⟨hpos, hline⟩ := current_erase hl
  have hcol : e.cursorCol - 1 = ((t.col - 1 : Nat) : Int) := by
    rw [h.col]
    omega
  obtain ⟨b, hb, hholds⟩ := hcur.erase (show t.col - 1 < t.current.length by omega)
  have hlt : 0 < e.cursorCol := by
    rw [h.col]
    omega
  simp only [Editor.handleBackspace, h.row, Option.bind_eq_bind, Option.bind_some, strlen_eq hcur,
    if_pos hlt, hcol, index_eq, hb, h.setRow, Option.pure_def]
  refine ⟨_, rfl, ⟨rfl, rfl, rfl⟩, h.setCurrent rfl rfl (r := b) ?_ rfl rfl rfl ?_⟩
  · rw [hline]
    exact hholds
  · simp only [Text.erase, Text.col, List.length_dropLast]

/-! ## Lines -/

theorem appendTo_eq (e : Editor) {k cp : Nat} {p l : CStr} {r : Row} (hk : k < maxLines)
    (hp : RowHolds (e.buffer k) p) (hr : RowHolds r l) (hl : cp ≤ l.length) (hroom : cp ≤ room p) :
    ∃ b : Nat → Row, e.appendTo k (e.buffer k) p.length r cp = some { e with buffer := b } ∧
      RowHolds (b k) (p ++ l.take cp) ∧ ∀ j, j ≠ k → b j = e.buffer j := by
  have hlt : p.length < lineLength := hp.length_lt
  rw [room] at hroom
  rw [Editor.appendTo]
  by_cases hpos : 0 < cp
  · obtain ⟨r', hr', hholds⟩ := hp.append hr hl (by omega)
    refine ⟨Function.update e.buffer k (Function.update r' (p.length + cp) 0), ?_, ?_,
      fun j hj => Function.update_of_ne hj _ _⟩
    · simp only [if_pos hpos, hr', Option.bind_eq_bind, Option.bind_some,
        write_eq (show p.length + cp < lineLength by omega)]
      exact setRow_eq hk _
    · rw [Function.update_self]
      exact hholds
  · refine ⟨e.buffer, if_neg hpos, ?_, fun _ _ => rfl⟩
    rw [Nat.eq_zero_of_not_pos hpos, List.take_zero, List.append_nil]
    exact hp

theorem joinLine_shows (h : Shows e t) {p : CStr} {above : List CStr} (ha : t.above = p :: above) :
    ∃ e', e.joinLine = some e' ∧ Kept e e' ∧ Shows e' (t.join room) := by
  have hcur := h.current
  obtain ⟨hline, hprev, habove⟩ := h.previous ha
  obtain ⟨-, -, hbelow⟩ := rowsFrom_lines.mp h.rows
  have hlt := h.below_lt
  have hl : t.line = above.length + 1 := by rw [Text.line, ha, List.length_cons]
  have hpred : e.cursorLine - 1 = (above.length : Int) := by omega
  have hstart : e.cursorLine + 1 = ((above.length + 1 + 1 : Nat) : Int) := by omega
  generalize hcp : (if t.current.length < room p then t.current.length else room p) = cp
  have hcur_le : cp ≤ t.current.length := by
    rw [← hcp]
    split <;> omega
  have hcp_le : cp ≤ room p := by
    rw [← hcp]
    split <;> omega
  have hjoin : t.join room = ⟨above, p, t.current.take cp, t.below⟩ := by
    have htake : t.current.take (room p) = t.current.take cp := by
      rw [← hcp]
      split
      · rw [List.take_of_length_le (by omega), List.take_length]
      · rfl
    simp only [Text.join, ha, htake]
  obtain ⟨b, hb, hnew, hold⟩ := appendTo_eq e (show above.length < maxLines by omega) hprev hcur
    hcur_le hcp_le
  have hup := rowsUp_eq t.below.length (above.length + 1) { e with buffer := b } (by omega)
  have hcount := h.rowsBelow
  rw [hstart] at hcount
  rw [room] at hcp
  simp only [Editor.joinLine, h.row, Option.bind_eq_bind, Option.bind_some, strlen_eq hcur, hpred,
    row_eq (show above.length < maxLines by omega), strlen_eq hprev, hcp, hb, hstart, hcount,
    hup, Option.pure_def]
  refine ⟨_, rfl, ⟨rfl, rfl, rfl⟩, ?_⟩
  rw [hjoin]
  refine ⟨⟨?_, ?_, rowsFrom_lines.mpr ⟨?_, ?_, ?_⟩⟩, rfl, rfl⟩
  · simp only [h.count, length_lines, Text.line, ha, List.length_cons]
    omega
  · rw [length_lines]
    simp only [Text.line]
    omega
  · refine rowsFrom_congr habove fun j hj => ?_
    rw [List.length_reverse] at hj
    have hj : j < above.length := hj
    simp only [raised]
    rw [if_neg (by omega), hold _ (by omega)]
  · show RowHolds (raised b _ _ above.length) (p ++ t.current.take cp)
    rw [raised, if_neg (by omega)]
    exact hnew
  · rw [hl] at hbelow
    refine rowsFrom_raised (rowsFrom_congr hbelow fun j hj => hold _ ?_) (Nat.le_refl _)
    omega

theorem splitLine_shows (h : Shows e t) (hroom : t.lines.length < maxLines) :
    ∃ e', e.splitLine = some e' ∧ Kept e e' ∧ Shows e' t.split := by
  have hcur := h.current
  have hlen := length_current t
  obtain ⟨habove, -, hbelow⟩ := rowsFrom_lines.mp h.rows
  have hlines := length_lines t
  have hlt : t.current.length < lineLength := hcur.length_lt
  obtain ⟨r, hr, hright⟩ := hcur.drop (show t.col ≤ t.current.length by omega) fun _ => 0
  have hleft := hcur.take (show t.col ≤ t.current.length by omega)
  have hcol : t.current.drop t.col = t.right := by rw [Text.current, Text.col, List.drop_left]
  have hcol' : t.current.take t.col = t.left := by rw [Text.current, Text.col, List.take_left]
  rw [hcol] at hright
  rw [hcol'] at hleft
  generalize hb : Function.update e.buffer t.line
    (Function.update (e.buffer t.line) t.col 0) = b
  have hcount : e.lineCount = ((t.line + 1 + t.below.length : Nat) : Int) := by
    rw [h.count, hlines]
  have hdown := rowsDown_eq (t.line + 1) t.below.length { e with buffer := b } (by omega)
  have hnext : e.cursorLine + 1 = ((t.line + 1 : Nat) : Int) := by
    rw [h.line]
    rfl
  have hrows := h.rowsBelow
  rw [hnext] at hrows
  rw [← hcount] at hdown
  simp only [Editor.splitLine, h.row, Option.bind_eq_bind, Option.bind_some, strlen_eq hcur,
    h.index, hr, write_eq (show t.current.length - t.col < lineLength by omega),
    write_eq (show t.col < lineLength by omega), h.setRow, hb, hnext, hrows, hdown,
    row_eq (show t.line + 1 < maxLines by omega), setRow_eq (show t.line + 1 < maxLines by omega),
    Option.pure_def]
  refine ⟨_, rfl, ⟨rfl, rfl, rfl⟩, ?_⟩
  have hsame : ∀ j, j ≤ t.line → j ≠ t.line + 1 ∧
      lowered b (t.line + 1) (t.line + 1 + t.below.length) j = b j := by
    intro j hj
    refine ⟨by omega, ?_⟩
    rw [lowered, if_neg (by omega)]
  refine ⟨⟨?_, ?_, rowsFrom_lines.mpr ⟨?_, ?_, ?_⟩⟩, ?_, rfl⟩
  · simp only [hcount, length_lines, Text.split, Text.line, List.length_cons]
    omega
  · rw [length_lines]
    simp only [Text.split, Text.line, List.length_cons] at *
    omega
  · show RowsFrom _ 0 (t.left :: t.above).reverse
    rw [List.reverse_cons, rowsFrom_append, List.length_reverse, Nat.zero_add]
    refine ⟨rowsFrom_congr habove fun j hj => ?_, ?_, trivial⟩
    · rw [List.length_reverse] at hj
      have hj : j < t.line := hj
      obtain ⟨h₁, h₂⟩ := hsame (0 + j) (by omega)
      show Function.update _ (t.line + 1) _ (0 + j) = _
      rw [Function.update_of_ne h₁, h₂, ← hb, Function.update_of_ne (by omega)]
    · obtain ⟨h₁, h₂⟩ := hsame t.line (Nat.le_refl _)
      show RowHolds (Function.update (β := fun _ => Row) _ _ _ t.line) t.left
      rw [Function.update_of_ne h₁, h₂, ← hb, Function.update_self]
      exact hleft
  · show RowHolds (Function.update (β := fun _ => Row) _ _ _ (t.line + 1)) t.right
    rw [Function.update_self]
    exact RowHolds.copyLine hright _
  · have hmoved : RowsFrom b (t.line + 1) t.below := rowsFrom_congr hbelow fun j hj => by
      rw [← hb, Function.update_of_ne (by omega)]
    refine rowsFrom_congr (rowsFrom_lowered hmoved (Nat.le_refl _)) fun j hj => ?_
    have hline : t.split.line = t.line + 1 := rfl
    exact Function.update_of_ne (by omega) _ _
  · simp only [Text.split, Text.line, List.length_cons]

theorem handleBackspace_shows (h : Shows e t) :
    ∃ e', e.handleBackspace = some e' ∧ Kept e e' ∧ Shows e' (backspaced t) := by
  have hcur := h.current
  by_cases hl : t.left ≠ []
  · rw [backspaced, if_pos hl]
    exact eraseChar_shows h hl
  rw [backspaced, if_neg hl]
  simp only [Editor.handleBackspace, h.row, Option.bind_eq_bind, Option.bind_some, strlen_eq hcur,
    if_neg (h.start (not_not.mp hl))]
  cases ha : t.above with
  | nil =>
    rw [if_neg (h.first ha), Text.join, ha]
    exact ⟨e, rfl, .refl e, h⟩
  | cons p above =>
    have hline : 0 < e.cursorLine := by
      rw [h.line, Text.line, ha, List.length_cons]
      omega
    rw [if_pos hline]
    exact joinLine_shows h ha

/-! ## Arrows -/

theorem toLine_eq {k : Nat} {l : CStr} (hk : k < maxLines) (hl : RowHolds (e.buffer k) l)
    (hcol : e.cursorCol = t.col) : e.toLine k =
      some { e with cursorLine := k, cursorCol := ((l.take t.col).length : Nat) } := by
  have hmin : (if (l.length : Int) < e.cursorCol then (l.length : Int) else e.cursorCol) =
      ((l.take t.col).length : Nat) := by
    rw [hcol, List.length_take]
    split <;> omega
  simp only [Editor.toLine, row_eq hk, Option.bind_eq_bind, Option.bind_some, strlen_eq hl, hmin,
    Option.pure_def]

theorem up_shows (h : Shows e t) : ∃ e', e.handleArrows keyUpArrow = some e' ∧ Kept e e' ∧
    Shows e' t.up := by
  rw [Editor.handleArrows, if_pos rfl]
  cases ha : t.above with
  | nil =>
    rw [if_neg (h.first ha), Text.up, ha]
    exact ⟨e, rfl, .refl e, h⟩
  | cons p above =>
    obtain ⟨hline, hprev, -⟩ := h.previous ha
    have hlt := h.line_lt
    rw [Text.line, ha, List.length_cons] at hlt
    rw [if_pos (by omega), show e.cursorLine - 1 = (above.length : Int) by omega,
      toLine_eq (by omega) hprev h.col]
    refine ⟨_, rfl, ⟨rfl, rfl, rfl⟩, h.move (lines_up t) rfl rfl ?_ ?_⟩
    · rw [Text.up, ha]
      rfl
    · rw [Text.up, ha]
      rfl

theorem last_iff (h : Shows e t) : t.below = [] ↔ ¬ e.cursorLine < e.lineCount - 1 := by
  rw [h.count, h.line, length_lines, ← List.length_eq_zero_iff]
  omega

theorem next_line (h : Shows e t) : e.cursorLine + 1 = ((t.line + 1 : Nat) : Int) := by
  rw [h.line]
  rfl

theorem openLine_shows (h : Shows e t) (hb : t.below = []) (hroom : t.lines.length < maxLines) :
    ∃ r, write lineLength (e.buffer t.lines.length) 0 0 = some r ∧
      Shows { e with
        buffer := Function.update e.buffer t.lines.length r
        lineCount := e.lineCount + 1, cursorLine := e.cursorLine + 1, cursorCol := 0 }
        t.openLine := by
  have hlen := length_lines t
  rw [hb, List.length_nil, Nat.add_zero] at hlen
  obtain ⟨habove, hcur, -⟩ := rowsFrom_lines.mp h.rows
  have hnew : t.openLine.lines.length = t.lines.length + 1 := by
    rw [length_lines, hlen]
    simp only [Text.openLine, Text.line, List.length_cons, hb, List.length_nil]
  refine ⟨_, write_eq (show 0 < lineLength by decide),
    ⟨?_, ?_, rowsFrom_lines.mpr ⟨?_, ?_, ?_⟩⟩, ?_, rfl⟩
  · rw [hnew, h.count]
    rfl
  · rw [hnew]
    exact hroom
  · show RowsFrom _ 0 (t.current :: t.above).reverse
    rw [List.reverse_cons, rowsFrom_append, List.length_reverse, Nat.zero_add]
    refine ⟨rowsFrom_congr habove fun j hj => ?_, ?_, trivial⟩
    · rw [List.length_reverse] at hj
      have hj : j < t.line := hj
      exact Function.update_of_ne (by omega) _ _
    · show RowHolds (Function.update (β := fun _ => Row) _ _ _ t.line) t.current
      rw [Function.update_of_ne (by omega)]
      exact hcur
  · show RowHolds (Function.update (β := fun _ => Row) _ _ _ (t.line + 1)) []
    rw [← hlen, Function.update_self]
    exact Holds.nil (by decide) (Function.update_self _ _ _)
  · show RowsFrom _ _ t.below
    rw [hb]
    trivial
  · exact next_line h

theorem down_shows (h : Shows e t) : ∃ e', e.handleArrows keyDownArrow = some e' ∧ Kept e e' ∧
    Shows e' (lowerLine t) := by
  rw [Editor.handleArrows, if_neg (by decide), if_pos rfl, lowerLine]
  by_cases hb : t.below = []
  · rw [if_neg (not_not.mpr hb), if_neg ((last_iff h).mp hb)]
    by_cases hroom : t.lines.length < maxLines
    · obtain ⟨r, hr, hs⟩ := openLine_shows h hb hroom
      have hlt : e.lineCount < maxLines := by
        rw [h.count]
        exact Int.ofNat_lt.mpr hroom
      rw [if_pos ⟨h.last hb, hlt⟩, if_pos hroom]
      simp only [h.row_count hroom, Option.bind_eq_bind, Option.bind_some, hr,
        h.setRow_count hroom, Option.pure_def]
      exact ⟨_, rfl, ⟨rfl, rfl, rfl⟩, hs⟩
    · rw [if_neg hroom, if_neg]
      · exact ⟨e, rfl, .refl e, h⟩
      · rw [h.count]
        omega
  · rw [if_pos hb, if_pos (not_not.mp (mt (last_iff h).mpr hb))]
    obtain ⟨n, below, hb⟩ := List.exists_cons_of_ne_nil hb
    obtain ⟨-, -, hbelow⟩ := rowsFrom_lines.mp h.rows
    have hlt := h.below_lt
    rw [hb] at hbelow
    rw [hb, List.length_cons] at hlt
    rw [next_line h, toLine_eq (by omega) hbelow.1 h.col]
    refine ⟨_, rfl, ⟨rfl, rfl, rfl⟩, h.move (lines_down t) rfl rfl ?_ ?_⟩
    · rw [Text.down, hb]
      rfl
    · rw [Text.down, hb]
      rfl

theorem left_shows (h : Shows e t) : ∃ e', e.handleArrows keyLeftArrow = some e' ∧ Kept e e' ∧
    Shows e' (leftward t) := by
  rw [Editor.handleArrows, if_neg (by decide), if_neg (by decide), if_pos rfl, leftward]
  by_cases hl : t.left = []
  · rw [if_neg (not_not.mpr hl), if_neg (h.start hl)]
    cases ha : t.above with
    | nil =>
      rw [if_neg (h.first ha), Text.backUp, ha]
      exact ⟨e, rfl, .refl e, h⟩
    | cons p above =>
      obtain ⟨hline, hprev, -⟩ := h.previous ha
      have hlt := h.line_lt
      rw [Text.line, ha, List.length_cons] at hlt
      have hpred : e.cursorLine - 1 = (above.length : Int) := by omega
      rw [if_pos (by omega), hpred]
      simp only [row_eq (show above.length < maxLines by omega), Option.bind_eq_bind,
        Option.bind_some, strlen_eq hprev, Option.pure_def]
      refine ⟨_, rfl, ⟨rfl, rfl, rfl⟩, h.move (lines_backUp t) rfl rfl ?_ ?_⟩
      · rw [Text.backUp, ha]
        rfl
      · rw [Text.backUp, ha]
        rfl
  · have hpos := List.length_pos_iff.mpr hl
    have hcol : 0 < e.cursorCol := by
      rw [h.col, Text.col]
      omega
    rw [if_pos hl, if_pos hcol]
    refine ⟨_, rfl, ⟨rfl, rfl, rfl⟩, h.move (lines_back t) rfl rfl h.line ?_⟩
    rw [h.col]
    simp only [Text.back, Text.col, List.length_dropLast]
    omega

theorem right_shows (h : Shows e t) : ∃ e', e.handleArrows keyRightArrow = some e' ∧ Kept e e' ∧
    Shows e' (rightward t) := by
  have hcur := h.current
  have hlen := length_current t
  rw [Editor.handleArrows, if_neg (by decide), if_neg (by decide), if_neg (by decide), if_pos rfl,
    rightward]
  simp only [h.row, Option.bind_eq_bind, Option.bind_some, strlen_eq hcur, Option.pure_def]
  by_cases hr : t.right = []
  · rw [hr, List.length_nil] at hlen
    rw [if_neg (not_not.mpr hr), if_neg (by rw [h.col]; omega)]
    by_cases hb : t.below = []
    · rw [if_neg ((last_iff h).mp hb), Text.forthDown, hb]
      exact ⟨e, rfl, .refl e, h⟩
    · rw [if_pos (not_not.mp (mt (last_iff h).mpr hb))]
      obtain ⟨n, below, hb⟩ := List.exists_cons_of_ne_nil hb
      refine ⟨_, rfl, ⟨rfl, rfl, rfl⟩, h.move (lines_forthDown t) rfl rfl ?_ ?_⟩
      · rw [Text.forthDown, hb]
        exact next_line h
      · rw [Text.forthDown, hb]
        rfl
  · have hpos := List.length_pos_iff.mpr hr
    rw [if_pos hr, if_pos (by rw [h.col]; omega)]
    refine ⟨_, rfl, ⟨rfl, rfl, rfl⟩, h.move (lines_forth t) rfl rfl h.line ?_⟩
    rw [h.col]
    simp only [Text.forth, Text.col, List.length_append, List.length_take]
    omega

theorem handleArrows_shows (h : Shows e t) (sc : UInt8) :
    ∃ e', e.handleArrows sc = some e' ∧ Kept e e' ∧ Shows e' (arrow sc t) := by
  by_cases h₁ : sc = keyUpArrow
  · rw [arrow, if_pos h₁, h₁]
    exact up_shows h
  rw [arrow, if_neg h₁]
  by_cases h₂ : sc = keyDownArrow
  · rw [if_pos h₂, h₂]
    exact down_shows h
  rw [if_neg h₂]
  by_cases h₃ : sc = keyLeftArrow
  · rw [if_pos h₃, h₃]
    exact left_shows h
  rw [if_neg h₃]
  by_cases h₄ : sc = keyRightArrow
  · rw [if_pos h₄, h₄]
    exact right_shows h
  · rw [if_neg h₄, Editor.handleArrows, if_neg h₁, if_neg h₂, if_neg h₃, if_neg h₄]
    exact ⟨e, rfl, .refl e, h⟩

end

end ContinuumOS.TextEditor.Keys
