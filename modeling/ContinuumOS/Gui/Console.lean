import Mathlib.Tactic.Ring
import ContinuumOS.Gui.TextGrid

/-! # The terminal and the text of a window

`Terminal` of `src/kernel/vga.cpp` writes the characters that
`snapshot_put_char` writes into the text of a window, with its own line wrap,
scrolling and backspace. Fed with the same text the two keep the same grid and
the same position. -/
namespace ContinuumOS.Gui.Console
open ContinuumOS.Gui.TextGrid

/-- `Terminal::Cell` -/
structure Cell where
  character : UInt8
  color : UInt8
  deriving DecidableEq, Repr

/-- `Terminal`; `cells` ends at `vgaHeight` and `vgaWidth`, `buffer` is the text
memory, and `port` the position that the registers of the display hold. -/
structure Terminal where
  row : Nat
  column : Nat
  color : UInt8
  buffer : Nat → UInt16
  cells : Nat → Nat → Cell
  framebufferMode : Bool
  cursorRow : Nat
  cursorColumn : Nat
  cursorActive : Bool
  port : Nat

def makeEntry (uc entryColor : UInt8) : UInt16 := uc.toUInt16 ||| entryColor.toUInt16 <<< 8

/-- The value of a cell. -/
def Cell.entry (cell : Cell) : UInt16 := makeEntry cell.character cell.color

namespace Terminal

variable (t : Terminal)

/-- One cell, with the text memory where there is one. -/
def putentryAt (c entryColor : UInt8) (x y : Nat) : Terminal :=
  if vgaWidth ≤ x ∨ vgaHeight ≤ y then t
  else
    { t with
      cells := Function.update t.cells y (Function.update (t.cells y) x ⟨c, entryColor⟩)
      buffer := if t.framebufferMode then t.buffer else
        Function.update t.buffer (y * vgaWidth + x) (makeEntry c entryColor) }

def eraseCursor : Terminal :=
  if t.framebufferMode = false ∨ t.cursorActive = false then t else { t with cursorActive := false }

def drawCursor : Terminal :=
  if t.framebufferMode = false then t
  else if vgaWidth ≤ t.cursorColumn ∨ vgaHeight ≤ t.cursorRow then t
  else { t with cursorActive := true }

/-- The caret is drawn again, or the position written to the display as 16 bits. -/
def updateCursor : Terminal :=
  if t.framebufferMode then
    drawCursor { t.eraseCursor with cursorRow := t.row, cursorColumn := t.column }
  else { t with port := (t.row * vgaWidth + t.column) % 2 ^ 16 }

/-- The cells after `scroll`. -/
def scrolled : Nat → Nat → Cell :=
  Function.update (fun y => if y + 1 < vgaHeight then t.cells (y + 1) else t.cells y)
    (vgaHeight - 1) fun _ => ⟨blank, t.color⟩

/-- All cells written to the text memory. -/
def refreshBuffer : Terminal :=
  { t with buffer := if t.framebufferMode then t.buffer else fun i =>
      if i < vgaHeight * vgaWidth then (t.cells (i / vgaWidth) (i % vgaWidth)).entry
      else t.buffer i }

def scroll : Terminal :=
  updateCursor (refreshBuffer { t.eraseCursor with cells := t.scrolled })

def newLine : Terminal :=
  let t := { t with column := 0, row := t.row + 1 }
  updateCursor (if t.row = vgaHeight then { t.scroll with row := vgaHeight - 1 } else t)

/-- One character back; at the start of a row, to the end of the one above. -/
def back : Terminal :=
  if 0 < t.column then { t with column := t.column - 1 }
  else if 0 < t.row then { t with row := t.row - 1, column := vgaWidth - 1 }
  else t

/-- The character at the position. -/
def putHere (c : UInt8) : Terminal := t.putentryAt c t.color t.column t.row

/-- `'\b'` and `'\n'` are control characters. -/
def putchar (c : UInt8) : Terminal :=
  if c = 8 then updateCursor (t.back.putHere blank)
  else if c = 10 then t.newLine
  else
    let t := { t.putHere c with column := t.column + 1 }
    if t.column = vgaWidth then t.newLine else t.updateCursor

/-- The characters of a text, in order. -/
def write (text : List UInt8) : Terminal := text.foldl putchar t

def clear : Terminal :=
  let t := refreshBuffer { t.eraseCursor with cells := fun _ _ => ⟨blank, t.color⟩ }
  updateCursor { t with row := 0, column := 0 }

/-- `available` is what `framebuffer::is_available` tells. -/
def initializeTerminal (available : Bool) : Terminal :=
  updateCursor (refreshBuffer { t with
    row := 0, column := 0, cursorRow := 0, cursorColumn := 0, cursorActive := false
    color := defaultColor, framebufferMode := available
    cells := fun _ _ => ⟨blank, defaultColor⟩ })

end Terminal

/-- The terminal and the window show the same text at the same position. -/
structure Agrees (t : Terminal) (s : Snapshot) : Prop where
  text : ∀ y x, y < vgaHeight → x < vgaWidth → t.cells y x = ⟨s.characters y x, s.colors y x⟩
  row : t.row = s.row
  column : t.column = s.column
  color : t.color = s.color

/-- The caret of a window stands where the next character goes. -/
def CaretAt (s : Snapshot) : Prop := s.cursorRow = s.row ∧ s.cursorColumn = s.column

section

variable {t : Terminal} {s : Snapshot} {c : UInt8}

/-! ## What moving the caret leaves alone -/

/-- The terminals differ at most in the caret. -/
structure SameText (t t' : Terminal) : Prop where
  buffer : t'.buffer = t.buffer
  mode : t'.framebufferMode = t.framebufferMode
  cells : t'.cells = t.cells
  row : t'.row = t.row
  column : t'.column = t.column
  color : t'.color = t.color

theorem SameText.refl (t : Terminal) : SameText t t := ⟨rfl, rfl, rfl, rfl, rfl, rfl⟩

theorem SameText.trans {t' t'' : Terminal} (h : SameText t t') (h' : SameText t' t'') :
    SameText t t'' :=
  ⟨h'.buffer.trans h.buffer, h'.mode.trans h.mode, h'.cells.trans h.cells, h'.row.trans h.row,
    h'.column.trans h.column, h'.color.trans h.color⟩

theorem sameText_eraseCursor (t : Terminal) : SameText t t.eraseCursor := by
  rw [Terminal.eraseCursor]
  split
  · exact .refl t
  · exact ⟨rfl, rfl, rfl, rfl, rfl, rfl⟩

theorem sameText_drawCursor (t : Terminal) : SameText t t.drawCursor := by
  rw [Terminal.drawCursor]
  split
  · exact .refl t
  split
  · exact .refl t
  · exact ⟨rfl, rfl, rfl, rfl, rfl, rfl⟩

theorem sameText_updateCursor (t : Terminal) : SameText t t.updateCursor := by
  rw [Terminal.updateCursor]
  split
  · refine ((sameText_eraseCursor t).trans ?_).trans (sameText_drawCursor _)
    exact ⟨rfl, rfl, rfl, rfl, rfl, rfl⟩
  · exact ⟨rfl, rfl, rfl, rfl, rfl, rfl⟩

theorem Agrees.of_sameText {t' : Terminal} (h : Agrees t s) (ht : SameText t t') : Agrees t' s := by
  refine ⟨fun y x hy hx => ?_, ht.row.trans h.row, ht.column.trans h.column, ht.color.trans h.color⟩
  rw [ht.cells]
  exact h.text y x hy hx

theorem Agrees.updateCursor (h : Agrees t s) : Agrees t.updateCursor s :=
  h.of_sameText (sameText_updateCursor t)

/-! ## One operation -/

/-- The character at the position of a window. -/
def putHere (s : Snapshot) (c : UInt8) : Snapshot :=
  { s with
    characters := s.characters.put s.row s.column c
    colors := s.colors.put s.row s.column s.color }

/-- One character back in a window. -/
def back (s : Snapshot) : Snapshot :=
  if 0 < s.column then { s with column := s.column - 1 }
  else if 0 < s.row then { s with row := s.row - 1, column := vgaWidth - 1 }
  else s

theorem backspace_eq (s : Snapshot) (dirty : DirtyRegion) : (snapshotBackspace s dirty).1 =
    { putHere (back s) blank with
      cursorRow := (back s).row, cursorColumn := (back s).column, cursorActive := false } := rfl

theorem Agrees.putHere (h : Agrees t s) (hin : Inside s) (c : UInt8) :
    Agrees (t.putHere c) (putHere s c) := by
  have hbound : ¬ (vgaWidth ≤ t.column ∨ vgaHeight ≤ t.row) := by
    rw [h.row, h.column]
    exact not_or.mpr ⟨Nat.not_le.mpr hin.column, Nat.not_le.mpr hin.row⟩
  rw [Terminal.putHere, Terminal.putentryAt, if_neg hbound]
  refine ⟨fun y x hy hx => ?_, h.row, h.column, h.color⟩
  have htext := h.text y x hy hx
  simp only [Console.putHere, Grid.put, h.row, h.column, h.color]
  by_cases hrow : y = s.row
  · subst hrow
    rw [Function.update_self, Function.update_self, Function.update_self]
    by_cases hcolumn : x = s.column
    · subst hcolumn
      rw [Function.update_self, Function.update_self, Function.update_self]
    · rw [Function.update_of_ne hcolumn, Function.update_of_ne hcolumn,
        Function.update_of_ne hcolumn, htext]
  · rw [Function.update_of_ne hrow, Function.update_of_ne hrow, Function.update_of_ne hrow, htext]

theorem Agrees.back (h : Agrees t s) : Agrees t.back (back s) := by
  rw [Terminal.back, Console.back, h.row, h.column]
  by_cases hcolumn : 0 < s.column
  · rw [if_pos hcolumn, if_pos hcolumn]
    exact ⟨h.text, rfl, rfl, h.color⟩
  rw [if_neg hcolumn, if_neg hcolumn]
  by_cases hrow : 0 < s.row
  · rw [if_pos hrow, if_pos hrow]
    exact ⟨h.text, rfl, rfl, h.color⟩
  · rw [if_neg hrow, if_neg hrow]
    exact h

theorem agrees_scroll (h : ∀ y x, y < vgaHeight → x < vgaWidth →
      t.cells y x = ⟨s.characters y x, s.colors y x⟩) (hc : t.color = s.color)
    (hcol : t.column = 0) :
    Agrees { t.scroll with row := vgaHeight - 1 } (snapshotScroll s).1 := by
  have he := sameText_eraseCursor t
  have hs := sameText_updateCursor
    (Terminal.refreshBuffer { t.eraseCursor with cells := t.scrolled })
  refine ⟨fun y x hy hx => ?_, rfl, hs.column.trans (he.column.trans hcol),
    hs.color.trans (he.color.trans hc)⟩
  show t.scroll.cells y x = _
  rw [show t.scroll.cells = t.scrolled from hs.cells, Terminal.scrolled, hc]
  have hle : ¬ vgaHeight ≤ vgaHeight - 1 := by decide
  simp only [snapshotScroll, clearSnapshotRow, if_neg hle]
  by_cases hlast : y = vgaHeight - 1
  · subst hlast
    rw [Function.update_self, Function.update_self, Function.update_self]
  · have hup : y + 1 < vgaHeight := by omega
    rw [Function.update_of_ne hlast, Function.update_of_ne hlast, Function.update_of_ne hlast,
      Grid.up, Grid.up, if_pos hup, if_pos hup, if_pos hup]
    exact h (y + 1) x hup hx

theorem Agrees.newLine (h : Agrees t s) (hrow : s.row < vgaHeight) (dirty : DirtyRegion) :
    Agrees t.newLine (snapshotNewLine s dirty).1 := by
  rw [Terminal.newLine, snapshotNewLine]
  refine Agrees.updateCursor ?_
  simp only [h.row]
  by_cases hlast : s.row + 1 = vgaHeight
  · rw [if_pos hlast, if_pos (Nat.le_of_eq hlast.symm)]
    exact agrees_scroll h.text h.color rfl
  · rw [if_neg hlast, if_neg (by omega)]
    exact ⟨h.text, rfl, rfl, h.color⟩

/-- **One character has the same effect on both.** -/
theorem Agrees.putchar (h : Agrees t s) (hin : Inside s) (dirty : DirtyRegion) (hc : c ≠ 13) :
    Agrees (t.putchar c) (snapshotPutChar s dirty c).1 := by
  rw [Terminal.putchar, snapshotPutChar, if_neg hc]
  by_cases hback : c = 8
  · have hline : c ≠ 10 := by
      rw [hback]
      decide
    rw [if_pos hback, if_neg hline, if_pos hback, backspace_eq]
    have hin' := hin.backspace dirty
    obtain ⟨k₁, k₂, k₃, k₄⟩ := h.back.putHere ⟨hin'.row, hin'.column⟩ blank
    exact Agrees.updateCursor ⟨k₁, k₂, k₃, k₄⟩
  rw [if_neg hback]
  by_cases hline : c = 10
  · rw [if_pos hline, if_pos hline]
    exact h.newLine hin.row dirty
  rw [if_neg hline, if_neg hline, if_neg hback]
  obtain ⟨k₁, k₂, -, k₄⟩ := h.putHere hin c
  have hnext : Agrees { t.putHere c with column := s.column + 1 }
      { Console.putHere s c with column := s.column + 1 } := ⟨k₁, k₂, rfl, k₄⟩
  have hcol := hin.column
  simp only [h.column]
  by_cases hend : s.column + 1 = vgaWidth
  · rw [if_pos hend, if_pos (Nat.le_of_eq hend.symm)]
    exact hnext.newLine hin.row _
  · rw [if_neg hend, if_neg (by omega)]
    exact Agrees.updateCursor ⟨hnext.text, hnext.row, rfl, hnext.color⟩

theorem caretAt_newLine (s : Snapshot) (dirty : DirtyRegion) :
    CaretAt (snapshotNewLine s dirty).1 := by
  rw [snapshotNewLine]
  split <;> exact ⟨rfl, rfl⟩

theorem caretAt_putChar (s : Snapshot) (dirty : DirtyRegion) (c : UInt8) :
    CaretAt (snapshotPutChar s dirty c).1 := by
  rw [snapshotPutChar]
  split
  · exact ⟨rfl, rfl⟩
  split
  · exact caretAt_newLine s dirty
  split
  · exact ⟨rfl, rfl⟩
  · simp only
    split
    · exact caretAt_newLine _ _
    · exact ⟨rfl, rfl⟩

/-! ## A text -/

theorem Agrees.write (h : Agrees t s) (hin : Inside s) (dirty : DirtyRegion) {text : List UInt8}
    (hcr : 13 ∉ text) : Agrees (t.write text) (snapshotWrite s dirty text).1 := by
  rw [Terminal.write, snapshotWrite]
  induction text generalizing t s dirty with
  | nil => exact h
  | cons c text ih =>
    obtain ⟨hc, hcr⟩ := not_or.mp (mt List.mem_cons.mpr hcr)
    rw [List.foldl_cons, List.foldl_cons]
    exact ih (h.putchar hin dirty fun he => hc he.symm) (hin.putChar dirty c) _ hcr

theorem caretAt_write (s : Snapshot) (dirty : DirtyRegion) {text : List UInt8} (hne : text ≠ []) :
    CaretAt (snapshotWrite s dirty text).1 := by
  rw [← List.dropLast_concat_getLast hne, snapshotWrite, List.foldl_append]
  exact caretAt_putChar _ _ _

/-- **The two consoles agree.** From the same grid, color and position inside the
grid, the terminal and a window that are fed with the same text without carriage
returns show the same grid and position after every character, with the position
inside the grid and the caret of the window at it. -/
theorem consoles_agree (h : Agrees t s) (hin : Inside s) (dirty : DirtyRegion) (text : List UInt8)
    (hcr : 13 ∉ text) (n : Nat) :
    Agrees (t.write (text.take n)) (snapshotWrite s dirty (text.take n)).1 ∧
      Inside (snapshotWrite s dirty (text.take n)).1 ∧
      (text.take n ≠ [] → CaretAt (snapshotWrite s dirty (text.take n)).1) :=
  ⟨h.write hin dirty fun hm => hcr (List.mem_of_mem_take hm), hin.write dirty _,
    caretAt_write s dirty⟩

theorem agrees_initializeTerminal (t : Terminal) (available : Bool) :
    Agrees (t.initializeTerminal available) blankSnapshot := by
  have h : Agrees { t with
      row := 0, column := 0, cursorRow := 0, cursorColumn := 0, cursorActive := false
      color := defaultColor, framebufferMode := available
      cells := fun _ _ => ⟨blank, defaultColor⟩ } blankSnapshot :=
    ⟨fun _ _ _ _ => rfl, rfl, rfl, rfl⟩
  exact Agrees.updateCursor ⟨h.text, h.row, h.column, h.color⟩

/-- A letter, a new line and a backspace leave both at the end of the first row. -/
theorem consoles_agree_example :
    let t : Terminal := ⟨0, 0, 0, fun _ => 0, fun _ _ => ⟨0, 0⟩, false, 0, 0, false, 0⟩
    let s := (snapshotWrite blankSnapshot makeEmptyDirtyRegion [97, 10, 8]).1
    Agrees ((t.initializeTerminal false).write [97, 10, 8]) s ∧ CaretAt s ∧
      s.row = 0 ∧ s.column = 79 := by
  intro t s
  have h := consoles_agree (agrees_initializeTerminal t false) inside_blankSnapshot
    makeEmptyDirtyRegion [97, 10, 8] (by decide) 3
  exact ⟨h.1, h.2.2 (by decide), rfl, rfl⟩

end

end ContinuumOS.Gui.Console
