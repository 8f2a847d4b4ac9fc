import Mathlib.Logic.Function.Basic

/-! # The text of a window

`Terminal::Snapshot` of `include/kernel/vga.h` and what
`src/kernel/terminal_windows.cpp` writes to it: single characters with line
wrap, new lines, scrolling and backspace. Beside the text goes the interval of
rows that have to be drawn again. -/
namespace ContinuumOS.Gui.TextGrid

/-- `Terminal::VGA_WIDTH`, `Terminal::VGA_HEIGHT` -/
def vgaWidth : Nat := 80
def vgaHeight : Nat := 25

/-- A row and a column have their character; the array ends at `vgaHeight` and
`vgaWidth`. -/
abbrev Grid := Nat → Nat → UInt8

structure Snapshot where
  characters : Grid
  colors : Grid
  row : Nat
  column : Nat
  color : UInt8
  cursorRow : Nat
  cursorColumn : Nat
  cursorActive : Bool

/-- `Terminal::Snapshot{}` -/
def Snapshot.zero : Snapshot := ⟨fun _ _ => 0, fun _ _ => 0, 0, 0, 0, 0, 0, false⟩

structure DirtyRegion where
  minRow : Nat
  maxRow : Nat
  fullRefresh : Bool
  deriving DecidableEq, Repr

def makeEmptyDirtyRegion : DirtyRegion := ⟨vgaHeight, 0, false⟩

def dirtyRegionHasUpdates (region : DirtyRegion) : Bool :=
  region.fullRefresh || decide (region.minRow ≤ region.maxRow)

def markFullDirty : DirtyRegion := ⟨0, vgaHeight - 1, true⟩

def markRowDirty (region : DirtyRegion) (row : Nat) : DirtyRegion :=
  if region.fullRefresh ∨ vgaHeight ≤ row then region
  else if region.maxRow < region.minRow then { region with minRow := row, maxRow := row }
  else { region with minRow := min row region.minRow, maxRow := max row region.maxRow }

/-- One place of a grid. -/
def Grid.put (g : Grid) (row column : Nat) (v : UInt8) : Grid :=
  Function.update g row (Function.update (g row) column v)

/-- The blank `' '`. -/
def blank : UInt8 := 32

/-- `clear_snapshot_row` -/
def clearSnapshotRow (s : Snapshot) (dirty : DirtyRegion) (row : Nat) : Snapshot × DirtyRegion :=
  if vgaHeight ≤ row then (s, dirty)
  else ({ s with
      characters := Function.update s.characters row fun _ => blank
      colors := Function.update s.colors row fun _ => s.color }, markRowDirty dirty row)

/-- Every row takes the text of the next; the last keeps its own. -/
def Grid.up (g : Grid) : Grid := fun y => if y + 1 < vgaHeight then g (y + 1) else g y

/-- The whole text is dirty afterwards. -/
def snapshotScroll (s : Snapshot) : Snapshot × DirtyRegion :=
  let s := { s with characters := s.characters.up, colors := s.colors.up }
  let (s, dirty) := clearSnapshotRow s markFullDirty (vgaHeight - 1)
  ({ s with
      row := vgaHeight - 1, column := 0, cursorRow := vgaHeight - 1, cursorColumn := 0
      cursorActive := false }, dirty)

def snapshotNewLine (s : Snapshot) (dirty : DirtyRegion) : Snapshot × DirtyRegion :=
  let s := { s with column := 0, row := s.row + 1 }
  if vgaHeight ≤ s.row then snapshotScroll s
  else ({ s with cursorRow := s.row, cursorColumn := s.column }, dirty)

/-- One character back; at the start of a row, to the end of the one above. -/
def snapshotBackspace (s : Snapshot) (dirty : DirtyRegion) : Snapshot × DirtyRegion :=
  let s := if 0 < s.column then { s with column := s.column - 1 }
    else if 0 < s.row then { s with row := s.row - 1, column := vgaWidth - 1 }
    else s
  ({ s with
      characters := s.characters.put s.row s.column blank
      colors := s.colors.put s.row s.column s.color
      cursorRow := s.row, cursorColumn := s.column, cursorActive := false },
    markRowDirty dirty s.row)

/-- `'\r'`, `'\n'` and `'\b'` are control characters. -/
def snapshotPutChar (s : Snapshot) (dirty : DirtyRegion) (c : UInt8) : Snapshot × DirtyRegion :=
  if c = 13 then
    ({ s with column := 0, cursorColumn := 0, cursorRow := s.row, cursorActive := false }, dirty)
  else if c = 10 then snapshotNewLine s dirty
  else if c = 8 then snapshotBackspace s dirty
  else
    let dirty := markRowDirty dirty s.row
    let s := { s with
      characters := s.characters.put s.row s.column c
      colors := s.colors.put s.row s.column s.color
      column := s.column + 1 }
    if vgaWidth ≤ s.column then snapshotNewLine s dirty
    else ({ s with cursorRow := s.row, cursorColumn := s.column, cursorActive := false }, dirty)

def snapshotWrite (s : Snapshot) (dirty : DirtyRegion) (text : List UInt8) :
    Snapshot × DirtyRegion :=
  text.foldl (fun (s, dirty) c => snapshotPutChar s dirty c) (s, dirty)

/-- `make_color(VGA_COLOR_LIGHT_GREY, VGA_COLOR_BLACK)` -/
def defaultColor : UInt8 := 7

/-- What `build_blank_snapshot` builds. -/
def blankSnapshot : Snapshot :=
  ⟨fun _ _ => blank, fun _ _ => defaultColor, 0, 0, defaultColor, 0, 0, false⟩

/-! ## The position stays in the grid -/

/-- The place where the next character goes is one of the grid, so that no
write leaves the arrays. -/
structure Inside (s : Snapshot) : Prop where
  row : s.row < vgaHeight
  column : s.column < vgaWidth

theorem inside_blankSnapshot : Inside blankSnapshot := ⟨by decide, by decide⟩

variable {s : Snapshot}

theorem inside_scroll (s : Snapshot) : Inside (snapshotScroll s).1 :=
  ⟨(by decide : vgaHeight - 1 < vgaHeight), (by decide : 0 < vgaWidth)⟩

theorem inside_newLine (s : Snapshot) (dirty : DirtyRegion) :
    Inside (snapshotNewLine s dirty).1 := by
  rw [snapshotNewLine]
  split
  · exact inside_scroll _
  · rename_i hrow
    exact ⟨Nat.lt_of_not_le hrow, (by decide : 0 < vgaWidth)⟩

theorem Inside.backspace (h : Inside s) (dirty : DirtyRegion) :
    Inside (snapshotBackspace s dirty).1 := by
  have hrow := h.row
  have hcolumn := h.column
  simp only [snapshotBackspace]
  split
  · exact ⟨hrow, Nat.lt_of_le_of_lt (Nat.sub_le _ _) hcolumn⟩
  split
  · exact ⟨Nat.lt_of_le_of_lt (Nat.sub_le _ _) hrow, (by decide : vgaWidth - 1 < vgaWidth)⟩
  · exact ⟨hrow, hcolumn⟩

theorem Inside.putChar (h : Inside s) (dirty : DirtyRegion) (c : UInt8) :
    Inside (snapshotPutChar s dirty c).1 := by
  rw [snapshotPutChar]
  split
  · exact ⟨h.row, (by decide : 0 < vgaWidth)⟩
  split
  · exact inside_newLine s dirty
  split
  · exact h.backspace dirty
  · simp only
    split
    · exact inside_newLine _ _
    · rename_i hcolumn
      exact ⟨h.row, Nat.lt_of_not_le hcolumn⟩

/-- **However long the text, the position stays in the grid.** -/
theorem Inside.write (h : Inside s) (dirty : DirtyRegion) (text : List UInt8) :
    Inside (snapshotWrite s dirty text).1 := by
  rw [snapshotWrite]
  induction text generalizing s dirty with
  | nil => exact h
  | cons c text ih =>
    rw [List.foldl_cons]
    exact ih (h.putChar dirty c) _

end ContinuumOS.Gui.TextGrid
