import ContinuumOS.Gui.Clicks
import ContinuumOS.Gui.MouseCursor

/-! # Redrawing what changed

A window keeps the interval of rows that changed since it was drawn. Drawing these
rows and the caret gives the picture that drawing the whole contents would: rows
outside the interval show what they did. -/
namespace ContinuumOS.Gui.Redraw
open ContinuumOS.Lib.Layers ContinuumOS.Gui.TextGrid ContinuumOS.Gui.Geometry
open ContinuumOS.Gui.Framebuffer ContinuumOS.Gui.DoubleBuffer ContinuumOS.Gui.Pixels
open ContinuumOS.Gui.Windows ContinuumOS.Gui.Drawing ContinuumOS.Gui.Picture
open ContinuumOS.Gui.MouseCursor (Screen suspendMouseCursor resumeMouseCursor Readable
  restoreCursorBackground)

/-- The screen with the mouse cursor on it, and the windows. -/
structure Workspace where
  screen : Screen
  windows : WindowState

def beginWindowRedraw (s : Screen) : Screen := suspendMouseCursor s

def endWindowRedraw (s : Screen) : Screen :=
  resumeMouseCursor { s with framebuffer := s.framebuffer.present }

variable (looks : Looks) (opened : Workspace → UInt32 → Workspace) (d : Workspace)

/-- What `present_window_slot` draws. -/
def dirtyCalls (f : Framebuffer) (w : WindowState) (window : Window) : List Call :=
  if window.dirty.fullRefresh then drawAllContents looks f w window true
  else drawSnapshotContents looks f w window true window.dirty.minRow window.dirty.maxRow

def presentWindowSlot (slot : Nat) : Workspace :=
  let w := d.windows
  if windowSlotValid w slot && dirtyRegionHasUpdates (w.windows slot).dirty then
    if w.activeSlot ≠ slot then { d with windows := renderWindow w slot }
    else
      let s := beginWindowRedraw d.screen
      let s := { s with
        framebuffer := s.framebuffer.run (dirtyCalls looks s.framebuffer w (w.windows slot)) }
      ⟨endWindowRedraw s, renderWindow w slot⟩
  else d

def windowPresent (proc : UInt32) : Workspace :=
  (findWindowIndex d.windows proc).elim d (presentWindowSlot looks d)

/-- `text` is `none` for a null pointer. A window that is missing is `opened`; without
a process or a framebuffer the text goes to the terminal. -/
def writeText (proc : UInt32) (text : Option (List UInt8)) : Workspace :=
  text.elim d fun text =>
    let fb := screenOf d.screen.framebuffer
    if text = [] then d
    else if proc = 0 ∨ fb.available = false then d
    else
      let d := { d with windows := buildBlankSnapshot (ensureGeometry fb d.windows) }
      let d := if findWindowIndex d.windows proc = none then opened d proc else d
      (findWindowIndex d.windows proc).elim d fun slot =>
        let w := setWindow d.windows slot (writeWindow (d.windows.windows slot) text)
        let d := { d with windows := w }
        if (slot : Int) = w.activeSlot then windowPresent looks d proc else d

/-- The calls that a process makes for its window. -/
inductive Act where
  | writeText (text : Option (List UInt8))
  | windowPutChar (x y : Nat) (ch color : UInt8)
  | windowSetCursor (row column : Nat) (active : Bool)
  | windowPresent

def step (proc : UInt32) (d : Workspace) : Act → Workspace
  | .writeText text => writeText looks opened d proc text
  | .windowPutChar x y ch color =>
    { d with windows := Windows.windowPutChar d.windows proc x y ch color }
  | .windowSetCursor row column active =>
    { d with windows := Windows.windowSetCursor d.windows proc row column active }
  | .windowPresent => windowPresent looks d proc

/-- Drawing the whole contents of the window would change nothing that is seen. -/
def Pictured (f : Framebuffer) (w : WindowState) (window : Window) : Prop :=
  ∀ p, OnScreen f p → shown (f.run (drawAllContents looks f w window true)) p = shown f p

/-- The screen, under the mouse cursor, shows what drawing the whole contents would. -/
def Shows (slot : Nat) : Prop :=
  Pictured looks (suspendMouseCursor d.screen).framebuffer d.windows (d.windows.windows slot)

/-- The window of a process is the active one, and lies in a frame that does not wrap,
on a framebuffer whose pixels are read back. -/
structure Focused (proc : UInt32) (slot : Nat) (d : Workspace) : Prop where
  found : findWindowIndex d.windows proc = some slot
  active : d.windows.activeSlot = slot
  ready : d.windows.geometryReady = true
  offsets : Offsets d.windows
  snug : Snug (d.windows.windows slot)
  valid : Valid (suspendMouseCursor d.screen).framebuffer
  readable : Readable (suspendMouseCursor d.screen).framebuffer

/-- The calls that present the window. -/
def Presents : Act → Prop
  | .writeText text => ∃ text', text = some text' ∧ text' ≠ []
  | .windowPresent => True
  | _ => False

/-- A row that is not marked. -/
def Clean (region : DirtyRegion) (row : Nat) : Prop :=
  region.fullRefresh = false ∧ ¬ (region.minRow ≤ row ∧ row ≤ region.maxRow)

/-- The column of the caret, in its row. -/
def caretIn (s : Snapshot) (row : Nat) : Option Nat :=
  if s.cursorActive = true ∧ s.cursorRow = row then some s.cursorColumn else none

/-- A row of the grid has the same text. -/
def SameText (s s' : Snapshot) (row : Nat) : Prop :=
  s'.characters row = s.characters row ∧ s'.colors row = s.colors row

/-- Rows that are not marked are as they were. -/
def UpToDate (s s' : Snapshot) (dirty : DirtyRegion) : Prop :=
  ∀ row < vgaHeight, Clean dirty row → SameText s s' row ∧ caretIn s' row = caretIn s row

section

variable {s s' : Snapshot} {dirty : DirtyRegion} {row : Nat}

/-! ## Marking -/

theorem clean_markRowDirty {marked : Nat} (hrow : row < vgaHeight)
    (h : Clean (markRowDirty dirty marked) row) : Clean dirty row ∧ row ≠ marked := by
  rw [markRowDirty] at h
  split at h
  · rename_i hskip
    rcases hskip with hfull | hout
    · exact absurd (h.1.symm.trans hfull) Bool.false_ne_true
    · exact ⟨h, by omega⟩
  split at h
  · rename_i hempty
    obtain ⟨hfull, hout⟩ := h
    dsimp only at hfull hout
    exact ⟨⟨hfull, by omega⟩, by omega⟩
  · obtain ⟨hfull, hout⟩ := h
    dsimp only at hfull hout
    exact ⟨⟨hfull, by omega⟩, by omega⟩

theorem not_clean_full (row : Nat) : ¬ Clean markFullDirty row :=
  fun h => absurd h.1.symm Bool.false_ne_true

theorem put_of_ne (g : Grid) {row' : Nat} (column : Nat) (v : UInt8) (h : row ≠ row') :
    g.put row' column v row = g row := Function.update_of_ne h ..

/-- What is written leaves the rows that are not marked. -/
def Marks (s : Snapshot) (dirty : DirtyRegion) (after : Snapshot × DirtyRegion) : Prop :=
  ∀ row < vgaHeight, Clean after.2 row → Clean dirty row ∧ SameText s after.1 row

theorem Marks.trans {after after' : Snapshot × DirtyRegion} (h : Marks s dirty after)
    (h' : Marks after.1 after.2 after') : Marks s dirty after' := by
  intro row hrow hclean
  obtain ⟨hmid, hsame'⟩ := h' row hrow hclean
  obtain ⟨hold, hsame⟩ := h row hrow hmid
  exact ⟨hold, hsame'.1.trans hsame.1, hsame'.2.trans hsame.2⟩

theorem marks_same {s' : Snapshot} (hc : s'.characters = s.characters)
    (hcolors : s'.colors = s.colors) : Marks s dirty (s', dirty) :=
  fun _ _ hclean => ⟨hclean, by rw [hc], by rw [hcolors]⟩

theorem marks_full (s' : Snapshot) : Marks s dirty (s', markFullDirty) :=
  fun row _ hclean => absurd hclean (not_clean_full row)

theorem marks_put {s' : Snapshot} {written column : Nat} {v v' : UInt8}
    (hc : s'.characters = s.characters.put written column v)
    (hcolors : s'.colors = s.colors.put written column v') :
    Marks s dirty (s', markRowDirty dirty written) := by
  intro row hrow hclean
  obtain ⟨hold, hne⟩ := clean_markRowDirty hrow hclean
  exact ⟨hold, by rw [hc, put_of_ne _ _ _ hne], by rw [hcolors, put_of_ne _ _ _ hne]⟩

theorem newLine_marks (s : Snapshot) (dirty : DirtyRegion) :
    Marks s dirty (snapshotNewLine s dirty) := by
  rw [snapshotNewLine]
  dsimp only
  split
  · rw [snapshotScroll]
    dsimp only
    rw [clearSnapshotRow, if_neg (by decide)]
    exact marks_full _
  · exact marks_same rfl rfl

theorem backspace_marks (s : Snapshot) (dirty : DirtyRegion) :
    Marks s dirty (snapshotBackspace s dirty) := by
  rw [snapshotBackspace]
  split
  · exact marks_put rfl rfl
  split
  · exact marks_put rfl rfl
  · exact marks_put rfl rfl

theorem putChar_marks (s : Snapshot) (dirty : DirtyRegion) (c : UInt8) :
    Marks s dirty (snapshotPutChar s dirty c) := by
  rw [snapshotPutChar]
  split
  · exact marks_same rfl rfl
  split
  · exact newLine_marks s dirty
  split
  · exact backspace_marks s dirty
  dsimp only
  have hput : Marks s dirty ({ s with
      characters := s.characters.put s.row s.column c
      colors := s.colors.put s.row s.column s.color
      column := s.column + 1 }, markRowDirty dirty s.row) := marks_put rfl rfl
  split
  · exact hput.trans (newLine_marks _ _)
  · exact hput.trans (marks_same rfl rfl)

/-- **Whatever text is written, the rows it changes are marked.** -/
theorem write_marks (text : List UInt8) (s : Snapshot) (dirty : DirtyRegion) :
    Marks s dirty (snapshotWrite s dirty text) := by
  rw [snapshotWrite]
  induction text generalizing s dirty with
  | nil => exact marks_same rfl rfl
  | cons c text ih =>
    rw [List.foldl_cons]
    exact (putChar_marks s dirty c).trans (ih _ _)

/-! ## The caret -/

theorem caretIn_of_ne (h : s.cursorActive = true → row ≠ s.cursorRow) : caretIn s row = none :=
  if_neg fun hon => h hon.1 hon.2.symm

theorem UpToDate.refl (s : Snapshot) (dirty : DirtyRegion) : UpToDate s s dirty :=
  fun _ _ _ => ⟨⟨rfl, rfl⟩, rfl⟩

theorem UpToDate.write {window : Window} (h : UpToDate s window.snapshot window.dirty)
    (text : List UInt8) :
    UpToDate s (writeWindow window text).snapshot (writeWindow window text).dirty := by
  have hmarks := write_marks text window.snapshot (if window.snapshot.cursorActive then
    markRowDirty window.dirty window.snapshot.cursorRow else window.dirty)
  rw [writeWindow]
  generalize snapshotWrite window.snapshot (if window.snapshot.cursorActive = true then
    markRowDirty window.dirty window.snapshot.cursorRow else window.dirty) text = after at hmarks
  intro row hrow hclean
  dsimp only at hclean ⊢
  obtain ⟨hclean, hnew⟩ := clean_markRowDirty hrow hclean
  obtain ⟨hclean, htext⟩ := hmarks row hrow hclean
  have hold : Clean window.dirty row ∧ (window.snapshot.cursorActive = true →
      row ≠ window.snapshot.cursorRow) := by
    split at hclean
    · obtain ⟨hold, hne⟩ := clean_markRowDirty hrow hclean
      exact ⟨hold, fun _ => hne⟩
    · rename_i hoff
      exact ⟨hclean, fun hon => absurd hon hoff⟩
  obtain ⟨hsame, hcaret⟩ := h row hrow hold.1
  refine ⟨⟨htext.1.trans hsame.1, htext.2.trans hsame.2⟩, ?_⟩
  rw [← hcaret, caretIn_of_ne hold.2, caretIn_of_ne fun _ => hnew]

theorem UpToDate.putChar (h : UpToDate s s' dirty) (x y : Nat) (ch color : UInt8) :
    UpToDate s { s' with
      characters := s'.characters.put y x ch, colors := s'.colors.put y x color }
      (markRowDirty dirty y) := by
  intro row hrow hclean
  obtain ⟨hold, hne⟩ := clean_markRowDirty hrow hclean
  obtain ⟨hsame, hcaret⟩ := h row hrow hold
  exact ⟨⟨(put_of_ne _ _ _ hne).trans hsame.1, (put_of_ne _ _ _ hne).trans hsame.2⟩, hcaret⟩

theorem UpToDate.setCursor (h : UpToDate s s' dirty) (row column : Nat) (active : Bool) :
    UpToDate s { s' with cursorRow := row, cursorColumn := column, cursorActive := active }
      (if active then markRowDirty (if s'.cursorActive = true ∧ s'.cursorRow < vgaHeight then
          markRowDirty dirty s'.cursorRow else dirty) row
        else if s'.cursorActive = true ∧ s'.cursorRow < vgaHeight then
          markRowDirty dirty s'.cursorRow else dirty) := by
  intro i hi hclean
  have hnew : Clean (if s'.cursorActive = true ∧ s'.cursorRow < vgaHeight then
      markRowDirty dirty s'.cursorRow else dirty) i ∧ (active = true → i ≠ row) := by
    cases active with
    | true =>
      obtain ⟨hold, hne⟩ := clean_markRowDirty hi hclean
      exact ⟨hold, fun _ => hne⟩
    | false => exact ⟨hclean, fun hon => absurd hon Bool.false_ne_true⟩
  have hold : Clean dirty i ∧ (s'.cursorActive = true → i ≠ s'.cursorRow) := by
    obtain ⟨hclean, -⟩ := hnew
    split at hclean
    · obtain ⟨hold, hne⟩ := clean_markRowDirty hi hclean
      exact ⟨hold, fun _ => hne⟩
    · rename_i hout
      refine ⟨hclean, fun hon => ?_⟩
      have hrow : ¬ s'.cursorRow < vgaHeight := fun hlt => hout ⟨hon, hlt⟩
      omega
  obtain ⟨hsame, hcaret⟩ := h i hi hold.1
  refine ⟨hsame, ?_⟩
  rw [← hcaret, caretIn_of_ne hold.2]
  exact caretIn_of_ne hnew.2

end

section

variable {looks : Looks} {f : Framebuffer} {w : WindowState} {window window' : Window}
  {p : UInt32 × UInt32} {row : Nat}

theorem snug_showing (hs : Snug window) (old : Snapshot) : Snug { window with snapshot := old } :=
  ⟨⟨hs.legal.columns, hs.legal.rows, hs.legal.width, hs.legal.height⟩, hs.contentWidth,
    hs.contentHeight, hs.right, hs.bottom⟩

/-! ## The rows of the contents -/

/-- A pixel of a row of cells. -/
def InRow (window : Window) (row : Nat) (p : UInt32 × UInt32) : Prop :=
  window.frameY.toNat + (26 + row * 16) ≤ p.2.toNat ∧
    p.2.toNat < window.frameY.toNat + (26 + row * 16) + 16

theorem inRow_unique {row' : Nat} (h : InRow window row p) (h' : InRow window row' p) :
    row = row' := by
  obtain ⟨h₁, h₂⟩ := h
  obtain ⟨h₃, h₄⟩ := h'
  omega

theorem drawRow_inRow (hs : Snug window) (hoff : Offsets w) (hrow : row < window.visibleRows.toNat)
    (hink : overlay inkOf (drawRow looks f w window (maxCols window) row) p ≠ none) :
    InRow window row p := by
  have hbottom := hs.bottom
  have hright := hs.right
  obtain ⟨hX, hY⟩ := hs.cell hoff
  obtain ⟨hwidth, hheight, -⟩ := hs.sizes
  have hcell := hY row hrow
  have htall : fontHeight.toNat = 16 := rfl
  have hfont : fontWidth.toNat = 8 := rfl
  by_contra hout
  refine hink (overlay_eq_none.mpr fun call hcall => ?_)
  obtain ⟨col, hmem, hcall⟩ := List.mem_flatMap.mp hcall
  have hcol := List.mem_range.mp ((List.takeWhile_subset _) hmem)
  have hcols : col < window.visibleColumns.toNat := Nat.lt_of_lt_of_le hcol (Nat.min_le_left _ _)
  have hplace := hX col hcols
  have hmiss : ¬ inRect (cellX w window col) (cellY w window row) fontWidth fontHeight p.1 p.2 := by
    intro hin
    obtain ⟨-, -, htop, hend⟩ := (inRect_iff (by omega) (by omega)).mp hin
    exact hout ⟨by omega, by omega⟩
  simp only [drawCell, List.mem_cons, List.not_mem_nil, or_false] at hcall
  rcases hcall with rfl | rfl
  · exact if_neg hmiss
  · exact if_neg hmiss

/-- What the caret at a column of a row shows. -/
def caretInk (f : Framebuffer) (w : WindowState) (window : Window) (row : Nat)
    (p : UInt32 × UInt32) (column : Nat) : Option UInt32 :=
  if column < window.visibleColumns.toNat then
    inkOf (rect (cellX w window column) (cellY w window row) 2 fontHeight
      (f.packColor 240 240 255)) p
  else none

theorem drawCaret_row (hs : Snug window) (hoff : Offsets w) (hrow : row < window.visibleRows.toNat)
    (hp : InRow window row p) : overlay inkOf (drawCaret f w window true) p =
      (caretIn window.snapshot row).bind (caretInk f w window row p) := by
  have hbottom := hs.bottom
  have hright := hs.right
  obtain ⟨hX, hY⟩ := hs.cell hoff
  obtain ⟨hwidth, hheight, -⟩ := hs.sizes
  have htall : fontHeight.toNat = 16 := rfl
  have htwo : (2 : UInt32).toNat = 2 := rfl
  by_cases hcaret : window.snapshot.cursorActive = true ∧ window.snapshot.cursorRow = row
  · have hin : caretIn window.snapshot row = some window.snapshot.cursorColumn := if_pos hcaret
    obtain ⟨hactive, rfl⟩ := hcaret
    rw [hin, Option.bind_some, caretInk, drawCaret]
    by_cases hcol : window.snapshot.cursorColumn < window.visibleColumns.toNat
    · rw [if_pos ⟨rfl, hactive, hrow, hcol⟩, if_pos hcol, overlay_singleton]
    · rw [if_neg (fun h => hcol h.2.2.2), if_neg hcol, overlay_nil]
  · have hout : caretIn window.snapshot row = none := if_neg hcaret
    rw [hout, Option.bind_none, drawCaret]
    split
    · rename_i hon
      obtain ⟨-, hactive, hcursor, hcol⟩ := hon
      have hcell := hY _ hcursor
      have hplace := hX _ hcol
      rw [overlay_singleton]
      refine if_neg fun hin => hcaret ⟨hactive, ?_⟩
      obtain ⟨-, -, htop, hend⟩ := (inRect_iff (by omega) (by omega)).mp hin
      exact inRow_unique ⟨by omega, by omega⟩ hp
    · rfl

/-- Rows and the caret are drawn from the text of the row and the column of the caret. -/
theorem drawRow_congr (hcells : window'.snapshot.characters row = window.snapshot.characters row ∧
      window'.snapshot.colors row = window.snapshot.colors row)
    (hx : window'.frameX = window.frameX) (hy : window'.frameY = window.frameY) (n : Nat) :
    drawRow looks f w window' n row = drawRow looks f w window n row := by
  have hcell : drawCell looks f w window' row = drawCell looks f w window row := by
    funext col
    rw [drawCell, drawCell, hcells.1, hcells.2, cellX, cellX, cellY, cellY, contentOriginX,
      contentOriginX, contentOriginY, contentOriginY, hx, hy]
  have hcolumn : ∀ col, cellX w window' col = cellX w window col := by
    intro col
    rw [cellX, cellX, contentOriginX, contentOriginX, hx]
  rw [drawRow, drawRow, hcell]
  simp only [hcolumn]

theorem drawCaret_congr (hcaret : caretIn window'.snapshot row = caretIn window.snapshot row)
    (hx : window'.frameX = window.frameX) (hy : window'.frameY = window.frameY)
    (hcolumns : window'.visibleColumns = window.visibleColumns) :
    (caretIn window'.snapshot row).bind (caretInk f w window' row p) =
      (caretIn window.snapshot row).bind (caretInk f w window row p) := by
  have hink : caretInk f w window' row p = caretInk f w window row p := by
    funext column
    rw [caretInk, caretInk, hcolumns, cellX, cellX, cellY, cellY, contentOriginX, contentOriginX,
      contentOriginY, contentOriginY, hx, hy]
  rw [hcaret, hink]

theorem mem_takeWhile_range' {q : Nat → Bool} {n a : Nat}
    (hdown : ∀ i j, i ≤ j → j < a + n → q j = true → q i = true) (i : Nat) :
    i ∈ (List.range' a n).takeWhile q ↔ (a ≤ i ∧ i < a + n) ∧ q i = true := by
  induction n generalizing a with
  | zero =>
    refine ⟨fun h => absurd h List.not_mem_nil, fun h => ?_⟩
    omega
  | succ n ih =>
    rw [List.range'_succ, List.takeWhile_cons]
    split
    · rename_i hq
      rw [List.mem_cons, ih fun i j hle hlt => hdown i j hle (by omega)]
      constructor
      · rintro (rfl | h)
        · exact ⟨by omega, hq⟩
        · exact ⟨by omega, h.2⟩
      · rintro ⟨h, hi⟩
        by_cases he : i = a
        · exact .inl he
        · exact .inr ⟨by omega, hi⟩
    · rename_i hq
      refine ⟨fun h => absurd h List.not_mem_nil, fun h => ?_⟩
      exact absurd (hdown a i h.1.1 h.1.2 h.2) hq

/-- **A row shows the caret over its cells**, if it is among the rows that are drawn;
the caret is drawn with any rows. -/
theorem contents_row (hs : Snug window) (hoff : Offsets w) (havailable : f.available = true)
    (hon : OnScreen f p) (hrow : row < maxRows window) (hp : InRow window row p)
    (startRow endRow : Nat) :
    overlay inkOf (drawSnapshotContents looks f w window true startRow endRow) p =
      if startRow < maxRows window ∧ startRow ≤ endRow then
        ((caretIn window.snapshot row).bind (caretInk f w window row p)).or
          (if startRow ≤ row ∧ row ≤ endRow then
            overlay inkOf (drawRow looks f w window (maxCols window) row) p else none)
      else none := by
  have hbottom := hs.bottom
  obtain ⟨-, hY⟩ := hs.cell hoff
  obtain ⟨hwidth, hheight, hmin, hmax, hlow, hhigh⟩ := hs.sizes
  have hrows : maxRows window = window.visibleRows.toNat := Nat.min_eq_left hhigh
  have hcols : maxCols window = window.visibleColumns.toNat := Nat.min_eq_left hmax
  have hsome : ¬ (window.visibleRows = 0 ∨ window.visibleColumns = 0) := by
    rintro (hzero | hzero)
    · rw [hzero, UInt32.toNat_zero] at hlow
      omega
    · rw [hzero, UInt32.toNat_zero] at hmin
      omega
  rw [drawSnapshotContents, if_neg (by rw [havailable]; decide), if_neg hsome,
    if_neg (by rw [hrows, hcols]; omega)]
  by_cases hstart : maxRows window ≤ startRow
  · rw [if_pos hstart, if_neg (by omega)]
    rfl
  rw [if_neg hstart]
  dsimp only
  generalize hlast : (if maxRows window ≤ endRow then maxRows window - 1 else endRow) = last
  have hlast : last = min endRow (maxRows window - 1) := by
    rw [← hlast]
    split
    · omega
    · omega
  by_cases hempty : last < startRow
  · rw [if_pos hempty, if_neg (by omega)]
    rfl
  rw [if_neg hempty, if_pos (by omega), overlay_append,
    drawCaret_row hs hoff (hrows ▸ hrow) hp, overlay_flatMap]
  congr 1
  -- the rows above the border are those whose first line is on the screen
  have hcell : ∀ i ≤ last, (cellY w window i).toNat = window.frameY.toNat + (26 + i * 16) :=
    fun i hi => hY i (by omega)
  have hvisited : ∀ i, i ∈ (List.range' startRow (last + 1 - startRow)).takeWhile
      (fun row => decide (cellY w window row < f.info.height)) ↔
      (startRow ≤ i ∧ i < startRow + (last + 1 - startRow)) ∧
        decide (cellY w window i < f.info.height) = true := by
    refine mem_takeWhile_range' fun i j hle hlt hj => ?_
    have hi := hcell i (by omega)
    have hj' := hcell j (by omega)
    rw [decide_eq_true_eq, lt_iff] at hj ⊢
    omega
  have hinRow : ∀ i ≤ last, overlay inkOf (drawRow looks f w window (maxCols window) i) p ≠ none →
      i = row := by
    intro i hi hne
    exact inRow_unique (drawRow_inRow hs hoff (by omega) hne) hp
  have hlast' : row ≤ endRow ↔ row ≤ last := by omega
  refine Option.ext fun color => ?_
  rw [overlay_eq_some_of_unique]
  · constructor
    · rintro ⟨i, hi, hcolor⟩
      obtain ⟨hbounds, -⟩ := (hvisited i).mp hi
      obtain rfl := hinRow i (by omega) (by rw [hcolor]; exact Option.some_ne_none color)
      rw [if_pos ⟨hbounds.1, by omega⟩]
      exact hcolor
    · intro hcolor
      split at hcolor
      · rename_i hbounds
        have hfirst := hcell row (by omega)
        have hline := lt_iff.mp hon.2
        refine ⟨row, (hvisited row).mpr ⟨by omega, ?_⟩, hcolor⟩
        rw [decide_eq_true_eq, lt_iff]
        obtain ⟨htop, -⟩ := hp
        omega
      · cases hcolor
  · intro i hi j hj hne hne'
    obtain ⟨hi, -⟩ := (hvisited i).mp hi
    obtain ⟨hj, -⟩ := (hvisited j).mp hj
    exact (hinRow i (by omega) hne).trans (hinRow j (by omega) hne').symm

theorem contents_inRow (hs : Snug window) (hoff : Offsets w) {startRow endRow : Nat}
    (hink : overlay inkOf (drawSnapshotContents looks f w window true startRow endRow) p ≠ none) :
    ∃ row < maxRows window, InRow window row p := by
  have hbottom := hs.bottom
  have hright := hs.right
  obtain ⟨hX, hY⟩ := hs.cell hoff
  obtain ⟨hwidth, hheight, hmin, hmax, hlow, hhigh⟩ := hs.sizes
  have hrows : maxRows window = window.visibleRows.toNat := Nat.min_eq_left hhigh
  have htall : fontHeight.toNat = 16 := rfl
  have htwo : (2 : UInt32).toNat = 2 := rfl
  by_contra hnone
  refine hink (overlay_eq_none.mpr fun call hcall => ?_)
  rw [drawSnapshotContents] at hcall
  split at hcall
  · cases hcall
  split at hcall
  · cases hcall
  split at hcall
  · cases hcall
  split at hcall
  · cases hcall
  rename_i hstart
  have hend : (if maxRows window ≤ endRow then maxRows window - 1 else endRow) < maxRows window := by
    split
    · omega
    · omega
  generalize (if maxRows window ≤ endRow then maxRows window - 1 else endRow) = last at hcall hend
  dsimp only at hcall
  split at hcall
  · cases hcall
  rcases List.mem_append.mp hcall with hcall | hcall
  · obtain ⟨row, hmem, hcall⟩ := List.mem_flatMap.mp hcall
    obtain ⟨hfirst, hlast⟩ := List.mem_range'_1.mp ((List.takeWhile_subset _) hmem)
    by_contra hne
    refine hnone ⟨row, by omega, @drawRow_inRow looks f w window p row hs hoff (by omega)
      fun hnothing => ?_⟩
    exact hne (overlay_eq_none.mp hnothing call hcall)
  · rw [drawCaret] at hcall
    split at hcall
    · rename_i hon
      obtain ⟨-, -, hrow, hcol⟩ := hon
      have hcell := hY _ hrow
      have hplace := hX _ hcol
      obtain rfl := List.mem_singleton.mp hcall
      refine if_neg fun hin => hnone ⟨window.snapshot.cursorRow, by omega, ?_⟩
      obtain ⟨-, -, htop, hlast⟩ := (inRect_iff (by omega) (by omega)).mp hin
      exact ⟨by omega, by omega⟩
    · cases hcall

/-- **A row that is not marked looks as it did.** -/
theorem clean_row (hs : Snug window) (hoff : Offsets w) (havailable : f.available = true)
    (hon : OnScreen f p) (hrow : row < maxRows window) (hp : InRow window row p) {old : Snapshot}
    (htext : SameText old window.snapshot row)
    (hcaret : caretIn window.snapshot row = caretIn old row) :
    overlay inkOf (drawAllContents looks f w window true) p =
      overlay inkOf (drawAllContents looks f w { window with snapshot := old } true) p := by
  have hs' := snug_showing hs old
  have hnew := @contents_row looks f w window p row hs hoff havailable hon hrow hp 0 (vgaHeight - 1)
  have hold := @contents_row looks f w { window with snapshot := old } p row hs' hoff havailable hon
    hrow hp 0 (vgaHeight - 1)
  have hcells := @drawRow_congr looks f w { window with snapshot := old } window row
    htext rfl rfl (maxCols window)
  have hcarets := @drawCaret_congr f w { window with snapshot := old } window p row hcaret rfl rfl
    rfl
  rw [drawAllContents, drawAllContents, hnew, hold, hcarets, hcells]
  rfl

/-! ## Presenting -/

theorem contents_calls (hs : Snug window) (hoff : Offsets w) (startRow endRow : Nat) :
    ∀ call ∈ drawSnapshotContents looks f w window true startRow endRow,
      ∃ window, Snug window ∧ Within window call :=
  fun call hcall => ⟨window, hs, drawSnapshotContents_within hs hoff true _ _ call hcall⟩

theorem dirtyCalls_within (hs : Snug window) (hoff : Offsets w) :
    ∀ call ∈ dirtyCalls looks f w window, ∃ window, Snug window ∧ Within window call := by
  intro call hcall
  rw [dirtyCalls] at hcall
  split at hcall
  · exact contents_calls hs hoff _ _ call hcall
  · exact contents_calls hs hoff _ _ call hcall

theorem pictured_iff (hv : Valid f) (hs : Snug window) (hoff : Offsets w) :
    Pictured looks f w window ↔ ∀ p, OnScreen f p → ∀ color,
      overlay inkOf (drawAllContents looks f w window true) p = some color →
        shown f p = stored f color := by
  refine forall₂_congr fun p hon => ?_
  rw [drawAllContents, run_shown (contents_calls hs hoff 0 (vgaHeight - 1)) hv hon, inked]
  cases overlay inkOf (drawSnapshotContents looks f w window true 0 (vgaHeight - 1)) p with
  | none => exact ⟨fun _ color h => (by cases h), fun _ => rfl⟩
  | some color =>
    refine ⟨fun h color' hcolor => ?_, fun h => (h color rfl).symm⟩
    obtain rfl := Option.some.inj hcolor
    exact h.symm

/-- **What is drawn of the marked rows is what the whole contents show there.** -/
theorem dirty_row (hs : Snug window) (hoff : Offsets w) (havailable : f.available = true)
    (hon : OnScreen f p) (hrow : row < maxRows window) (hp : InRow window row p)
    (hdirty : dirtyRegionHasUpdates window.dirty = true) :
    (overlay inkOf (dirtyCalls looks f w window) p ≠ none →
      overlay inkOf (dirtyCalls looks f w window) p =
        overlay inkOf (drawAllContents looks f w window true) p) ∧
    (¬ Clean window.dirty row → overlay inkOf (dirtyCalls looks f w window) p =
      overlay inkOf (drawAllContents looks f w window true) p) := by
  have hgrid : maxRows window ≤ vgaHeight := Nat.min_le_right _ _
  have hfull := @contents_row looks f w window p row hs hoff havailable hon hrow hp 0 (vgaHeight - 1)
  rw [if_pos ⟨by omega, Nat.zero_le _⟩, if_pos ⟨Nat.zero_le _, by omega⟩] at hfull
  rw [dirtyCalls, drawAllContents, hfull]
  split
  · exact ⟨fun _ => hfull, fun _ => hfull⟩
  rename_i hpart
  have hpart : window.dirty.fullRefresh = false := Bool.eq_false_of_not_eq_true hpart
  have hsome : window.dirty.minRow ≤ window.dirty.maxRow := by
    rw [dirtyRegionHasUpdates, hpart, Bool.false_or, decide_eq_true_eq] at hdirty
    exact hdirty
  rw [@contents_row looks f w window p row hs hoff havailable hon hrow hp window.dirty.minRow
    window.dirty.maxRow]
  by_cases hin : window.dirty.minRow ≤ row ∧ row ≤ window.dirty.maxRow
  · rw [if_pos ⟨by omega, hsome⟩, if_pos hin]
    exact ⟨fun _ => rfl, fun _ => rfl⟩
  · refine ⟨fun hne => ?_, fun hnot => absurd ⟨hpart, hin⟩ hnot⟩
    split at hne
    · rename_i hstart
      rw [if_pos hstart, if_neg hin]
      cases hcaret : (caretIn window.snapshot row).bind (caretInk f w window row p) with
      | none =>
        rw [hcaret] at hne
        exact absurd rfl hne
      | some color => rfl
    · exact absurd rfl hne

/-- **Presenting a window completes its picture**, if the rows that are not marked were
shown before. -/
theorem run_dirty (hv : Valid f) (hs : Snug window) (hoff : Offsets w) {old : Snapshot}
    (hup : UpToDate old window.snapshot window.dirty)
    (hold : Pictured looks f w { window with snapshot := old })
    (hdirty : dirtyRegionHasUpdates window.dirty = true) (hon : OnScreen f p) {color : UInt32}
    (hcolor : overlay inkOf (drawAllContents looks f w window true) p = some color) :
    shown (f.run (dirtyCalls looks f w window)) p = stored f color := by
  have havailable := hv.geometry.available
  have hcalls := @dirtyCalls_within looks f w window hs hoff
  obtain ⟨row, hrow, hp⟩ := @contents_inRow looks f w window p hs hoff 0 (vgaHeight - 1) (by
    rw [drawAllContents] at hcolor
    rw [hcolor]
    exact Option.some_ne_none color)
  obtain ⟨hsame, hmarked⟩ := @dirty_row looks f w window p row hs hoff havailable hon hrow
    hp hdirty
  rw [run_shown hcalls hv hon, inked]
  cases hink : overlay inkOf (dirtyCalls looks f w window) p with
  | some color' =>
    rw [hink] at hsame
    obtain rfl := Option.some.inj ((hsame (Option.some_ne_none color')).trans hcolor)
    rfl
  | none =>
    have hclean : Clean window.dirty row := by
      by_contra hnot
      have hne := hmarked hnot
      rw [hink, hcolor] at hne
      cases hne
    have hgrid : maxRows window ≤ vgaHeight := Nat.min_le_right _ _
    obtain ⟨htext, hcaret⟩ := hup row (by omega) hclean
    have hlook := @clean_row looks f w window p row hs hoff havailable hon hrow hp old htext hcaret
    have hs' := snug_showing hs old
    exact (pictured_iff hv hs' hoff).mp hold p hon color (hlook.symm.trans hcolor)

/-- Drawing and presenting leave the mode as it is. -/
def SameMode (f f' : Framebuffer) : Prop :=
  ∃ m q i j y, f' = { f with
    memory := m, frameInProgress := q, displayBufferIndex := i, drawBufferIndex := j, yOffset := y }

theorem present_mode {f' : Framebuffer} (hd : Drawn f f') : SameMode f f'.present := by
  obtain ⟨m, q, rfl⟩ := hd
  rw [Framebuffer.present]
  split
  · exact ⟨m, q, _, _, _, rfl⟩
  rename_i hdouble
  split
  · exact ⟨m, q, _, _, _, rfl⟩
  · rw [Framebuffer.setDisplayBuffer, if_neg (not_or.mp hdouble).2]
    exact ⟨m, false, _, _, _, rfl⟩

theorem SameMode.valid {f' : Framebuffer} (h : SameMode f f') (hv : Valid f) : Valid f' := by
  obtain ⟨hg, hstride⟩ := hv
  obtain ⟨m, q, i, j, y, rfl⟩ := h
  exact ⟨⟨hg.available, hg.bytes, hg.row, hg.size⟩, hstride⟩

theorem SameMode.readable {f' : Framebuffer} (h : SameMode f f') (hr : Readable f) :
    Readable f' := by
  obtain ⟨m, q, i, j, y, rfl⟩ := h
  exact ⟨hr.bytes, hr.width, hr.height⟩

theorem SameMode.pictured {f' : Framebuffer} (h : SameMode f f') (hv : Valid f) (hs : Snug window)
    (hoff : Offsets w)
    (hshown : ∀ p, OnScreen f p → ∀ color,
      overlay inkOf (drawAllContents looks f w window true) p = some color →
        shown f' p = stored f color) : Pictured looks f' w window := by
  have hv' := h.valid hv
  refine (pictured_iff hv' hs hoff).mpr fun p hon color hcolor => ?_
  obtain ⟨m, q, i, j, y, hf⟩ := h
  have hcalls : drawAllContents looks f' w window true = drawAllContents looks f w window true :=
    hf ▸ rfl
  have hstored : stored f' color = stored f color := hf ▸ rfl
  have hinfo : f'.info = f.info := hf ▸ rfl
  rw [hcalls] at hcolor
  rw [OnScreen, hinfo] at hon
  exact (hshown p hon color hcolor).trans hstored.symm

/-- The picture after a presentation, and after one that has nothing to draw. -/
theorem present_pictured (hv : Valid f) (hs : Snug window) (hoff : Offsets w) {old : Snapshot}
    (hup : UpToDate old window.snapshot window.dirty)
    (hold : Pictured looks f w { window with snapshot := old }) :
    (dirtyRegionHasUpdates window.dirty = true →
      Pictured looks (f.run (dirtyCalls looks f w window)).present w window) ∧
    (dirtyRegionHasUpdates window.dirty = false → Pictured looks f w window) := by
  have havailable := hv.geometry.available
  refine ⟨fun hdirty => ?_, fun hnothing => ?_⟩
  · have hcalls : ∀ call ∈ dirtyCalls looks f w window, ∃ window, Snug window ∧ Within window call :=
      dirtyCalls_within hs hoff
    have hmode := present_mode (@run_drawn f _ hcalls)
    refine hmode.pictured hv hs hoff fun p hon color hcolor => ?_
    exact (present_shown _ p).trans (run_dirty hv hs hoff hup hold hdirty hon hcolor)
  · have hs' := snug_showing hs old
    refine (pictured_iff hv hs hoff).mpr fun p hon color hcolor => ?_
    obtain ⟨row, hrow, hp⟩ := @contents_inRow looks f w window p hs hoff 0 (vgaHeight - 1) (by
      rw [drawAllContents] at hcolor
      rw [hcolor]
      exact Option.some_ne_none color)
    have hgrid : maxRows window ≤ vgaHeight := Nat.min_le_right _ _
    have hclean : Clean window.dirty row := by
      rw [dirtyRegionHasUpdates, Bool.or_eq_false_iff, decide_eq_false_iff_not] at hnothing
      exact ⟨hnothing.1, by omega⟩
    obtain ⟨htext, hcaret⟩ := hup row (by omega) hclean
    have hlook := @clean_row looks f w window p row hs hoff havailable hon hrow hp old htext hcaret
    exact (pictured_iff hv hs' hoff).mp hold p hon color (hlook.symm.trans hcolor)

theorem run_pictured (hv : Valid f) (hs : Snug window) (hoff : Offsets w) :
    Pictured looks (f.run (drawAllContents looks f w window true)) w window := by
  have hcalls : ∀ call ∈ drawAllContents looks f w window true,
      ∃ window, Snug window ∧ Within window call := contents_calls hs hoff 0 (vgaHeight - 1)
  obtain ⟨m, q, hmode⟩ := @run_drawn f _ hcalls
  have hsame : SameMode f (f.run (drawAllContents looks f w window true)) :=
    ⟨m, q, f.displayBufferIndex, f.drawBufferIndex, f.yOffset, hmode⟩
  refine hsame.pictured hv hs hoff fun p hon color hcolor => ?_
  rw [run_shown hcalls hv hon, inked, hcolor]
  rfl

end

/-- The window of a process is the active one, and the rows that are not marked are
shown as they are. -/
structure Current (proc : UInt32) (slot : Nat) (d : Workspace) : Prop where
  focused : Focused proc slot d
  picture : ∃ old, UpToDate old (d.windows.windows slot).snapshot (d.windows.windows slot).dirty ∧
    Pictured looks (suspendMouseCursor d.screen).framebuffer d.windows
      { d.windows.windows slot with snapshot := old }

section

variable {looks : Looks} {opened : Workspace → UInt32 → Workspace} {d : Workspace}
  {proc : UInt32} {slot : Nat}

/-! ## Calls of the process -/

theorem findWindowIndex_setWindow {w : WindowState} {window : Window}
    (howner : window.owner = (w.windows slot).owner)
    (hinUse : window.inUse = (w.windows slot).inUse) :
    findWindowIndex (setWindow w slot window) proc = findWindowIndex w proc := by
  have htest : ∀ i, (windowSlotValid (setWindow w slot window) i &&
      ((setWindow w slot window).windows i).owner == proc) =
      (windowSlotValid w i && (w.windows i).owner == proc) := by
    intro i
    rw [windowSlotValid, windowSlotValid]
    by_cases hi : i = slot
    · rw [hi, setWindow_self, howner, hinUse]
    · rw [setWindow_of_ne w window hi]
  rw [findWindowIndex, findWindowIndex, funext htest]

/-- In the state of a run of the window manager, the active window lies well. -/
theorem focused_of_managed (hm : Clicks.Managed d.windows)
    (hfind : findWindowIndex d.windows proc = some slot) (hactive : d.windows.activeSlot = slot)
    (hready : d.windows.geometryReady = true)
    (hv : Valid (suspendMouseCursor d.screen).framebuffer)
    (hr : Readable (suspendMouseCursor d.screen).framebuffer) : Focused proc slot d :=
  ⟨hfind, hactive, hready, hm.geared hready, hm.windows slot (Frames.findWindowIndex_some hfind).1,
    hv, hr⟩

theorem Focused.set (hf : Focused proc slot d) (s : Snapshot) (dirty : DirtyRegion) :
    Focused proc slot { d with
      windows := setWindow d.windows slot
        { d.windows.windows slot with snapshot := s, dirty := dirty } } := by
  have hsnug := hf.snug
  refine ⟨?_, hf.active, hf.ready, hf.offsets, ?_, hf.valid, hf.readable⟩
  · exact (@findWindowIndex_setWindow proc slot d.windows
      { d.windows.windows slot with snapshot := s, dirty := dirty } rfl rfl).trans hf.found
  · dsimp only
    rw [setWindow_self]
    exact ⟨⟨hsnug.legal.columns, hsnug.legal.rows, hsnug.legal.width, hsnug.legal.height⟩,
      hsnug.contentWidth, hsnug.contentHeight, hsnug.right, hsnug.bottom⟩

theorem Focused.proc_ne (hf : Focused proc slot d) : proc ≠ 0 := by
  intro hzero
  have hfound := hf.found
  rw [findWindowIndex, if_pos hzero] at hfound
  cases hfound

theorem Focused.available (hf : Focused proc slot d) : ¬ d.screen.framebuffer.available = false := by
  intro hoff
  have hsame : suspendMouseCursor d.screen = d.screen := by
    rw [suspendMouseCursor, restoreCursorBackground, if_pos (Or.inl hoff), ite_self]
  have havailable := hf.valid.geometry.available
  rw [hsame, hoff] at havailable
  cases havailable

theorem current_of_shows (hf : Focused proc slot d) (hs : Shows looks d slot) :
    Current looks proc slot d := ⟨hf, (d.windows.windows slot).snapshot, .refl _ _, hs⟩

theorem Current.set (hc : Current looks proc slot d) {s : Snapshot} {dirty : DirtyRegion}
    (hmarked : ∀ old, UpToDate old (d.windows.windows slot).snapshot (d.windows.windows slot).dirty →
      UpToDate old s dirty) : Current looks proc slot { d with
        windows := setWindow d.windows slot
          { d.windows.windows slot with snapshot := s, dirty := dirty } } := by
  obtain ⟨old, hup, hpicture⟩ := hc.picture
  refine ⟨hc.focused.set s dirty, old, ?_, ?_⟩
  · dsimp only
    rw [setWindow_self]
    exact hmarked old hup
  · dsimp only
    rw [setWindow_self]
    exact hpicture

theorem Current.blank (hc : Current looks proc slot d) (fb : FrameBuffer) :
    Current looks proc slot
      { d with windows := buildBlankSnapshot (ensureGeometry fb d.windows) } := by
  obtain ⟨⟨hfound, hactive, hready, hoffsets, hsnug, hvalid, hreadable⟩, hpicture⟩ := hc
  rw [ensureGeometry, if_pos (by rw [hready, Bool.true_or]), buildBlankSnapshot]
  split
  · exact ⟨⟨hfound, hactive, hready, hoffsets, hsnug, hvalid, hreadable⟩, hpicture⟩
  · exact ⟨⟨hfound, hactive, hready, hoffsets, hsnug, hvalid, hreadable⟩, hpicture⟩

theorem suspend_endWindowRedraw {s : Screen} (hidle : s.cursor.drawn = false)
    (hr : Readable s.framebuffer.present) :
    (suspendMouseCursor (endWindowRedraw s)).framebuffer = s.framebuffer.present := by
  rw [endWindowRedraw]
  refine MouseCursor.resume_uncovered hr ?_
  rw [@MouseCursor.suspend_of_idle { s with framebuffer := s.framebuffer.present } hidle]

/-- **Presenting the window shows it as it is.** -/
theorem Current.present (hc : Current looks proc slot d) :
    Current looks proc slot (windowPresent looks d proc) ∧
      Shows looks (windowPresent looks d proc) slot := by
  have hf := hc.focused
  obtain ⟨old, hup, hpicture⟩ := hc.picture
  obtain ⟨hdrawn, hnothing⟩ := present_pictured hf.valid hf.snug hf.offsets hup hpicture
  rw [windowPresent, hf.found, Option.elim_some, presentWindowSlot]
  dsimp only
  rw [(Frames.findWindowIndex_some hf.found).1, Bool.true_and]
  cases hdirty : dirtyRegionHasUpdates (d.windows.windows slot).dirty with
  | false => exact ⟨hc, hnothing hdirty⟩
  | true =>
    rw [if_pos rfl, if_neg (not_not.mpr hf.active), beginWindowRedraw]
    have hidle := MouseCursor.suspend_idle d.screen hf.available
    have hshown := hdrawn hdirty
    have hcalls := @dirtyCalls_within looks (suspendMouseCursor d.screen).framebuffer d.windows
      (d.windows.windows slot) hf.snug hf.offsets
    have hmode := present_mode (@run_drawn (suspendMouseCursor d.screen).framebuffer _ hcalls)
    generalize hafter : ((suspendMouseCursor d.screen).framebuffer.run
      (dirtyCalls looks (suspendMouseCursor d.screen).framebuffer d.windows
        (d.windows.windows slot))).present = after at hshown hmode
    have hscreen := @suspend_endWindowRedraw { suspendMouseCursor d.screen with
      framebuffer := (suspendMouseCursor d.screen).framebuffer.run (dirtyCalls looks
        (suspendMouseCursor d.screen).framebuffer d.windows (d.windows.windows slot)) } hidle
    dsimp only at hscreen
    rw [hafter] at hscreen
    have hscreen := hscreen (hmode.readable hf.readable)
    have hshows : Shows looks ⟨endWindowRedraw { suspendMouseCursor d.screen with
        framebuffer := (suspendMouseCursor d.screen).framebuffer.run (dirtyCalls looks
          (suspendMouseCursor d.screen).framebuffer d.windows (d.windows.windows slot)) },
        renderWindow d.windows slot⟩ slot := by
      rw [Shows]
      dsimp only
      rw [hscreen, renderWindow, setWindow_self]
      exact hshown
    have hset := hf.set (d.windows.windows slot).snapshot makeEmptyDirtyRegion
    refine ⟨current_of_shows ⟨hset.found, hset.active, hset.ready, hset.offsets, hset.snug, ?_, ?_⟩
      hshows, hshows⟩
    · exact hscreen ▸ hmode.valid hf.valid
    · exact hscreen ▸ hmode.readable hf.readable

theorem Current.putChar (hc : Current looks proc slot d) (x y : Nat) (ch color : UInt8) :
    Current looks proc slot
      { d with windows := Windows.windowPutChar d.windows proc x y ch color } := by
  rw [windowPutChar, hc.focused.found]
  dsimp only
  split
  · exact hc
  split
  · exact hc
  · exact hc.set fun _ hup => hup.putChar x y ch color

theorem Current.setCursor (hc : Current looks proc slot d) (row column : Nat) (active : Bool) :
    Current looks proc slot
      { d with windows := Windows.windowSetCursor d.windows proc row column active } := by
  rw [windowSetCursor, hc.focused.found]
  exact hc.set fun _ hup => hup.setCursor _ _ active

theorem Current.write (hc : Current looks proc slot d) (text : Option (List UInt8)) :
    Current looks proc slot (writeText looks opened d proc text) ∧
      (∀ text', text = some text' → text' ≠ [] →
        Shows looks (writeText looks opened d proc text) slot) := by
  cases text with
  | none => exact ⟨hc, fun text' h => (by cases h)⟩
  | some text =>
    have havailable : (screenOf d.screen.framebuffer).available = true :=
      Bool.eq_true_of_not_eq_false hc.focused.available
    rw [writeText, Option.elim_some]
    dsimp only
    by_cases hempty : text = []
    · rw [if_pos hempty]
      refine ⟨hc, fun text' h hne => absurd ?_ hne⟩
      rw [← Option.some.inj h, hempty]
    have hkernel : ¬ (proc = 0 ∨ (screenOf d.screen.framebuffer).available = false) := by
      rintro (h | h)
      · exact hc.focused.proc_ne h
      · rw [havailable] at h
        cases h
    have hblank := hc.blank (screenOf d.screen.framebuffer)
    generalize buildBlankSnapshot (ensureGeometry (screenOf d.screen.framebuffer) d.windows) = w
      at hblank ⊢
    have hfound : findWindowIndex w proc = some slot := hblank.focused.found
    have hactive : (slot : Int) = (setWindow w slot (writeWindow (w.windows slot) text)).activeSlot :=
      hblank.focused.active.symm
    have hwritten : Current looks proc slot
        { d with windows := setWindow w slot (writeWindow (w.windows slot) text) } :=
      hblank.set fun _ hup => hup.write text
    rw [if_neg hempty, if_neg hkernel, hfound, if_neg (Option.some_ne_none slot)]
    dsimp only
    rw [hfound, Option.elim_some, if_pos hactive]
    exact ⟨hwritten.present.1, fun _ _ _ => hwritten.present.2⟩

theorem Current.step (hc : Current looks proc slot d) (act : Act) :
    Current looks proc slot (step looks opened proc d act) ∧
      (Presents act → Shows looks (step looks opened proc d act) slot) := by
  cases act with
  | writeText text =>
    refine ⟨(hc.write text).1, ?_⟩
    rintro ⟨text', htext, hne⟩
    exact (hc.write text).2 text' htext hne
  | windowPutChar x y ch color => exact ⟨hc.putChar x y ch color, False.elim⟩
  | windowSetCursor row column active => exact ⟨hc.setCursor row column active, False.elim⟩
  | windowPresent => exact ⟨hc.present.1, fun _ => hc.present.2⟩

theorem Current.run (hc : Current looks proc slot d) (acts : List Act) :
    Current looks proc slot (acts.foldl (Redraw.step looks opened proc) d) := by
  induction acts generalizing d with
  | nil => exact hc
  | cons act acts ih => exact ih (hc.step act).1

/-- **Drawing what changed shows what drawing everything would**: from a screen that
shows the contents of the active window, whatever its process writes and wherever it
puts the caret, after each call that presents the window the screen under the mouse
cursor shows its contents again. -/
theorem incremental_redraw (hf : Focused proc slot d) (hshows : Shows looks d slot)
    (acts : List Act) {act : Act} (hpresents : Presents act) :
    Shows looks ((acts ++ [act]).foldl (Redraw.step looks opened proc) d) slot := by
  have hrun := @Current.run looks opened d proc slot (current_of_shows hf hshows) acts
  rw [List.foldl_append]
  exact (hrun.step act).2 hpresents

end

/-- A window, drawn on a screen without a mouse cursor. -/
def drawnWorkspace (looks : Looks) (f : Framebuffer) (w : WindowState) (slot : Nat) : Workspace :=
  ⟨⟨f.run (drawAllContents looks f w (w.windows slot) true), MouseCursor.freshCursor⟩, w⟩

theorem drawnWorkspace_focused {w : WindowState} {f : Framebuffer} {proc : UInt32} {slot : Nat}
    (looks : Looks) (hm : Clicks.Managed w) (hfind : findWindowIndex w proc = some slot)
    (hactive : w.activeSlot = slot) (hready : w.geometryReady = true) (hv : Valid f)
    (hr : Readable f) : Focused proc slot (drawnWorkspace looks f w slot) ∧
      Shows looks (drawnWorkspace looks f w slot) slot := by
  have hsnug := hm.windows slot (Frames.findWindowIndex_some hfind).1
  have hoff := hm.geared hready
  have hdrawn := @run_drawn f _ (@contents_calls looks f w (w.windows slot) hsnug hoff 0
    (vgaHeight - 1))
  obtain ⟨m, q, hmode⟩ := hdrawn
  have hsame : SameMode f (f.run (drawAllContents looks f w (w.windows slot) true)) :=
    ⟨m, q, f.displayBufferIndex, f.drawBufferIndex, f.yOffset, hmode⟩
  exact ⟨@focused_of_managed (drawnWorkspace looks f w slot) proc slot hm hfind hactive hready
    (hsame.valid hv) (hsame.readable hr), run_pictured hv hsnug hoff⟩

theorem incremental_redraw_boot :
    Shows Clicks.plainLooks
      (([Act.writeText (some [72, 105, 10]), Act.windowSetCursor 3 5 true] ++
          [Act.windowPresent]).foldl (step Clicks.plainLooks (fun d _ => d) 0x1000)
        (drawnWorkspace Clicks.plainLooks Clicks.largeMode
          (init (screenOf Clicks.largeMode) bootWindows 0x1000) 0)) 0 := by
  have hroomy : Frames.Roomy (screenOf Clicks.largeMode) :=
    ⟨rfl, by decide, by decide, by decide, by decide⟩
  have hm := @Clicks.run_managed bootWindows _ hroomy (Sched.Delivery.booted [])
    (fun h => absurd h Bool.false_ne_true) 0x1000 [] (fun act h => by cases h) _ List.mem_cons_self
  have hv : Valid Clicks.largeMode := ⟨⟨rfl, by decide, by decide, by decide⟩, by decide⟩
  obtain ⟨hf, hs⟩ := @drawnWorkspace_focused _ Clicks.largeMode 0x1000 0 Clicks.plainLooks hm
    (by decide +kernel) (by decide +kernel) (by decide +kernel) hv
    ⟨by decide, by decide, by decide⟩
  exact incremental_redraw hf hs _ trivial

end ContinuumOS.Gui.Redraw
