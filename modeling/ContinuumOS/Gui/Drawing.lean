import ContinuumOS.Lib.Painting
import ContinuumOS.Gui.Pixels
import ContinuumOS.Gui.Windows

/-! # What is drawn of a window

The drawing functions of `src/kernel/terminal_windows.cpp` as the calls that they
make of the framebuffer, and the ink that these calls leave. -/
namespace ContinuumOS.Gui.Drawing
open ContinuumOS.Gui.TextGrid ContinuumOS.Gui.Geometry
open ContinuumOS.Gui.Framebuffer ContinuumOS.Gui.Pixels ContinuumOS.Gui.Windows

structure RGB where
  r : UInt8
  g : UInt8
  b : UInt8
  deriving DecidableEq, Repr

/-- What drawing takes from elsewhere: `gui::glyph_for`, the shades of the close
button, which are computed with floating point numbers, and the names of processes
(`none` for a null pointer). -/
structure Looks where
  glyphFor : UInt8 → UInt32 → UInt8
  closeShade : Nat → RGB
  nameOf : UInt32 → Option (List UInt8)

def closeButtonFg : RGB := ⟨240, 240, 240⟩
def frameBorderHighlight : RGB := ⟨38, 44, 58⟩
def titleTopHighlight : RGB := ⟨130, 150, 210⟩
def titleBottomShadow : RGB := ⟨18, 20, 30⟩
def activeAccentGlow : RGB := ⟨100, 160, 255⟩
def titleTextShadow : RGB := ⟨18, 24, 32⟩
def frameBorderColor : RGB := ⟨18, 22, 30⟩
def frameBackgroundColor : RGB := ⟨30, 34, 46⟩
def titleActiveTop : RGB := ⟨82, 128, 204⟩
def titleActiveBottom : RGB := ⟨46, 78, 140⟩
def titleInactiveTop : RGB := ⟨60, 66, 84⟩
def titleInactiveBottom : RGB := ⟨42, 48, 62⟩
def titleTextColor : RGB := ⟨236, 240, 248⟩
def titleBottomLine : RGB := ⟨28, 34, 46⟩
def contentBackgroundColor : RGB := ⟨16, 20, 28⟩

def vgaPalette : List RGB :=
  [⟨0, 0, 0⟩, ⟨0, 0, 170⟩, ⟨0, 170, 0⟩, ⟨0, 170, 170⟩, ⟨170, 0, 0⟩, ⟨170, 0, 170⟩, ⟨170, 85, 0⟩,
    ⟨170, 170, 170⟩, ⟨85, 85, 85⟩, ⟨85, 85, 255⟩, ⟨85, 255, 85⟩, ⟨85, 255, 255⟩, ⟨255, 85, 85⟩,
    ⟨255, 85, 255⟩, ⟨255, 255, 85⟩, ⟨255, 255, 255⟩]

/-- `FALLBACK_GLYPH` -/
def fallbackGlyph : UInt8 := 63

/-- The framebuffer as the window manager knows it. -/
def screenOf (f : Framebuffer) : FrameBuffer := ⟨f.available, f.info.width, f.info.height⟩

variable (looks : Looks) (f : Framebuffer) (w : WindowState) (window : Window)

def pack (color : RGB) : UInt32 := f.packColor color.r color.g color.b

def vgaToRgb (index : UInt8) : UInt32 := pack f (vgaPalette.getD (index &&& 0x0F).toNat ⟨0, 0, 0⟩)

/-- A call for the buffer that is drawn to. -/
def rect (x y width height color : UInt32) : Call := .fillRect x y width height color .draw

/-- A character, whose background stays. -/
def glyph (x y : UInt32) (ch : UInt8) (color : UInt32) : Call :=
  .drawMonoBitmap x y fontWidth fontHeight (some (looks.glyphFor ch)) 1 color 0 true .draw

/-! ## Texts -/

/-- `text` is a string up to its zero, or `none` for a null pointer. -/
def drawText (x y : UInt32) (text : Option (List UInt8)) (color maxWidth : UInt32)
    (dropShadow : Bool) : List Call :=
  text.elim [] fun text =>
    let maxChars := maxWidth / fontWidth
    if maxChars = 0 then []
    else
      let buffer := (text.takeWhile (· != 0)).take (min 127 maxChars.toNat)
      (List.range buffer.length).flatMap fun i =>
        let ch := buffer.getD i 0
        let x := x + UInt32.ofNat i * fontWidth
        (if dropShadow then [glyph looks (x + 1) (y + 1) ch (pack f titleTextShadow)] else []) ++
          [glyph looks x y ch color]

/-! ## The frame -/

/-- The inside of a frame. -/
def inner (size : UInt32) : UInt32 := if 2 * frameBorder < size then size - 2 * frameBorder else 0

/-- A row of the title bar. -/
def titleShade (active : Bool) (row : Nat) : RGB :=
  let top := if active then titleActiveTop else titleInactiveTop
  let bottom := if active then titleActiveBottom else titleInactiveBottom
  let mix := UInt32.ofNat row * 255 / (titleBarHeight - 1)
  let inv := 255 - mix
  let between := fun a b : UInt8 => ((a.toUInt32 * inv + b.toUInt32 * mix) / 255).toUInt8
  ⟨between top.r bottom.r, between top.g bottom.g, between top.b bottom.b⟩

def titleBar (innerX titleY innerWidth innerHeight : UInt32) (active : Bool) : List Call :=
  (((List.range titleBarHeight.toNat).takeWhile fun row =>
      decide (UInt32.ofNat row < innerHeight)).map fun row =>
        rect innerX (titleY + UInt32.ofNat row) innerWidth 1 (pack f (titleShade active row))) ++
    [rect innerX titleY innerWidth 1 (pack f titleTopHighlight),
      rect innerX (titleY + titleBarHeight - 1) innerWidth 1 (pack f titleBottomLine),
      rect innerX (titleY + titleBarHeight) innerWidth 1 (pack f titleBottomShadow)]

def accent (active : Bool) : List Call :=
  if active then
    [rect (window.frameX + frameBorder) (window.frameY + frameBorder + 2) 2 (titleBarHeight - 4)
      (pack f activeAccentGlow)]
  else []

/-- `close_x`, `close_y` -/
def closeX : UInt32 :=
  window.frameX + frameBorder + inner window.frameWidth - closeButtonMargin - closeButtonSize
def closeY : UInt32 :=
  window.frameY + frameBorder + (titleBarHeight - closeButtonSize) / 2

/-- The rows of the square of the close button. -/
def closeSquare : List Call :=
  if closeButtonSize + closeButtonMargin < inner window.frameWidth then
    (List.range closeButtonSize.toNat).map fun row =>
      rect (closeX window) (closeY window + UInt32.ofNat row) closeButtonSize 1
        (pack f (looks.closeShade row))
  else []

/-- What lies on the square: a line at the top and a cross. -/
def closeMarks : List Call :=
  if closeButtonSize + closeButtonMargin < inner window.frameWidth then
    let inset := closeButtonSize / 4
    let buttonSize := closeButtonSize - inset * 2
    let buttonX := closeX window + inset
    let buttonY := closeY window + inset
    rect (closeX window) (closeY window) closeButtonSize 1 (pack f titleTopHighlight) ::
      (List.range buttonSize.toNat).flatMap fun i =>
        [rect (buttonX + UInt32.ofNat i) (buttonY + UInt32.ofNat i) 2 1 (pack f closeButtonFg),
          rect (buttonX + (buttonSize - 1 - UInt32.ofNat i)) (buttonY + UInt32.ofNat i) 2 1
            (pack f closeButtonFg)]
  else []

def systemTitle : List UInt8 := [83, 121, 115, 116, 101, 109]
def terminalTitle : List UInt8 := [84, 101, 114, 109, 105, 110, 97, 108]

/-- The name of the owner, `"Terminal"` where it has none, `"System"` without an
owner. -/
def title : List UInt8 :=
  if window.owner = 0 then systemTitle else (looks.nameOf window.owner).getD terminalTitle

def drawWindowFrame (active : Bool) : List Call :=
  if f.available = false ∨ w.geometryReady = false then []
  else if window.frameWidth = 0 ∨ window.frameHeight = 0 then []
  else
    let innerX := window.frameX + frameBorder
    let innerY := window.frameY + frameBorder
    let innerWidth := inner window.frameWidth
    let innerHeight := inner window.frameHeight
    let textMargin := 12
    [rect window.frameX window.frameY window.frameWidth window.frameHeight (pack f frameBorderColor),
      rect window.frameX window.frameY window.frameWidth 1 (pack f frameBorderHighlight)] ++
    if innerWidth = 0 ∨ innerHeight = 0 then []
    else
      [rect innerX innerY innerWidth innerHeight (pack f frameBackgroundColor)] ++
      titleBar f innerX innerY innerWidth innerHeight active ++ accent f window active ++
      closeSquare looks f window ++ closeMarks f window ++
      drawText looks f (innerX + textMargin) (innerY + (titleBarHeight - fontHeight) / 2)
        (some (title looks window)) (pack f titleTextColor) (innerWidth - 2 * textMargin) true

/-! ## The contents -/

def contentOriginX : UInt32 := window.frameX + w.contentOffsetX
def contentOriginY : UInt32 := window.frameY + w.contentOffsetY

/-- `cell_x`, `cell_y` -/
def cellX (col : Nat) : UInt32 := contentOriginX w window + UInt32.ofNat col * fontWidth
def cellY (row : Nat) : UInt32 := contentOriginY w window + UInt32.ofNat row * fontHeight

/-- The background of a cell and its character. -/
def drawCell (row col : Nat) : List Call :=
  let rawChar := window.snapshot.characters row col
  let attrib := window.snapshot.colors row col
  let bgIndex := (attrib >>> 4) &&& 0x0F
  let bgColor := if bgIndex = 0 then pack f contentBackgroundColor else vgaToRgb f bgIndex
  let glyphChar := if rawChar < 32 ∨ 126 < rawChar then fallbackGlyph else rawChar
  [rect (cellX w window col) (cellY w window row) fontWidth fontHeight bgColor,
    glyph looks (cellX w window col) (cellY w window row) glyphChar
      (vgaToRgb f (attrib &&& 0x0F))]

/-- The cells of a row, up to the border of the screen. -/
def drawRow (maxCols row : Nat) : List Call :=
  ((List.range maxCols).takeWhile fun col => decide (cellX w window col < f.info.width)).flatMap
    (drawCell looks f w window row)

def drawCaret (active : Bool) : List Call :=
  let s := window.snapshot
  if active = true ∧ s.cursorActive = true ∧ s.cursorRow < window.visibleRows.toNat ∧
      s.cursorColumn < window.visibleColumns.toNat then
    [rect (cellX w window s.cursorColumn) (cellY w window s.cursorRow) 2 fontHeight
      (f.packColor 240 240 255)]
  else []

/-- `max_rows`, `max_cols` -/
def maxRows : Nat := min window.visibleRows.toNat vgaHeight
def maxCols : Nat := min window.visibleColumns.toNat vgaWidth

def drawSnapshotContents (active : Bool) (startRow endRow : Nat) : List Call :=
  if f.available = false then []
  else if window.visibleRows = 0 ∨ window.visibleColumns = 0 then []
  else if maxRows window = 0 ∨ maxCols window = 0 then []
  else if maxRows window ≤ startRow then []
  else
    let endRow := if maxRows window ≤ endRow then maxRows window - 1 else endRow
    if endRow < startRow then []
    else
      ((List.range' startRow (endRow + 1 - startRow)).takeWhile fun row =>
        decide (cellY w window row < f.info.height)).flatMap
          (drawRow looks f w window (maxCols window)) ++ drawCaret f w window active

/-- The default of the last parameters of `draw_snapshot_contents`. -/
def drawAllContents (active : Bool) : List Call :=
  drawSnapshotContents looks f w window active 0 (vgaHeight - 1)

/-- The calls of `render_window`. -/
def renderWindowCalls (active : Bool) : List Call :=
  (if 0 < window.contentWidth ∧ 0 < window.contentHeight then
    [rect (contentOriginX w window) (contentOriginY w window) window.contentWidth
      window.contentHeight (pack f contentBackgroundColor)] else []) ++
  drawWindowFrame looks f w window active ++ drawAllContents looks f w window active

/-- The windows that `draw_windows` renders, from the bottom, and whether as the
active one. -/
def drawnWindows : List (Nat × Bool) :=
  ((((List.range w.zCount).map fun i => w.zOrder.getD i 0).filter fun slot =>
      windowSlotValid w slot && (slot : Int) != w.activeSlot).map (·, false)) ++
    if validInt w w.activeSlot then [(w.activeSlot.toNat, true)] else []

/-- The calls of `draw_windows`, each with the slot of its window. -/
def drawWindowsCalls : List (Nat × Call) :=
  if f.available = false ∨ w.zCount = 0 then []
  else
    let w := ensureGeometry (screenOf f) w
    (drawnWindows w).flatMap fun (slot, active) =>
      (renderWindowCalls looks f w (w.windows slot) active).map (slot, ·)

/-! ## Ink -/

/-- The ink of a call. -/
def inkOf : Call → UInt32 × UInt32 → Option UInt32
  | .fillRect x y width height color _, p => rectInk x y width height color p.1 p.2
  | .drawMonoBitmap x y width height bitmap stride fgColor bgColor transparentBg _, p =>
    bitmapInk x y width height bitmap stride fgColor bgColor transparentBg p.1 p.2
  | .present, _ => none

/-- A window of legal dimensions whose frame does not wrap around. -/
structure Snug (window : Window) : Prop where
  legal : Legal window
  contentWidth : window.contentWidth = window.visibleColumns * fontWidth
  contentHeight : window.contentHeight = window.visibleRows * fontHeight
  right : window.frameX.toNat + window.frameWidth.toNat < 2 ^ 32
  bottom : window.frameY.toNat + window.frameHeight.toNat < 2 ^ 32

/-- The contents lie at these offsets in a frame. -/
def Offsets (w : WindowState) : Prop :=
  w.contentOffsetX = frameBorder + contentPaddingX ∧ w.contentOffsetY = frameBorder + titleBarHeight

/-- A rectangle inside a frame. -/
structure Inner (window : Window) (x y width height : UInt32) : Prop where
  left : window.frameX.toNat ≤ x.toNat
  right : x.toNat + width.toNat ≤ window.frameX.toNat + window.frameWidth.toNat
  top : window.frameY.toNat ≤ y.toNat
  bottom : y.toNat + height.toNat ≤ window.frameY.toNat + window.frameHeight.toNat

/-- A call that draws inside a frame, into the buffer that is drawn to. -/
inductive Within (window : Window) : Call → Prop where
  | rect {x y width height : UInt32} (color : UInt32) (h : Inner window x y width height) :
    Within window (rect x y width height color)
  | glyph {x y : UInt32} (looks : Looks) (ch : UInt8) (color : UInt32)
    (h : Inner window x y fontWidth fontHeight) : Within window (glyph looks x y ch color)

section

variable {looks : Looks} {f : Framebuffer} {w : WindowState} {window : Window}

/-! ## Inside the frame -/

theorem Snug.sizes (h : Snug window) :
    window.frameWidth.toNat = window.visibleColumns.toNat * 8 + 28 ∧
      window.frameHeight.toNat = window.visibleRows.toNat * 16 + 40 ∧
      24 ≤ window.visibleColumns.toNat ∧ window.visibleColumns.toNat ≤ 80 ∧
      12 ≤ window.visibleRows.toNat ∧ window.visibleRows.toNat ≤ 25 := by
  obtain ⟨hmin, hmax⟩ := h.legal.columns
  obtain ⟨hlow, hhigh⟩ := h.legal.rows
  have hmin : 24 ≤ window.visibleColumns.toNat := le_iff.mp hmin
  have hmax : window.visibleColumns.toNat ≤ 80 := le_iff.mp hmax
  have hlow : 12 ≤ window.visibleRows.toNat := le_iff.mp hlow
  have hhigh : window.visibleRows.toNat ≤ 25 := le_iff.mp hhigh
  have hwidth : (window.visibleColumns * fontWidth + contentPaddingWidth).toNat =
      window.visibleColumns.toNat * 8 + 28 := by
    have hfont : fontWidth.toNat = 8 := rfl
    have hpadding : contentPaddingWidth.toNat = 28 := rfl
    rw [UInt32.toNat_add, UInt32.toNat_mul, hfont, hpadding]
    omega
  have hheight : (window.visibleRows * fontHeight + contentPaddingHeight).toNat =
      window.visibleRows.toNat * 16 + 40 := by
    have hfont : fontHeight.toNat = 16 := rfl
    have hpadding : contentPaddingHeight.toNat = 40 := rfl
    rw [UInt32.toNat_add, UInt32.toNat_mul, hfont, hpadding]
    omega
  rw [h.legal.width, h.legal.height]
  exact ⟨hwidth, hheight, hmin, hmax, hlow, hhigh⟩

theorem toNat_offset {a b : UInt32} {base d : Nat} (ha : a.toNat = base + d)
    (h : base + d + b.toNat < 2 ^ 32) : (a + b).toNat = base + (d + b.toNat) := by
  rw [UInt32.toNat_add, ha, Nat.mod_eq_of_lt h, Nat.add_assoc]

theorem toNat_ofNat_lt {n : Nat} (h : n < 2 ^ 32) : (UInt32.ofNat n).toNat = n :=
  UInt32.toNat_ofNat_of_lt' h

theorem inner_of_offset {x y width height : UInt32} {dx dy : Nat}
    (hx : x.toNat = window.frameX.toNat + dx) (hy : y.toNat = window.frameY.toNat + dy)
    (hwidth : dx + width.toNat ≤ window.frameWidth.toNat)
    (hheight : dy + height.toNat ≤ window.frameHeight.toNat) : Inner window x y width height :=
  ⟨by omega, by omega, by omega, by omega⟩

theorem Snug.inside (h : Snug window) :
    (window.frameX + frameBorder).toNat = window.frameX.toNat + 2 ∧
      (window.frameY + frameBorder).toNat = window.frameY.toNat + 2 ∧
      (inner window.frameWidth).toNat = window.frameWidth.toNat - 4 ∧
      (inner window.frameHeight).toNat = window.frameHeight.toNat - 4 := by
  obtain ⟨hwidth, hheight, hmin, -, hlow, -⟩ := h.sizes
  have hright := h.right
  have hbottom := h.bottom
  have hborder : frameBorder.toNat = 2 := rfl
  have htwice : (2 * frameBorder).toNat = 4 := rfl
  have hinner : ∀ {size : UInt32}, 4 < size.toNat → (inner size).toNat = size.toNat - 4 := by
    intro size hsize
    have hlt : 2 * frameBorder < size := lt_iff.mpr (htwice.symm ▸ hsize)
    rw [inner, if_pos hlt, UInt32.toNat_sub_of_le _ _ (UInt32.le_of_lt hlt), htwice]
  refine ⟨?_, ?_, hinner (by omega), hinner (by omega)⟩
  · rw [UInt32.toNat_add, hborder, Nat.mod_eq_of_lt (by omega)]
  · rw [UInt32.toNat_add, hborder, Nat.mod_eq_of_lt (by omega)]

theorem titleBar_within (h : Snug window) (active : Bool) : ∀ call ∈ titleBar f
    (window.frameX + frameBorder) (window.frameY + frameBorder) (inner window.frameWidth)
    (inner window.frameHeight) active, Within window call := by
  obtain ⟨hx, hy, hw, -⟩ := h.inside
  obtain ⟨hwidth, hheight, hmin, -, hlow, -⟩ := h.sizes
  have hbottom := h.bottom
  have hrow : ∀ {y : UInt32} {dy : Nat} (color : UInt32), y.toNat = window.frameY.toNat + dy →
      dy ≤ 26 → Within window (rect (window.frameX + frameBorder) y (inner window.frameWidth) 1
        color) := by
    intro y dy color hrow hdy
    refine .rect color (inner_of_offset hx hrow (by omega) ?_)
    rw [UInt32.toNat_one]
    omega
  have hbar : titleBarHeight.toNat = 24 := rfl
  intro call hcall
  rw [titleBar] at hcall
  rcases List.mem_append.mp hcall with hcall | hcall
  · obtain ⟨row, hmem, rfl⟩ := List.mem_map.mp hcall
    have hlt := List.mem_range.mp ((List.takeWhile_subset _) hmem)
    have hofNat := @toNat_ofNat_lt row (by omega)
    exact hrow _ (toNat_offset hy (by omega)) (by omega)
  · simp only [List.mem_cons, List.not_mem_nil, or_false] at hcall
    rcases hcall with rfl | rfl | rfl
    · exact hrow _ hy (by omega)
    · have hlast : (window.frameY + frameBorder + titleBarHeight - 1).toNat =
          window.frameY.toNat + 25 := by
        have hsum := toNat_offset (b := titleBarHeight) hy (by omega)
        have hle : 1 ≤ window.frameY + frameBorder + titleBarHeight := by
          rw [le_iff, hsum, UInt32.toNat_one]
          omega
        rw [UInt32.toNat_sub_of_le _ _ hle, hsum, UInt32.toNat_one]
        omega
      exact hrow _ hlast (by omega)
    · exact hrow _ (toNat_offset hy (by omega)) (by omega)

theorem accent_within (h : Snug window) (active : Bool) :
    ∀ call ∈ accent f window active, Within window call := by
  obtain ⟨hx, hy, -⟩ := h.inside
  obtain ⟨hwidth, hheight, hmin, -, hlow, -⟩ := h.sizes
  have hbottom := h.bottom
  have htwo : (2 : UInt32).toNat = 2 := rfl
  have htall : (titleBarHeight - 4).toNat = 20 := rfl
  intro call hcall
  rw [accent] at hcall
  split at hcall
  · obtain rfl := List.mem_singleton.mp hcall
    exact .rect _ (inner_of_offset hx (toNat_offset hy (by omega)) (by omega) (by omega))
  · cases hcall

theorem Snug.close (h : Snug window) :
    closeButtonSize + closeButtonMargin < inner window.frameWidth ∧
      (closeX window).toNat = window.frameX.toNat + (window.frameWidth.toNat - 24) ∧
      (closeY window).toNat = window.frameY.toNat + 7 := by
  obtain ⟨hx, hy, hw, -⟩ := h.inside
  obtain ⟨hwidth, hheight, hmin, -, hlow, -⟩ := h.sizes
  have hright := h.right
  have hbottom := h.bottom
  have hboth : (closeButtonSize + closeButtonMargin).toNat = 22 := rfl
  have hmargin : closeButtonMargin.toNat = 8 := rfl
  have hsize : closeButtonSize.toNat = 14 := rfl
  have hhalf : ((titleBarHeight - closeButtonSize) / 2).toNat = 5 := rfl
  have hend := @toNat_offset _ (inner window.frameWidth) _ _ hx (by omega)
  refine ⟨?_, ?_, ?_⟩
  · rw [lt_iff, hboth, hw]
    omega
  · have hfirst : closeButtonMargin ≤ window.frameX + frameBorder + inner window.frameWidth := by
      rw [le_iff]
      omega
    have hbefore := UInt32.toNat_sub_of_le _ _ hfirst
    have hsecond : closeButtonSize ≤
        window.frameX + frameBorder + inner window.frameWidth - closeButtonMargin := by
      rw [le_iff]
      omega
    rw [closeX, UInt32.toNat_sub_of_le _ _ hsecond]
    omega
  · rw [closeY, toNat_offset hy (by omega)]
    omega

theorem closeSquare_within (h : Snug window) :
    ∀ call ∈ closeSquare looks f window, Within window call := by
  obtain ⟨hlt, hx, hy⟩ := h.close
  obtain ⟨hwidth, hheight, hmin, -, hlow, -⟩ := h.sizes
  have hbottom := h.bottom
  have hsize : closeButtonSize.toNat = 14 := rfl
  intro call hcall
  rw [closeSquare, if_pos hlt] at hcall
  obtain ⟨row, hmem, rfl⟩ := List.mem_map.mp hcall
  have hrow := List.mem_range.mp hmem
  have hofNat := @toNat_ofNat_lt row (by omega)
  refine .rect _ (inner_of_offset hx (toNat_offset hy (by omega)) (by omega) ?_)
  rw [UInt32.toNat_one]
  omega

theorem closeMarks_within (h : Snug window) :
    ∀ call ∈ closeMarks f window, Within window call := by
  obtain ⟨hlt, hx, hy⟩ := h.close
  obtain ⟨hwidth, hheight, hmin, -, hlow, -⟩ := h.sizes
  have hright := h.right
  have hbottom := h.bottom
  have hsize : closeButtonSize.toNat = 14 := rfl
  have hinset : (closeButtonSize / 4).toNat = 3 := rfl
  have hcross : (closeButtonSize - closeButtonSize / 4 * 2).toNat = 8 := rfl
  have htwo : (2 : UInt32).toNat = 2 := rfl
  have hone := UInt32.toNat_one
  have hX := @toNat_offset _ (closeButtonSize / 4) _ _ hx (by omega)
  have hY := @toNat_offset _ (closeButtonSize / 4) _ _ hy (by omega)
  intro call hcall
  rw [closeMarks, if_pos hlt] at hcall
  rcases List.mem_cons.mp hcall with rfl | hcall
  · exact .rect _ (inner_of_offset hx hy (by omega) (by omega))
  obtain ⟨i, hmem, hcall⟩ := List.mem_flatMap.mp hcall
  have hi := List.mem_range.mp hmem
  rw [hcross] at hi
  have hofNat := @toNat_ofNat_lt i (by omega)
  have hback : (closeButtonSize - closeButtonSize / 4 * 2 - 1 - UInt32.ofNat i).toNat = 7 - i := by
    have hseven : (closeButtonSize - closeButtonSize / 4 * 2 - 1).toNat = 7 := rfl
    rw [UInt32.toNat_sub_of_le _ _ (by rw [le_iff]; omega), hseven, hofNat]
  have hrow := @toNat_offset _ (UInt32.ofNat i) _ _ hY (by omega)
  simp only [List.mem_cons, List.not_mem_nil, or_false] at hcall
  rcases hcall with rfl | rfl
  · exact .rect _ (inner_of_offset (toNat_offset hX (by omega)) hrow (by omega) (by omega))
  · exact .rect _ (inner_of_offset (toNat_offset hX (by omega)) hrow (by omega) (by omega))

theorem drawText_within (h : Snug window) (text : Option (List UInt8)) (color : UInt32)
    (dropShadow : Bool) : ∀ call ∈ drawText looks f (window.frameX + frameBorder + 12)
      (window.frameY + frameBorder + (titleBarHeight - fontHeight) / 2) text color
      (inner window.frameWidth - 2 * 12) dropShadow, Within window call := by
  obtain ⟨hx, hy, hw, -⟩ := h.inside
  obtain ⟨hwidth, hheight, hmin, -, hlow, -⟩ := h.sizes
  have hright := h.right
  have hbottom := h.bottom
  have htwelve : (12 : UInt32).toNat = 12 := rfl
  have htwice : (2 * 12 : UInt32).toNat = 24 := rfl
  have hhalf : ((titleBarHeight - fontHeight) / 2).toNat = 4 := rfl
  have hfont : fontWidth.toNat = 8 := rfl
  have htall : fontHeight.toNat = 16 := rfl
  have hone := UInt32.toNat_one
  have hroom : (inner window.frameWidth - 2 * 12).toNat = window.frameWidth.toNat - 28 := by
    rw [UInt32.toNat_sub_of_le _ _ (by rw [le_iff]; omega), htwice, hw]
    omega
  have hX := @toNat_offset _ 12 _ _ hx (by omega)
  have hY := @toNat_offset _ ((titleBarHeight - fontHeight) / 2) _ _ hy (by omega)
  intro call hcall
  cases text with
  | none => cases hcall
  | some text =>
    simp only [drawText, Option.elim_some] at hcall
    split at hcall
    · cases hcall
    obtain ⟨i, hmem, hcall⟩ := List.mem_flatMap.mp hcall
    have hi := List.mem_range.mp hmem
    rw [List.length_take, UInt32.toNat_div, hroom, hfont] at hi
    have hofNat := @toNat_ofNat_lt i (by omega)
    have hskip : (UInt32.ofNat i * fontWidth).toNat = i * 8 := by
      rw [UInt32.toNat_mul, hofNat, hfont, Nat.mod_eq_of_lt (by omega)]
    have hcol := @toNat_offset _ (UInt32.ofNat i * fontWidth) _ _ hX (by omega)
    rcases List.mem_append.mp hcall with hcall | hcall
    · split at hcall
      · obtain rfl := List.mem_singleton.mp hcall
        exact .glyph _ _ _ (inner_of_offset (toNat_offset hcol (by omega))
          (toNat_offset hY (by omega)) (by omega) (by omega))
      · cases hcall
    · obtain rfl := List.mem_singleton.mp hcall
      exact .glyph _ _ _ (inner_of_offset hcol hY (by omega) (by omega))

theorem drawWindowFrame_within (h : Snug window) (active : Bool) :
    ∀ call ∈ drawWindowFrame looks f w window active, Within window call := by
  obtain ⟨hx, hy, hw, hh⟩ := h.inside
  obtain ⟨hwidth, hheight, hmin, -, hlow, -⟩ := h.sizes
  have hone := UInt32.toNat_one
  intro call hcall
  rw [drawWindowFrame] at hcall
  split at hcall
  · cases hcall
  split at hcall
  · cases hcall
  rcases List.mem_append.mp hcall with hcall | hcall
  · simp only [List.mem_cons, List.not_mem_nil, or_false] at hcall
    rcases hcall with rfl | rfl
    · exact .rect _ ⟨Nat.le_refl _, Nat.le_refl _, Nat.le_refl _, Nat.le_refl _⟩
    · exact .rect _ ⟨Nat.le_refl _, Nat.le_refl _, Nat.le_refl _, by omega⟩
  split at hcall
  · cases hcall
  rcases List.mem_append.mp hcall with hcall | hcall
  swap
  · exact drawText_within h _ _ _ call hcall
  rcases List.mem_append.mp hcall with hcall | hcall
  swap
  · exact closeMarks_within h call hcall
  rcases List.mem_append.mp hcall with hcall | hcall
  swap
  · exact closeSquare_within h call hcall
  rcases List.mem_append.mp hcall with hcall | hcall
  swap
  · exact accent_within h active call hcall
  rcases List.mem_append.mp hcall with hcall | hcall
  · obtain rfl := List.mem_singleton.mp hcall
    exact .rect _ (inner_of_offset hx hy (by omega) (by omega))
  · exact titleBar_within h active call hcall

theorem Snug.content (h : Snug window) (hoff : Offsets w) :
    (contentOriginX w window).toNat = window.frameX.toNat + 14 ∧
      (contentOriginY w window).toNat = window.frameY.toNat + 26 ∧
      window.contentWidth.toNat = window.visibleColumns.toNat * 8 ∧
      window.contentHeight.toNat = window.visibleRows.toNat * 16 := by
  obtain ⟨hwidth, hheight, hmin, hmax, hlow, hhigh⟩ := h.sizes
  have hright := h.right
  have hbottom := h.bottom
  have hleft : (frameBorder + contentPaddingX).toNat = 14 := rfl
  have htop : (frameBorder + titleBarHeight).toNat = 26 := rfl
  have hfont : fontWidth.toNat = 8 := rfl
  have htall : fontHeight.toNat = 16 := rfl
  refine ⟨?_, ?_, ?_, ?_⟩
  · rw [contentOriginX, hoff.1, UInt32.toNat_add, hleft, Nat.mod_eq_of_lt (by omega)]
  · rw [contentOriginY, hoff.2, UInt32.toNat_add, htop, Nat.mod_eq_of_lt (by omega)]
  · rw [h.contentWidth, UInt32.toNat_mul, hfont, Nat.mod_eq_of_lt (by omega)]
  · rw [h.contentHeight, UInt32.toNat_mul, htall, Nat.mod_eq_of_lt (by omega)]

theorem Snug.cell (h : Snug window) (hoff : Offsets w) :
    (∀ col < window.visibleColumns.toNat,
      (cellX w window col).toNat = window.frameX.toNat + (14 + col * 8)) ∧
    ∀ row < window.visibleRows.toNat,
      (cellY w window row).toNat = window.frameY.toNat + (26 + row * 16) := by
  obtain ⟨hX, hY, -⟩ := h.content hoff
  obtain ⟨hwidth, hheight, hmin, hmax, hlow, hhigh⟩ := h.sizes
  have hright := h.right
  have hbottom := h.bottom
  have hfont : fontWidth.toNat = 8 := rfl
  have htall : fontHeight.toNat = 16 := rfl
  refine ⟨fun col hcol => ?_, fun row hrow => ?_⟩
  · have hskip : (UInt32.ofNat col * fontWidth).toNat = col * 8 := by
      rw [UInt32.toNat_mul, toNat_ofNat_lt (by omega), hfont, Nat.mod_eq_of_lt (by omega)]
    rw [cellX, toNat_offset hX (by omega), hskip]
  · have hskip : (UInt32.ofNat row * fontHeight).toNat = row * 16 := by
      rw [UInt32.toNat_mul, toNat_ofNat_lt (by omega), htall, Nat.mod_eq_of_lt (by omega)]
    rw [cellY, toNat_offset hY (by omega), hskip]

theorem drawCell_within (h : Snug window) (hoff : Offsets w) {row col : Nat}
    (hrow : row < window.visibleRows.toNat) (hcol : col < window.visibleColumns.toNat) :
    ∀ call ∈ drawCell looks f w window row col, Within window call := by
  obtain ⟨hX, hY⟩ := h.cell hoff
  obtain ⟨hwidth, hheight, -⟩ := h.sizes
  have hfont : fontWidth.toNat = 8 := rfl
  have htall : fontHeight.toNat = 16 := rfl
  have hin : Inner window (cellX w window col) (cellY w window row) fontWidth fontHeight :=
    inner_of_offset (hX col hcol) (hY row hrow) (by omega) (by omega)
  intro call hcall
  simp only [drawCell, List.mem_cons, List.not_mem_nil, or_false] at hcall
  rcases hcall with rfl | rfl
  · exact .rect _ hin
  · exact .glyph _ _ _ hin

theorem drawCaret_within (h : Snug window) (hoff : Offsets w) (active : Bool) :
    ∀ call ∈ drawCaret f w window active, Within window call := by
  obtain ⟨hX, hY⟩ := h.cell hoff
  obtain ⟨hwidth, hheight, -⟩ := h.sizes
  have htwo : (2 : UInt32).toNat = 2 := rfl
  have htall : fontHeight.toNat = 16 := rfl
  intro call hcall
  simp only [drawCaret] at hcall
  split at hcall
  · rename_i hon
    obtain ⟨-, -, hrow, hcol⟩ := hon
    obtain rfl := List.mem_singleton.mp hcall
    exact .rect _ (inner_of_offset (hX _ hcol) (hY _ hrow) (by omega) (by omega))
  · cases hcall

theorem drawSnapshotContents_within (h : Snug window) (hoff : Offsets w) (active : Bool)
    (startRow endRow : Nat) :
    ∀ call ∈ drawSnapshotContents looks f w window active startRow endRow, Within window call := by
  have hrows : maxRows window ≤ window.visibleRows.toNat := Nat.min_le_left _ _
  have hcols : maxCols window ≤ window.visibleColumns.toNat := Nat.min_le_left _ _
  intro call hcall
  rw [drawSnapshotContents] at hcall
  split at hcall
  · cases hcall
  split at hcall
  · cases hcall
  split at hcall
  · cases hcall
  split at hcall
  · cases hcall
  rename_i hstart
  have hend : (if maxRows window ≤ endRow then maxRows window - 1 else endRow) < maxRows window := by
    split
    · omega
    · omega
  generalize (if maxRows window ≤ endRow then maxRows window - 1 else endRow) = last at hcall hend
  dsimp only at hcall
  split at hcall
  · cases hcall
  rcases List.mem_append.mp hcall with hcall | hcall
  · obtain ⟨row, hmem, hcall⟩ := List.mem_flatMap.mp hcall
    obtain ⟨hfirst, hlast⟩ := List.mem_range'_1.mp ((List.takeWhile_subset _) hmem)
    obtain ⟨col, hmem, hcall⟩ := List.mem_flatMap.mp hcall
    have hcol := List.mem_range.mp ((List.takeWhile_subset _) hmem)
    exact drawCell_within h hoff (by omega) (by omega) call hcall
  · exact drawCaret_within h hoff active call hcall

/-- **A window is drawn inside its frame.** -/
theorem renderWindow_within (h : Snug window) (hoff : Offsets w) (active : Bool) :
    ∀ call ∈ renderWindowCalls looks f w window active, Within window call := by
  obtain ⟨hx, hy, hwide, htall⟩ := h.content hoff
  obtain ⟨hwidth, hheight, -⟩ := h.sizes
  intro call hcall
  rcases List.mem_append.mp hcall with hcall | hcall
  swap
  · exact drawSnapshotContents_within h hoff active _ _ call hcall
  rcases List.mem_append.mp hcall with hcall | hcall
  swap
  · exact drawWindowFrame_within h active call hcall
  split at hcall
  · obtain rfl := List.mem_singleton.mp hcall
    exact .rect _ (inner_of_offset hx hy (by omega) (by omega))
  · cases hcall

end

end ContinuumOS.Gui.Drawing
