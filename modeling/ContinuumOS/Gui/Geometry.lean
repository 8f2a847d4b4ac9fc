import ContinuumOS.Gui.TextGrid
import Mathlib.Algebra.Group.Int.Defs
import Mathlib.Algebra.Group.Nat.Defs

/-! # Frames, dimensions and the parts of a window

What `src/kernel/terminal_windows.cpp` computes about a single window: its
dimensions from the visible cells, the clamping of its frame to the screen, the
frame that a resize asks for, and which part of it a position hits. Both axes
are computed alike; the functions of one axis stand for both. -/
namespace ContinuumOS.Gui.Geometry
open ContinuumOS.Gui.TextGrid

/-- `framebuffer::is_available` and the dimensions in `framebuffer::info`. -/
structure FrameBuffer where
  available : Bool
  width : UInt32
  height : UInt32
  deriving DecidableEq, Repr

/-- The fields of `Window`; `owner` is the address of a process or `NULL`. -/
structure Window where
  inUse : Bool
  owner : UInt32
  snapshot : Snapshot
  frameX : UInt32
  frameY : UInt32
  frameWidth : UInt32
  frameHeight : UInt32
  contentWidth : UInt32
  contentHeight : UInt32
  visibleColumns : UInt32
  visibleRows : UInt32
  dirty : DirtyRegion

/-- `Window{}` -/
def Window.unused : Window :=
  ⟨false, 0, .zero, 0, 0, 0, 0, 0, 0, UInt32.ofNat vgaWidth, UInt32.ofNat vgaHeight, ⟨0, 0, false⟩⟩

def Window.resetDirty (window : Window) : Window := { window with dirty := makeEmptyDirtyRegion }

def maxWindows : Nat := 8
def frameBorder : UInt32 := 2
def titleBarHeight : UInt32 := 24
def contentPaddingX : UInt32 := 12
def contentPaddingBottom : UInt32 := 12
def initialFrameX : UInt32 := 40
def initialFrameY : UInt32 := 72
def cascadeStepX : UInt32 := 28
def cascadeStepY : UInt32 := 28
def resizeMargin : UInt32 := 12
def minVisibleColumns : UInt32 := 24
def minVisibleRows : UInt32 := 12
def closeButtonSize : UInt32 := 14
def closeButtonMargin : UInt32 := 8

/-- `gui::FONT_WIDTH`, `gui::FONT_HEIGHT` -/
def fontWidth : UInt32 := 8
def fontHeight : UInt32 := 16

def resizeEdgeNone : UInt8 := 0
def resizeEdgeLeft : UInt8 := 1
def resizeEdgeRight : UInt8 := 2
def resizeEdgeTop : UInt8 := 4
def resizeEdgeBottom : UInt8 := 8

/-- `edges & edge` as a condition. -/
def hasEdge (edges edge : UInt8) : Bool := edges &&& edge != 0

/-- `static_cast<int32_t>` of a `uint32_t`. Sums and differences of such values
are those of the integers: the code is not defined where they overflow. -/
def int32 (x : UInt32) : Int := x.toInt32.toInt

theorem int32_of_lt {x : UInt32} (h : x.toNat < 2 ^ 31) : int32 x = x.toNat := by
  rw [int32, ← Int32.toInt_toBitVec, UInt32.toBitVec_toInt32]
  refine BitVec.toInt_eq_toNat_of_lt ?_
  show 2 * x.toNat < 2 ^ 32
  omega

theorem toNat_ofInt {i : Int} (hlow : 0 ≤ i) (hhigh : i < 2 ^ 32) :
    ((UInt32.ofInt i).toNat : Int) = i := by
  rw [UInt32.ofInt, UInt32.toNat_ofNat', Nat.mod_eq_of_lt (by omega)]
  omega

/-! ## Dimensions -/

def clampU32 (value minValue maxValue : UInt32) : UInt32 :=
  if value < minValue then minValue else if maxValue < value then maxValue else value

def contentPaddingWidth : UInt32 := 2 * frameBorder + 2 * contentPaddingX

def contentPaddingHeight : UInt32 := 2 * frameBorder + titleBarHeight + contentPaddingBottom

def applyVisibleDimensions (window : Window) (columns rows : UInt32) : Window :=
  let columns := clampU32 columns minVisibleColumns (UInt32.ofNat vgaWidth)
  let rows := clampU32 rows minVisibleRows (UInt32.ofNat vgaHeight)
  { window with
    visibleColumns := columns, visibleRows := rows
    contentWidth := columns * fontWidth, contentHeight := rows * fontHeight
    frameWidth := columns * fontWidth + contentPaddingWidth
    frameHeight := rows * fontHeight + contentPaddingHeight }

/-- One axis of `clamp_frame`. -/
def clampAxis (position size screen : UInt32) : UInt32 :=
  if screen ≤ size then 0
  else if screen < position + size then screen - size
  else position

def clampFrame (fb : FrameBuffer) (geometryReady : Bool)
    (frameX frameY frameWidth frameHeight : UInt32) : UInt32 × UInt32 :=
  if !fb.available || !geometryReady then (0, 0)
  else (clampAxis frameX frameWidth fb.width, clampAxis frameY frameHeight fb.height)

/-- The cells are within their bounds and the frame is theirs with the padding. -/
structure Legal (window : Window) : Prop where
  columns : minVisibleColumns ≤ window.visibleColumns ∧
    window.visibleColumns ≤ UInt32.ofNat vgaWidth
  rows : minVisibleRows ≤ window.visibleRows ∧ window.visibleRows ≤ UInt32.ofNat vgaHeight
  width : window.frameWidth = window.visibleColumns * fontWidth + contentPaddingWidth
  height : window.frameHeight = window.visibleRows * fontHeight + contentPaddingHeight

theorem clampU32_bounds (value : UInt32) {minValue maxValue : UInt32} (h : minValue ≤ maxValue) :
    minValue ≤ clampU32 value minValue maxValue ∧ clampU32 value minValue maxValue ≤ maxValue := by
  rw [clampU32]
  split
  · exact ⟨UInt32.le_refl _, h⟩
  split
  · exact ⟨h, UInt32.le_refl _⟩
  · rename_i hlow hhigh
    exact ⟨UInt32.not_lt.mp hlow, UInt32.not_lt.mp hhigh⟩

/-- **Whatever dimensions are asked for, a window gets legal ones.** -/
theorem legal_applyVisibleDimensions (window : Window) (columns rows : UInt32) :
    Legal (applyVisibleDimensions window columns rows) :=
  ⟨clampU32_bounds columns (by decide), clampU32_bounds rows (by decide), rfl, rfl⟩

theorem clampAxis_fits {position size screen : UInt32} (hsize : size ≤ screen)
    (hsum : position.toNat + size.toNat < UInt32.size) :
    (clampAxis position size screen).toNat + size.toNat ≤ screen.toNat := by
  have hle := UInt32.le_iff_toNat_le.mp hsize
  have hadd : (position + size).toNat = position.toNat + size.toNat := by
    rw [UInt32.toNat_add]
    exact Nat.mod_eq_of_lt hsum
  rw [clampAxis]
  split
  · rw [UInt32.toNat_zero]
    omega
  split
  · rw [UInt32.toNat_sub_of_le _ _ hsize]
    omega
  · rename_i hscreen
    have := UInt32.le_iff_toNat_le.mp (UInt32.not_lt.mp hscreen)
    omega

/-! ## Resizing -/

/-- Where the edges of one axis were at the start of a resize. -/
structure Extent where
  start : UInt32
  size : UInt32

/-- What `update_resize` uses of an axis: the screen, the padding, the pixels of
a cell and the bounds on the number of cells. -/
structure Axis where
  screen : UInt32
  padding : UInt32
  font : UInt32
  minCells : UInt32
  maxCells : UInt32

namespace Axis

/-- `min_frame_width`, `min_frame_height` -/
def minFrame (a : Axis) : Int := int32 (a.minCells * a.font + a.padding)

/-- The edge of `RESIZE_EDGE_LEFT` or `RESIZE_EDGE_TOP`. -/
def lowEdge (a : Axis) (low : Bool) (e : Extent) (delta : Int) : Int :=
  let startLow := int32 e.start
  let startHigh := int32 (e.start + e.size)
  if low then
    let edge := if startLow + delta < 0 then 0 else startLow + delta
    if startHigh - edge < a.minFrame then startHigh - a.minFrame else edge
  else startLow

/-- The edge of `RESIZE_EDGE_RIGHT` or `RESIZE_EDGE_BOTTOM`. -/
def highEdge (a : Axis) (high : Bool) (e : Extent) (delta lowEdge : Int) : Int :=
  let startHigh := int32 (e.start + e.size)
  if high then
    let edge := if int32 a.screen < startHigh + delta then int32 a.screen else startHigh + delta
    if edge - lowEdge < a.minFrame then lowEdge + a.minFrame else edge
  else startHigh

/-- Both edges after the checks that follow: the order, the screen and the
smallest size. -/
def edges (a : Axis) (low high : Bool) (e : Extent) (delta : Int) : Int × Int :=
  let lo := a.lowEdge low e delta
  let hi := a.highEdge high e delta lo
  let hi := if hi ≤ lo then lo + a.minFrame else hi
  let (lo, hi) := if int32 a.screen < hi then
      (if int32 a.screen - a.minFrame < 0 then 0 else int32 a.screen - a.minFrame, int32 a.screen)
    else (lo, hi)
  if hi - lo < a.minFrame then
    if low then (hi - a.minFrame, hi) else (lo, lo + a.minFrame)
  else (lo, hi)

/-- `max_columns_fb`, `max_rows_fb` as a bound on the number of cells. -/
def cellBound (a : Axis) : UInt32 :=
  let onScreen := if a.padding < a.screen then (a.screen - a.padding) / a.font else a.minCells
  if onScreen < a.minCells then a.minCells
  else if a.maxCells < onScreen then a.maxCells
  else onScreen

/-- `proposed_columns`, `proposed_rows` -/
def cells (a : Axis) (size : Int) : UInt32 :=
  let content := if int32 a.padding < size then UInt32.ofInt (size - int32 a.padding) else 0
  clampU32 (content / a.font) a.minCells a.cellBound

/-- Where the frame goes and how many cells it shows. -/
def resized (a : Axis) (low high : Bool) (e : Extent) (delta : Int) : UInt32 × UInt32 :=
  let (lo, hi) := a.edges low high e delta
  let cells := a.cells (hi - lo)
  let size := cells * a.font + a.padding
  let position := UInt32.ofInt (if lo < 0 then 0 else lo)
  let position := if low && !high then
      let anchor := if hi < 0 then 0 else UInt32.ofInt hi
      if anchor < size then 0 else anchor - size
    else position
  (position, cells)

end Axis

def columnAxis (fb : FrameBuffer) : Axis :=
  ⟨fb.width, contentPaddingWidth, fontWidth, minVisibleColumns, UInt32.ofNat vgaWidth⟩

def rowAxis (fb : FrameBuffer) : Axis :=
  ⟨fb.height, contentPaddingHeight, fontHeight, minVisibleRows, UInt32.ofNat vgaHeight⟩

/-! ## The parts of a window -/

structure WindowHitResult where
  slot : Int
  onTitleBar : Bool
  onCloseButton : Bool
  localX : UInt32
  localY : UInt32
  resizeEdges : UInt8
  deriving DecidableEq, Repr

/-- `WindowHitResult{}` -/
def WindowHitResult.none : WindowHitResult := ⟨-1, false, false, 0, 0, resizeEdgeNone⟩

/-- `resize_edges` of a position in a frame. -/
def resizeEdgesAt (window : Window) (relX relY : UInt32) : UInt8 :=
  let distRight := if relX < window.frameWidth then window.frameWidth - relX else 0
  let distBottom := if relY < window.frameHeight then window.frameHeight - relY else 0
  (if relX < resizeMargin then resizeEdgeLeft else 0) |||
  (if distRight ≤ resizeMargin then resizeEdgeRight else 0) |||
  (if relY < resizeMargin ∧ relY ≤ frameBorder + 4 then resizeEdgeTop else 0) |||
  (if distBottom ≤ resizeMargin then resizeEdgeBottom else 0)

/-- The square of the close button, which a narrow frame does not have. -/
def onCloseButton (window : Window) (relX relY : UInt32) : Bool :=
  let innerWidth := if 2 * frameBorder < window.frameWidth then window.frameWidth - 2 * frameBorder
    else 0
  let closeXStart := frameBorder + (if closeButtonSize + closeButtonMargin < innerWidth then
    innerWidth - closeButtonMargin - closeButtonSize else innerWidth)
  let closeYStart := frameBorder + (if closeButtonSize < titleBarHeight then
    (titleBarHeight - closeButtonSize) / 2 else 0)
  decide (closeButtonSize + closeButtonMargin < innerWidth) &&
    decide (closeXStart ≤ relX) && decide (relX < closeXStart + closeButtonSize) &&
    decide (closeYStart ≤ relY) && decide (relY < closeYStart + closeButtonSize)

/-- `test_slot` of `hit_test_window`, for a window in use. -/
def testWindow (window : Window) (slot : Nat) (x y : UInt32) : Option WindowHitResult :=
  if x < window.frameX ∨ y < window.frameY then none
  else
    let relX := x - window.frameX
    let relY := y - window.frameY
    if window.frameWidth ≤ relX ∨ window.frameHeight ≤ relY then none
    else if onCloseButton window relX relY then some ⟨slot, false, true, relX, relY, resizeEdgeNone⟩
    else
      let edges := resizeEdgesAt window relX relY
      if edges ≠ resizeEdgeNone then some ⟨slot, false, false, relX, relY, edges⟩
      else
        let titleRegion := frameBorder + titleBarHeight
        some ⟨slot, decide (relY < titleRegion), false, relX, relY, resizeEdgeNone⟩

end ContinuumOS.Gui.Geometry
