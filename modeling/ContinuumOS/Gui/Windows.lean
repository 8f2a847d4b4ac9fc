import ContinuumOS.Gui.Geometry
import ContinuumOS.Lib.Shift

/-! # The window manager

The globals of `src/kernel/terminal_windows.cpp` and every function that
changes them, but for the handler of the mouse. Of drawing only the effect on
these globals is modelled: what is drawn is no longer dirty. -/
namespace ContinuumOS.Gui.Windows
open ContinuumOS.Lib.Shift ContinuumOS.Gui.TextGrid ContinuumOS.Gui.Geometry

/-- `g_dragging_window` and what goes with it. -/
structure Drag where
  draggingWindow : Bool
  dragSlot : Int
  dragOffsetX : Int
  dragOffsetY : Int
  deriving DecidableEq, Repr

/-- `g_resizing_window` and what goes with it. -/
structure Resize where
  resizingWindow : Bool
  resizeSlot : Int
  resizeEdges : UInt8
  startCursorX : Int
  startCursorY : Int
  startFrameX : UInt32
  startFrameY : UInt32
  startFrameWidth : UInt32
  startFrameHeight : UInt32
  deriving DecidableEq, Repr

/-- The globals. A slot is an index of `windows`, which ends at `maxWindows`. -/
structure WindowState where
  windows : Nat → Window
  windowCount : Nat
  activeSlot : Int
  zOrder : List Nat
  zCount : Nat
  contentOffsetX : UInt32
  contentOffsetY : UInt32
  geometryReady : Bool
  blankSnapshot : Snapshot
  blankReady : Bool
  drag : Drag
  resize : Resize

/-- `INVALID_SLOT` -/
def invalidSlot : Int := -1

/-- What `stop_dragging` leaves. -/
def notDragging : Drag := ⟨false, invalidSlot, 0, 0⟩

/-- What `stop_resizing` leaves. -/
def notResizing : Resize := ⟨false, invalidSlot, resizeEdgeNone, 0, 0, 0, 0, 0, 0⟩

/-- The globals as the program starts with them. -/
def bootWindows : WindowState :=
  ⟨fun _ => Window.unused, 0, invalidSlot, List.replicate maxWindows 0, 0, 0, 0, false, .zero, false,
    notDragging, notResizing⟩

variable (fb : FrameBuffer) (w : WindowState)

def windowSlotValid (slot : Nat) : Bool := decide (slot < maxWindows) && (w.windows slot).inUse

/-- A test of the code on a slot kept as an `int`. -/
def validInt (slot : Int) : Bool := decide (0 ≤ slot) && windowSlotValid w slot.toNat

def setWindow (slot : Nat) (window : Window) : WindowState :=
  { w with windows := Function.update w.windows slot window }

@[simp] theorem setWindow_self (slot : Nat) (window : Window) :
    (setWindow w slot window).windows slot = window := Function.update_self ..

theorem setWindow_of_ne {slot i : Nat} (window : Window) (h : i ≠ slot) :
    (setWindow w slot window).windows i = w.windows i := Function.update_of_ne h ..

def stopDragging : WindowState := { w with drag := notDragging }

def stopResizing : WindowState := { w with resize := notResizing }

/-! ## The stack of windows -/

/-- `none` for the `MAX_WINDOWS` of the code. -/
def findStackPosition (slot : Nat) : Option Nat := find 0 w.zOrder w.zCount slot

def pushSlotToTop (slot : Nat) : WindowState :=
  if maxWindows ≤ slot then w
  else
    match findStackPosition w slot with
    | none =>
      if w.zCount < maxWindows then
        { w with zOrder := w.zOrder.set w.zCount slot, zCount := w.zCount + 1 }
      else w
    | some position =>
      let order := shiftDown 0 w.zOrder position (w.zCount - 1)
      { w with zOrder := order.set (w.zCount - 1) slot }

def removeSlotFromStack (slot : Nat) : WindowState :=
  match findStackPosition w slot with
  | none => w
  | some position =>
    { w with zOrder := shiftDown 0 w.zOrder position (w.zCount - 1), zCount := w.zCount - 1 }

/-! ## Slots -/

/-- The slot is `none` for the `MAX_WINDOWS` of the code. -/
def allocateWindowSlot : Option Nat × WindowState :=
  match (List.range maxWindows).find? fun i => !(w.windows i).inUse with
  | none => (none, w)
  | some i =>
    let w := setWindow w i { Window.unused.resetDirty with inUse := true }
    (some i, { w with windowCount := w.windowCount + 1 })

def releaseWindowSlot (slot : Nat) : WindowState :=
  if windowSlotValid w slot then
    let w := setWindow w slot Window.unused.resetDirty
    { w with windowCount := w.windowCount - 1 }
  else w

/-- `none` for the `-1` of the code. -/
def findWindowIndex (proc : UInt32) : Option Nat :=
  if proc = 0 then none
  else (List.range maxWindows).find? fun i => windowSlotValid w i && (w.windows i).owner == proc

/-! ## Drawing -/

def ensureGeometry : WindowState :=
  if w.geometryReady || !fb.available then w
  else { w with
    contentOffsetX := frameBorder + contentPaddingX
    contentOffsetY := frameBorder + titleBarHeight
    geometryReady := true }

def buildBlankSnapshot : WindowState :=
  if w.blankReady then w else { w with blankSnapshot := TextGrid.blankSnapshot, blankReady := true }

/-- `render_window` -/
def renderWindow (slot : Nat) : WindowState := setWindow w slot (w.windows slot).resetDirty

/-- A round of the loop of `draw_windows`, which leaves out the active window. -/
def renderInactive (i : Nat) : WindowState :=
  let slot := w.zOrder.getD i 0
  if !windowSlotValid w slot || (slot : Int) == w.activeSlot then w else renderWindow w slot

/-- The stack from the bottom, then the active window. -/
def drawWindows : WindowState :=
  if !fb.available || w.zCount == 0 then w
  else
    let w := ensureGeometry fb w
    let w := (List.range w.zCount).foldl renderInactive w
    if validInt w w.activeSlot then renderWindow w w.activeSlot.toNat else w

/-- `draw_workspace` of `src/kernel/gui.cpp`. -/
def drawWorkspace : WindowState := if fb.available then drawWindows fb w else w

def presentWindowSlot (slot : Nat) : WindowState :=
  if windowSlotValid w slot && dirtyRegionHasUpdates (w.windows slot).dirty then
    -- a window that is not active is only marked as drawn
    renderWindow w slot
  else w

/-! ## Focus -/

def focusWindow (slot : Nat) : WindowState :=
  if windowSlotValid w slot then
    let w := if w.geometryReady then w else ensureGeometry fb w
    if w.geometryReady then
      let previousActive := w.activeSlot
      let w := { pushSlotToTop w slot with activeSlot := slot }
      if previousActive ≠ slot then drawWindows fb w else w
    else w
  else w

def activateProcess (proc : UInt32) : WindowState :=
  if proc = 0 then w
  else
    let w := buildBlankSnapshot (ensureGeometry fb w)
    match findWindowIndex w proc with
    | none => w
    | some slot => focusWindow fb w slot

/-- The head of `close_window_slot`: no mode stays on in the slot. -/
def stopModes (slot : Nat) : WindowState :=
  let w := if w.drag.draggingWindow && w.drag.dragSlot == slot then stopDragging w else w
  if w.resize.resizingWindow && w.resize.resizeSlot == slot then stopResizing w else w

def closeWindowSlot (slot : Nat) : WindowState :=
  if windowSlotValid w slot then
    let w := releaseWindowSlot (removeSlotFromStack (stopModes w slot) slot) slot
    let w := { w with activeSlot :=
      if w.zCount = 0 then invalidSlot else (w.zOrder.getD (w.zCount - 1) 0 : Nat) }
    drawWorkspace fb w
  else w

/-! ## Requests of processes -/

/-- The window that `request_new_window` puts into a fresh slot. -/
def newWindow (proc : UInt32) (window : Window) : Window :=
  let window := { window with owner := proc, snapshot := w.blankSnapshot }.resetDirty
  let window := applyVisibleDimensions window (UInt32.ofNat vgaWidth) (UInt32.ofNat vgaHeight)
  let cascadeIndex := UInt32.ofNat w.zCount
  let (frameX, frameY) := clampFrame fb w.geometryReady
    (initialFrameX + cascadeIndex * cascadeStepX) (initialFrameY + cascadeIndex * cascadeStepY)
    window.frameWidth window.frameHeight
  { window with frameX, frameY }

def requestNewWindow (proc : UInt32) : WindowState :=
  if fb.available then
    let w := buildBlankSnapshot (ensureGeometry fb w)
    match findWindowIndex w proc with
    | some existing =>
      if proc ≠ 0 then activateProcess fb w proc else drawWindows fb (focusWindow fb w existing)
    | none =>
      if maxWindows ≤ w.windowCount then w
      else
        match allocateWindowSlot w with
        | (none, w) => w
        | (some slot, w) =>
          focusWindow fb (setWindow w slot (newWindow fb w proc (w.windows slot))) slot
  else w

def setActiveWindowOrigin (proc : UInt32) (x y : Int) : WindowState :=
  if proc = 0 ∨ fb.available = false then w
  else
    let w := ensureGeometry fb w
    match findWindowIndex w proc with
    | none => w
    | some slot =>
      let window := w.windows slot
      let desiredX := if x < 0 then 0 else UInt32.ofInt x
      let desiredY := if y < 0 then 0 else UInt32.ofInt y
      let frameX := if w.contentOffsetX < desiredX then desiredX - w.contentOffsetX else 0
      let frameY := if w.contentOffsetY < desiredY then desiredY - w.contentOffsetY else 0
      let (frameX, frameY) :=
        clampFrame fb w.geometryReady frameX frameY window.frameWidth window.frameHeight
      drawWindows fb (setWindow w slot { window with frameX, frameY })

def onProcessExit (proc : UInt32) : WindowState :=
  if proc = 0 ∨ fb.available = false then w
  else
    match findWindowIndex w proc with
    | none => w
    | some slot => closeWindowSlot fb w slot

def windowPresent (proc : UInt32) : WindowState :=
  match findWindowIndex w proc with
  | none => w
  | some slot => presentWindowSlot w slot

/-- What `write_text` writes into a window. -/
def writeWindow (window : Window) (text : List UInt8) : Window :=
  let dirty := if window.snapshot.cursorActive then
    markRowDirty window.dirty window.snapshot.cursorRow else window.dirty
  let (snapshot, dirty) := snapshotWrite window.snapshot dirty text
  { window with snapshot, dirty := markRowDirty dirty snapshot.cursorRow }

/-- `text` is `none` for a null pointer. Without a process or a framebuffer the
text goes to the terminal and no window changes. -/
def writeText (proc : UInt32) (text : Option (List UInt8)) : WindowState :=
  match text with
  | none => w
  | some text =>
    if text = [] then w
    else if proc = 0 ∨ fb.available = false then w
    else
      let w := buildBlankSnapshot (ensureGeometry fb w)
      let w := if findWindowIndex w proc = none then requestNewWindow fb w proc else w
      match findWindowIndex w proc with
      | none => w
      | some slot =>
        let w := setWindow w slot (writeWindow (w.windows slot) text)
        if (slot : Int) = w.activeSlot then windowPresent w proc else w

def windowPutChar (proc : UInt32) (x y : Nat) (ch color : UInt8) : WindowState :=
  match findWindowIndex w proc with
  | none => w
  | some slot =>
    if vgaWidth ≤ x ∨ vgaHeight ≤ y then w
    else
      let window := w.windows slot
      let s := window.snapshot
      if s.characters y x = ch ∧ s.colors y x = color then w
      else setWindow w slot { window with
        snapshot := { s with
          characters := s.characters.put y x ch, colors := s.colors.put y x color }
        dirty := markRowDirty window.dirty y }

def windowSetCursor (proc : UInt32) (row column : Nat) (active : Bool) : WindowState :=
  match findWindowIndex w proc with
  | none => w
  | some slot =>
    let window := w.windows slot
    let s := window.snapshot
    let dirty := if s.cursorActive ∧ s.cursorRow < vgaHeight then
      markRowDirty window.dirty s.cursorRow else window.dirty
    let row := if vgaHeight ≤ row then vgaHeight - 1 else row
    let column := if vgaWidth ≤ column then vgaWidth - 1 else column
    setWindow w slot { window with
      snapshot := { s with cursorRow := row, cursorColumn := column, cursorActive := active }
      dirty := if active then markRowDirty dirty row else dirty }

/-! ## Starting -/

def resetWindows : WindowState :=
  { w with
    windows := fun i => if i < maxWindows then Window.unused.resetDirty else w.windows i
    zOrder := List.replicate maxWindows 0
    windowCount := 0, zCount := 0, activeSlot := invalidSlot
    drag := notDragging, resize := notResizing }

/-- `initialProc` is `0` for a null pointer. -/
def init (initialProc : UInt32) : WindowState :=
  let w := buildBlankSnapshot (ensureGeometry fb (resetWindows w))
  if initialProc ≠ 0 then requestNewWindow fb w initialProc else w

/-! ## Moving and resizing -/

def beginResize (slot : Nat) (edges : UInt8) (cursorX cursorY : UInt32) : WindowState :=
  if windowSlotValid w slot then
    let window := w.windows slot
    { w with resize := ⟨true, slot, edges, int32 cursorX, int32 cursorY,
        window.frameX, window.frameY, window.frameWidth, window.frameHeight⟩ }
  else w

/-- The frame that the cursor asks for: its place, its columns and its rows. -/
def resizeTarget (cursorX cursorY : UInt32) : (UInt32 × UInt32) × UInt32 × UInt32 :=
  let r := w.resize
  let (x, columns) := (columnAxis fb).resized (hasEdge r.resizeEdges resizeEdgeLeft)
    (hasEdge r.resizeEdges resizeEdgeRight) ⟨r.startFrameX, r.startFrameWidth⟩
    (int32 cursorX - r.startCursorX)
  let (y, rows) := (rowAxis fb).resized (hasEdge r.resizeEdges resizeEdgeTop)
    (hasEdge r.resizeEdges resizeEdgeBottom) ⟨r.startFrameY, r.startFrameHeight⟩
    (int32 cursorY - r.startCursorY)
  (clampFrame fb w.geometryReady x y (columns * fontWidth + contentPaddingWidth)
    (rows * fontHeight + contentPaddingHeight), columns, rows)

/-- The result says whether the windows were drawn again. -/
def updateResize (cursorX cursorY : UInt32) : Bool × WindowState :=
  let r := w.resize
  if r.resizingWindow && validInt w r.resizeSlot && fb.width != 0 && fb.height != 0 then
    let slot := r.resizeSlot.toNat
    let window := w.windows slot
    let ((frameX, frameY), columns, rows) := resizeTarget fb w cursorX cursorY
    if columns * fontWidth + contentPaddingWidth = window.frameWidth ∧
        rows * fontHeight + contentPaddingHeight = window.frameHeight ∧
        frameX = window.frameX ∧ frameY = window.frameY then (false, w)
    else
      let window := applyVisibleDimensions window columns rows
      let window := { window with frameX, frameY, dirty := markFullDirty }
      (true, drawWindows fb (setWindow w slot window))
  else (false, w)

/-- The active window comes first, then the stack from the top. -/
def hitTestWindow (x y : UInt32) : WindowHitResult :=
  let testSlot := fun slot =>
    if windowSlotValid w slot then testWindow (w.windows slot) slot x y else none
  if !fb.available || !w.geometryReady || w.zCount == 0 then .none
  else
    let onActive := if 0 ≤ w.activeSlot then testSlot w.activeSlot.toNat else none
    match onActive with
    | some result => result
    | none =>
      ((List.range w.zCount).reverse.findSome? fun i =>
        let slot := w.zOrder.getD i 0
        if (slot : Int) = w.activeSlot then none else testSlot slot).getD .none

/-- Where the cursor asks the dragged window to go. -/
def dragTarget (cursorX cursorY : UInt32) : UInt32 × UInt32 :=
  let window := w.windows w.drag.dragSlot.toNat
  let desiredX := int32 cursorX - w.drag.dragOffsetX
  let desiredY := int32 cursorY - w.drag.dragOffsetY
  clampFrame fb w.geometryReady (UInt32.ofInt (if desiredX < 0 then 0 else desiredX))
    (UInt32.ofInt (if desiredY < 0 then 0 else desiredY)) window.frameWidth window.frameHeight

/-- The part of `handle_mouse_event` that moves the window dragged. -/
def updateDrag (cursorX cursorY : UInt32) : WindowState :=
  let slot := w.drag.dragSlot.toNat
  let window := w.windows slot
  let (frameX, frameY) := dragTarget fb w cursorX cursorY
  if frameX ≠ window.frameX ∨ frameY ≠ window.frameY then
    drawWindows fb (setWindow w slot { window with frameX, frameY })
  else w

end ContinuumOS.Gui.Windows
