import ContinuumOS.Gui.Windows
import ContinuumOS.Sched.Delivery

/-! # The windows and the foreground

The window manager and the scheduler call each other: a click gives its process
the foreground, which brings its window to the top; killing a process closes
its window and gives the foreground back. `GuiState` is the state of both,
and `handleMouseEvent` the handler whose calls come back to the windows it works
on. -/
namespace ContinuumOS.Gui.Desktop
open ContinuumOS.Gui.Geometry ContinuumOS.Gui.Windows
open ContinuumOS.Sched.Events ContinuumOS.Sched.Delivery

structure GuiState where
  kernel : Kernel
  windows : WindowState

variable (fb : FrameBuffer) (d : GuiState)

/-! ## The foreground -/

/-- `scheduler_set_foreground` -/
def setForeground (proc : UInt32) : GuiState :=
  if d.kernel.foregroundProc = proc then d
  else ⟨schedulerSetForeground d.kernel proc, activateProcess fb d.windows proc⟩

/-- `scheduler_restore_foreground`. The window of the process that comes back is
activated also where it is in the foreground already. -/
def restoreForeground (owner : UInt32) : GuiState :=
  if owner ≠ 0 ∧ owner ≠ d.kernel.foregroundProc then d
  else ⟨schedulerRestoreForeground d.kernel owner,
    activateProcess fb d.windows (d.kernel.foregroundStack.headD 0)⟩

/-- `kill_process` -/
def killProcess (ptr : UInt32) : GuiState :=
  if ptr = 0 ∨ (d.kernel.events ptr).magic ≠ processMagic then d
  else
    let dead := { d.kernel.sched.procs ptr with alive := false }
    let kernel := { d.kernel with sched := d.kernel.sched.setProc ptr dead }
    restoreForeground fb ⟨kernel, onProcessExit fb d.windows ptr⟩ ptr

/-! ## The mouse -/

/-- `MOUSE_BUTTON_LEFT` -/
def mouseButtonLeft : UInt8 := 1

/-- What a part of the handler leaves: whether the handler returns there, what it
has in `consumed`, and the state. -/
structure Handled where
  returns : Bool
  consumed : Bool
  desktop : GuiState

/-- The window hit comes to the top, by way of its process. -/
def raiseWindow (slot : Nat) : GuiState :=
  let owner := (d.windows.windows slot).owner
  if owner ≠ 0 ∧ d.kernel.foregroundProc ≠ owner then setForeground fb d owner
  else { d with windows := focusWindow fb d.windows slot }

/-- The close button of the window hit. -/
def pressCloseButton (slot : Nat) : GuiState :=
  let d := { d with windows := stopResizing (stopDragging d.windows) }
  let owner := (d.windows.windows slot).owner
  if owner ≠ 0 then killProcess fb d owner
  else { d with windows := closeWindowSlot fb d.windows slot }

/-- What is dragged is the active window, whichever was hit. -/
def startDragging (w : WindowState) (cursorX cursorY : UInt32) : WindowState :=
  let window := w.windows w.activeSlot.toNat
  { stopResizing w with drag := ⟨true, w.activeSlot, int32 cursorX - int32 window.frameX,
      int32 cursorY - int32 window.frameY⟩ }

/-- The left button goes down. -/
def pressLeft (cursorX cursorY : UInt32) : Handled :=
  let hit := hitTestWindow fb d.windows cursorX cursorY
  if validInt d.windows hit.slot then
    let slot := hit.slot.toNat
    let d := raiseWindow fb d slot
    if hit.onCloseButton then ⟨true, true, pressCloseButton fb d slot⟩
    else if hit.resizeEdges ≠ resizeEdgeNone then
      ⟨false, true, { d with
        windows := beginResize (stopDragging d.windows) slot hit.resizeEdges cursorX cursorY }⟩
    else if validInt d.windows d.windows.activeSlot then
      ⟨false, true, { d with
        windows := if hit.onTitleBar then startDragging d.windows cursorX cursorY
          else stopResizing (stopDragging d.windows) }⟩
    else ⟨false, false, d⟩
  else ⟨false, false, { d with windows := stopResizing (stopDragging d.windows) }⟩

/-- The left button comes up. -/
def releaseLeft : Handled :=
  ⟨false, d.windows.drag.draggingWindow || d.windows.resize.resizingWindow,
    { d with windows := stopResizing (stopDragging d.windows) }⟩

/-- The part of the handler that resizes. -/
def resizeHeld (leftDown : Bool) (cursorX cursorY : UInt32) (w : WindowState) :
    Bool × WindowState :=
  if w.resize.resizingWindow then
    if leftDown then updateResize fb w cursorX cursorY else (false, stopResizing w)
  else (false, w)

/-- The result says whether the event is used up. -/
def handleMouseEvent (event : MouseEvent) : Bool × GuiState :=
  if fb.available then
    let d := { d with windows := ensureGeometry fb d.windows }
    let cursorX := if event.x < 0 then 0 else UInt32.ofInt event.x
    let cursorY := if event.y < 0 then 0 else UInt32.ofInt event.y
    let leftDown := event.buttons &&& mouseButtonLeft != 0
    let leftChanged := event.changed &&& mouseButtonLeft != 0
    let handled := if leftChanged && leftDown then pressLeft fb d cursorX cursorY
      else if leftChanged then releaseLeft d
      else ⟨false, false, d⟩
    let d := handled.desktop
    if handled.returns then (true, d)
    else
      let (redrawn, w) := resizeHeld fb leftDown cursorX cursorY d.windows
      if redrawn then (true, { d with windows := w })
      else if w.drag.draggingWindow && validInt w w.drag.dragSlot then
        (true, { d with windows := updateDrag fb w cursorX cursorY })
      else (handled.consumed, { d with windows := w })
  else (false, d)

/-! ## Steps -/

/-- The entry points of the window manager; `kernel` stands for whatever the
scheduler and the processes do to their own data in between. -/
inductive Act
  | requestNewWindow (proc : UInt32)
  | activateProcess (proc : UInt32)
  | setActiveWindowOrigin (proc : UInt32) (x y : Int)
  | writeText (proc : UInt32) (text : Option (List UInt8))
  | onProcessExit (proc : UInt32)
  | handleMouseEvent (event : MouseEvent)
  | windowPutChar (proc : UInt32) (x y : Nat) (ch color : UInt8)
  | windowSetCursor (proc : UInt32) (row column : Nat) (active : Bool)
  | windowPresent (proc : UInt32)
  | drawWorkspace
  | setForeground (proc : UInt32)
  | restoreForeground (owner : UInt32)
  | killProcess (proc : UInt32)
  | kernel (next : Kernel)

def step : Act → GuiState
  | .requestNewWindow proc => { d with windows := requestNewWindow fb d.windows proc }
  | .activateProcess proc => { d with windows := activateProcess fb d.windows proc }
  | .setActiveWindowOrigin proc x y =>
    { d with windows := setActiveWindowOrigin fb d.windows proc x y }
  | .writeText proc text => { d with windows := writeText fb d.windows proc text }
  | .onProcessExit proc => { d with windows := onProcessExit fb d.windows proc }
  | .handleMouseEvent event => (handleMouseEvent fb d event).2
  | .windowPutChar proc x y ch color =>
    { d with windows := windowPutChar d.windows proc x y ch color }
  | .windowSetCursor proc row column active =>
    { d with windows := windowSetCursor d.windows proc row column active }
  | .windowPresent proc => { d with windows := windowPresent d.windows proc }
  | .drawWorkspace => { d with windows := drawWorkspace fb d.windows }
  | .setForeground proc => setForeground fb d proc
  | .restoreForeground owner => restoreForeground fb d owner
  | .killProcess proc => killProcess fb d proc
  | .kernel next => { d with kernel := next }

end ContinuumOS.Gui.Desktop
