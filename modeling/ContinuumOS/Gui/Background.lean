import ContinuumOS.Gui.Redraw

/-! # The desktop behind the windows

The background of `src/kernel/gui.cpp`: a gradient over the rows, or one color.
A frame that moves is filled with it before the windows are drawn again, and a
redraw of the whole workspace starts with it. `Scene` is what the screen, the
windows and the background are together, and `handleHeld` the handler of the
mouse while the left button stays down. -/
namespace ContinuumOS.Gui.Background
open ContinuumOS.Lib.Layers ContinuumOS.Lib.Runs ContinuumOS.Gui.TextGrid ContinuumOS.Gui.Geometry
open ContinuumOS.Gui.Framebuffer
open ContinuumOS.Gui.DoubleBuffer ContinuumOS.Gui.Pixels ContinuumOS.Gui.Windows
open ContinuumOS.Gui.Drawing ContinuumOS.Gui.Picture ContinuumOS.Gui.Redraw
open ContinuumOS.Gui.Clicks ContinuumOS.Gui.Stacking ContinuumOS.Gui.Consistency
open ContinuumOS.Gui.Frames hiding OnScreen Admissible
open ContinuumOS.Gui.MouseCursor (Screen suspendMouseCursor resumeMouseCursor moveCursor Readable)
open ContinuumOS.Sched.Delivery (MouseEvent Kernel booted)
open ContinuumOS.Gui.Desktop (mouseButtonLeft)

/-! ## The background -/

/-- `TOP_COLOR`, `BOTTOM_COLOR` -/
def topColor : RGB := ⟨24, 28, 38⟩
def bottomColor : RGB := ⟨10, 14, 22⟩

/-- `g_background_override_active`, `g_background_override_color` -/
structure Fill where
  overrideActive : Bool
  overrideColor : UInt32
  deriving DecidableEq, Repr

/-- A component of the color between two. -/
def blend (top bottom : UInt8) (inv mix : UInt32) : UInt8 :=
  ((top.toUInt32 * inv + bottom.toUInt32 * mix) / 255).toUInt8

section

variable (f : Framebuffer) (b : Fill)

def gradientColor (y : UInt32) : UInt32 :=
  if f.available = false then 0
  else if f.info.height = 0 then pack f topColor
  else
    let clampedY := if f.info.height ≤ y then f.info.height - 1 else y
    let mix := if 1 < f.info.height then clampedY * 255 / (f.info.height - 1) else 0
    let inv := 255 - mix
    f.packColor (blend topColor.r bottomColor.r inv mix) (blend topColor.g bottomColor.g inv mix)
      (blend topColor.b bottomColor.b inv mix)

/-- The rows of `fill_background_rect` up to the border of the screen. -/
def backgroundRows (y height : UInt32) : List Nat :=
  (List.range height.toNat).takeWhile fun row => decide (y + UInt32.ofNat row < f.info.height)

def fillBackgroundRect (x y width height : UInt32) : List Call :=
  if f.available = false ∨ width = 0 ∨ height = 0 then []
  else if f.info.width ≤ x ∨ f.info.height ≤ y then []
  else if b.overrideActive then [rect x y width height b.overrideColor]
  else (backgroundRows f y height).map fun row =>
    rect x (y + UInt32.ofNat row) width 1 (gradientColor f (y + UInt32.ofNat row))

def drawBackgroundGradient : List Call :=
  if f.available = false then [] else fillBackgroundRect f b 0 0 f.info.width f.info.height

/-- The color of the desktop in a row. -/
def desktopColor (y : UInt32) : UInt32 :=
  if b.overrideActive then b.overrideColor else gradientColor f y

end

/-! ## Drawing the windows again -/

structure Scene where
  screen : Screen
  windows : WindowState
  background : Fill

def paint (s : Screen) (calls : List Call) : Screen :=
  { s with framebuffer := s.framebuffer.run calls }

/-- What `draw_windows` draws. -/
def drawWindowsOn (looks : Looks) (s : Screen) (w : WindowState) : Screen :=
  let s := beginWindowRedraw s
  endWindowRedraw (paint s ((drawWindowsCalls looks s.framebuffer w).map Prod.snd))

def drawWorkspace (looks : Looks) (s : Scene) : Scene :=
  let fb := s.screen.framebuffer
  if fb.available = false then s
  else
    let screen := beginWindowRedraw s.screen
    let screen := paint screen (drawBackgroundGradient screen.framebuffer s.background)
    { s with
      screen := endWindowRedraw (drawWindowsOn looks screen s.windows)
      windows := Windows.drawWorkspace (screenOf fb) s.windows }

/-- `update_resize` up to the drawing: the windows with the new frame, where it
changes. -/
def resized (fb : FrameBuffer) (w : WindowState) (cursorX cursorY : UInt32) :
    Option WindowState :=
  let r := w.resize
  if r.resizingWindow && validInt w r.resizeSlot && fb.width != 0 && fb.height != 0 then
    let slot := r.resizeSlot.toNat
    let window := w.windows slot
    let ((frameX, frameY), columns, rows) := resizeTarget fb w cursorX cursorY
    if columns * fontWidth + contentPaddingWidth = window.frameWidth ∧
        rows * fontHeight + contentPaddingHeight = window.frameHeight ∧
        frameX = window.frameX ∧ frameY = window.frameY then none
    else
      let window := applyVisibleDimensions window columns rows
      some (setWindow w slot { window with frameX, frameY, dirty := markFullDirty })
  else none

/-- The drag of `handle_mouse_event` up to the drawing. -/
def dragged (fb : FrameBuffer) (w : WindowState) (cursorX cursorY : UInt32) :
    Option WindowState :=
  let slot := w.drag.dragSlot.toNat
  let window := w.windows slot
  let (frameX, frameY) := dragTarget fb w cursorX cursorY
  if frameX ≠ window.frameX ∨ frameY ≠ window.frameY then
    some (setWindow w slot { window with frameX, frameY })
  else none

/-- The old frame of a window is filled with the background, and the windows are
drawn as they are now. -/
def redrawMoved (looks : Looks) (s : Scene) (slot : Nat) (w : WindowState) : Scene :=
  let fb := s.screen.framebuffer
  let old := s.windows.windows slot
  let erased := if 0 < old.frameWidth ∧ 0 < old.frameHeight then
      paint s.screen (fillBackgroundRect fb s.background old.frameX old.frameY old.frameWidth
        old.frameHeight)
    else s.screen
  { s with
    screen := drawWindowsOn looks erased w
    windows := Windows.drawWindows (screenOf fb) w }

/-- `handle_mouse_event` of `terminal_windows.cpp` where the left button does not go
down. -/
def moveWindows (looks : Looks) (s : Scene) (event : MouseEvent) : Scene :=
  let fb := screenOf s.screen.framebuffer
  if fb.available then
    let w := ensureGeometry fb s.windows
    let cursorX := if event.x < 0 then 0 else UInt32.ofInt event.x
    let cursorY := if event.y < 0 then 0 else UInt32.ofInt event.y
    let leftDown := event.buttons &&& mouseButtonLeft != 0
    let w := if event.changed &&& mouseButtonLeft != 0 then stopResizing (stopDragging w) else w
    match if w.resize.resizingWindow && leftDown then resized fb w cursorX cursorY else none with
    | some w' => redrawMoved looks { s with windows := w } w.resize.resizeSlot.toNat w'
    | none =>
      let w := if w.resize.resizingWindow && !leftDown then stopResizing w else w
      if w.drag.draggingWindow && validInt w w.drag.dragSlot then
        (dragged fb w cursorX cursorY).elim { s with windows := w }
          (redrawMoved looks { s with windows := w } w.drag.dragSlot.toNat)
      else { s with windows := w }
  else s

/-- `handle_mouse_event` of `gui.cpp` where the left button does not go down. -/
def handleMouseEvent (looks : Looks) (s : Scene) (event : MouseEvent) : Scene :=
  if s.screen.framebuffer.available = false then s
  else
    let s := moveWindows looks { s with screen := moveCursor s.screen event } event
    { s with screen := resumeMouseCursor s.screen }

/-- A redraw of the workspace, or an event of the mouse. -/
inductive Act where
  | drawWorkspace
  | handleMouseEvent (event : MouseEvent)

def step (looks : Looks) (s : Scene) : Act → Scene
  | .drawWorkspace => drawWorkspace looks s
  | .handleMouseEvent event => handleMouseEvent looks s event

/-- The left button goes down. -/
def Presses (event : MouseEvent) : Prop :=
  event.buttons &&& mouseButtonLeft ≠ 0 ∧ event.changed &&& mouseButtonLeft ≠ 0

/-- The cursor is taken away for the event. -/
def Moves (s : Screen) (event : MouseEvent) : Prop :=
  event.x ≠ s.cursor.x ∨ event.y ≠ s.cursor.y ∨ event.buttons ≠ s.cursor.buttons

/-- A window is dragged or resized. -/
def Holds (w : WindowState) : Prop :=
  w.drag.draggingWindow = true ∨ w.resize.resizingWindow = true

/-- The events of a drag: on the screen, none that presses the left button, and none
that stays where the cursor is while a window is held. -/
def Admissible (s : Scene) : Act → Prop
  | .drawWorkspace => True
  | .handleMouseEvent event =>
    Frames.OnScreen (screenOf s.screen.framebuffer) event ∧ ¬ Presses event ∧
      (Holds s.windows → Moves s.screen event)

/-- The framebuffer under the mouse cursor. -/
def under (s : Screen) : Framebuffer := (suspendMouseCursor s).framebuffer

/-- No frame is waiting to be shown. -/
def Presented (f : Framebuffer) : Prop :=
  f.doubleBufferEnabled = true → f.frameInProgress = false

/-- Each pixel shows the topmost window there, and the background where there is none. -/
def Covered (looks : Looks) (f : Framebuffer) (b : Fill) (w : WindowState) : Prop :=
  ∀ p, OnScreen f p → shown f p =
    inked f (overlay inkOf ((drawWindowsCalls looks f w).map Prod.snd) p)
      (stored f (desktopColor f b p.2))

/-- The screen, under the mouse cursor, shows the windows and the background, and
nothing else. -/
structure Complete (looks : Looks) (s : Scene) : Prop where
  presented : Presented (under s.screen)
  covered : Covered looks (under s.screen) s.background s.windows

section

variable {looks : Looks} {f f' : Framebuffer} {b : Fill} {p : UInt32 × UInt32} {w w' : WindowState}

/-! ## Layers of ink -/

/-- A call that only draws, and lays its ink over what is shown. -/
def Lays (call : Call) : Prop := ∀ f, Valid f → Drawn f (f.step call) ∧
  ∀ p, OnScreen f p → shown (f.step call) p = inked f (inkOf call p) (shown f p)

theorem lays_rect {x y width height : UInt32} (hx : x.toNat + width.toNat < 2 ^ 32)
    (hy : y.toNat + height.toNat < 2 ^ 32) (color : UInt32) : Lays (rect x y width height color) :=
  fun f hv => ⟨fillRect_drawn f _ _ _ _ color .draw, fun _ hp => rect_shown hv hx hy color hp⟩

theorem drawn_trans {f'' : Framebuffer} (h : Drawn f f') (h' : Drawn f' f'') : Drawn f f'' := by
  obtain ⟨m, q, rfl⟩ := h
  obtain ⟨m', q', rfl⟩ := h'
  exact ⟨m', q', rfl⟩

theorem run_lays {calls : List Call} (hc : ∀ call ∈ calls, Lays call) (hv : Valid f) :
    Drawn f (f.run calls) ∧ ∀ p, OnScreen f p →
      shown (f.run calls) p = inked f (overlay inkOf calls p) (shown f p) := by
  induction calls generalizing f with
  | nil => exact ⟨⟨f.memory, f.frameInProgress, rfl⟩, fun _ _ => rfl⟩
  | cons call calls ih =>
    obtain ⟨hd, hone⟩ := hc call List.mem_cons_self f hv
    obtain ⟨hinfo, hbytes⟩ := hd.format
    obtain ⟨hrest, hshown⟩ := ih (f := f.step call) (fun c h => hc c (List.mem_cons_of_mem call h))
      (Drawn.valid hd hv)
    refine ⟨drawn_trans hd hrest, fun p hp => ?_⟩
    refine (hshown p (by rw [OnScreen, hinfo]; exact hp)).trans ?_
    rw [hone p hp, overlay_cons]
    cases overlay inkOf calls p with
    | none => rfl
    | some color =>
      change stored (f.step call) color = stored f color
      rw [stored, stored, hbytes]

/-! ## The background is drawn -/

theorem toNat_row {y height : UInt32} (hy : y.toNat + height.toNat < 2 ^ 32) {row : Nat}
    (hrow : row < height.toNat) : (y + UInt32.ofNat row).toNat = y.toNat + row := by
  rw [UInt32.toNat_add, toNat_ofNat_lt (by omega), Nat.mod_eq_of_lt (by omega)]

theorem mem_backgroundRows {y height : UInt32} (hy : y.toNat + height.toNat < 2 ^ 32) {row : Nat} :
    row ∈ backgroundRows f y height ↔
      row < height.toNat ∧ y.toNat + row < f.info.height.toNat := by
  have hrows : backgroundRows f y height =
      List.range (min height.toNat (f.info.height.toNat - y.toNat)) := by
    refine MouseCursor.takeWhile_range _ fun i hi => decide_eq_decide.mpr ?_
    rw [lt_iff, toNat_row hy hi]
    omega
  rw [hrows, List.mem_range]
  omega

theorem fillBackgroundRect_lays {x y width height : UInt32}
    (hx : x.toNat + width.toNat < 2 ^ 32) (hy : y.toNat + height.toNat < 2 ^ 32) :
    ∀ call ∈ fillBackgroundRect f b x y width height, Lays call := by
  intro call hcall
  rw [fillBackgroundRect] at hcall
  split at hcall
  · cases hcall
  split at hcall
  · cases hcall
  split at hcall
  · obtain rfl := List.mem_singleton.mp hcall
    exact lays_rect hx hy _
  · obtain ⟨row, hrow, rfl⟩ := List.mem_map.mp hcall
    have hlt := ((mem_backgroundRows hy).mp hrow).1
    have hone : UInt32.toNat 1 = 1 := rfl
    exact lays_rect hx (by rw [toNat_row hy hlt, hone]; omega) _

/-- **Filling with the background** gives the pixels of the rectangle the color of the
desktop in their row. -/
theorem fillBackgroundRect_ink {x y width height : UInt32}
    (hx : x.toNat + width.toNat < 2 ^ 32) (hy : y.toNat + height.toNat < 2 ^ 32)
    (havailable : f.available = true) (hp : OnScreen f p) :
    overlay inkOf (fillBackgroundRect f b x y width height) p =
      if inRect x y width height p.1 p.2 then some (desktopColor f b p.2) else none := by
  have hmiss : (width = 0 ∨ height = 0) ∨ f.info.width ≤ x ∨ f.info.height ≤ y →
      ¬ inRect x y width height p.1 p.2 := not_inRect hx hy hp.1 hp.2
  rw [fillBackgroundRect, havailable, desktopColor]
  by_cases hsize : width = 0 ∨ height = 0
  · rw [if_pos (.inr hsize), if_neg (hmiss (.inl hsize))]
    rfl
  rw [if_neg (not_or.mpr ⟨Bool.noConfusion, hsize⟩)]
  by_cases hout : f.info.width ≤ x ∨ f.info.height ≤ y
  · rw [if_pos hout, if_neg (hmiss (.inr hout))]
    rfl
  rw [if_neg hout]
  split
  · rw [overlay_singleton]
    rfl
  rw [overlay_map]
  have hone : UInt32.toNat 1 = 1 := rfl
  have hrow : ∀ row < height.toNat, (y + UInt32.ofNat row).toNat = y.toNat + row :=
    fun row hlt => toNat_row hy hlt
  -- the rectangle of a row, one pixel high
  have hin : ∀ row < height.toNat, (inRect x (y + UInt32.ofNat row) width 1 p.1 p.2 ↔
      (x.toNat ≤ p.1.toNat ∧ p.1.toNat < x.toNat + width.toNat) ∧ p.2.toNat = y.toNat + row) := by
    intro row hlt
    rw [inRect_iff hx (by rw [hrow row hlt, hone]; omega), hrow row hlt, hone]
    omega
  by_cases hp' : inRect x y width height p.1 p.2
  · obtain ⟨h₁, h₂, h₃, h₄⟩ := (inRect_iff hx hy).mp hp'
    rw [if_pos hp']
    refine overlay_const (fun row hmem u hu => ?_) ⟨p.2.toNat - y.toNat, ?_, ?_⟩
    · have hlt := ((mem_backgroundRows hy).mp hmem).1
      obtain ⟨hhit, hcolor⟩ := Option.ite_none_right_eq_some.mp hu
      have hsame : y + UInt32.ofNat row = p.2 := by
        rw [← UInt32.toNat_inj, hrow row hlt]
        exact ((hin row hlt).mp hhit).2.symm
      rw [← hsame]
      exact (Option.some.inj hcolor).symm
    · have hscreen := lt_iff.mp hp.2
      exact (mem_backgroundRows hy).mpr ⟨by omega, by omega⟩
    · have hhit := (hin (p.2.toNat - y.toNat) (by omega)).mpr ⟨⟨h₁, h₂⟩, by omega⟩
      change (if _ then some _ else none) ≠ none
      rw [if_pos hhit]
      exact Option.some_ne_none _
  · rw [if_neg hp']
    refine overlay_eq_none.mpr fun row hmem => if_neg fun hhit => hp' ?_
    have hlt := ((mem_backgroundRows hy).mp hmem).1
    obtain ⟨⟨h₁, h₂⟩, h₃⟩ := (hin row hlt).mp hhit
    exact (inRect_iff hx hy).mpr ⟨h₁, h₂, by omega, by omega⟩

/-! ## What the calls depend on -/

theorem drawn_mode (hd : Drawn f f') : SameMode f f' := by
  obtain ⟨m, q, rfl⟩ := hd
  exact ⟨m, q, _, _, _, rfl⟩

theorem mode_trans {f'' : Framebuffer} (h : SameMode f f') (h' : SameMode f' f'') :
    SameMode f f'' := by
  obtain ⟨m, q, i, j, y, rfl⟩ := h
  obtain ⟨m', q', i', j', y', rfl⟩ := h'
  exact ⟨m', q', i', j', y', rfl⟩

theorem mode_info (h : SameMode f f') : f'.info = f.info := by
  obtain ⟨m, q, i, j, y, rfl⟩ := h
  rfl

theorem mode_available (h : SameMode f f') : f'.available = f.available := by
  obtain ⟨m, q, i, j, y, rfl⟩ := h
  rfl

theorem mode_calls (h : SameMode f f') (w : WindowState) :
    drawWindowsCalls looks f' w = drawWindowsCalls looks f w := by
  obtain ⟨m, q, i, j, y, rfl⟩ := h
  rfl

theorem mode_desktop (h : SameMode f f') (y : UInt32) :
    desktopColor f' b y = desktopColor f b y := by
  obtain ⟨m, q, i, j, y, rfl⟩ := h
  rfl

theorem mode_stored (h : SameMode f f') (color : UInt32) :
    stored f' color = stored f color := by
  obtain ⟨m, q, i, j, y, rfl⟩ := h
  rfl

theorem mode_inked (h : SameMode f f') (ink : Option UInt32) (before : UInt32) :
    inked f' ink before = inked f ink before := by
  obtain ⟨m, q, i, j, y, rfl⟩ := h
  rfl

/-- The windows differ only in what is marked to be drawn again, and in the modes. -/
structure SameLook (w w' : WindowState) : Prop where
  rest : w' = { w with windows := w'.windows, drag := w'.drag, resize := w'.resize }
  windows : ∀ i, (w'.windows i).resetDirty = (w.windows i).resetDirty

theorem SameLook.refl (w : WindowState) : SameLook w w := ⟨rfl, fun _ => rfl⟩

theorem SameLook.trans {w'' : WindowState} (h : SameLook w w') (h' : SameLook w' w'') :
    SameLook w w'' := by
  refine ⟨?_, fun i => (h'.windows i).trans (h.windows i)⟩
  rw [h'.rest, h.rest]

theorem sameLook_modes (w : WindowState) (drag : Drag) (resize : Resize) :
    SameLook w { w with drag := drag, resize := resize } := ⟨rfl, fun _ => rfl⟩

theorem sameLook_renderWindow (w : WindowState) (slot : Nat) :
    SameLook w (renderWindow w slot) := by
  refine ⟨rfl, fun i => ?_⟩
  by_cases hi : i = slot
  · rw [hi, renderWindow, setWindow_self]
    rfl
  · rw [renderWindow, setWindow_of_ne w _ hi]

theorem sameLook_foldl (slots : List Nat) (w : WindowState) :
    SameLook w (slots.foldl renderInactive w) := by
  induction slots generalizing w with
  | nil => exact .refl w
  | cons slot slots ih =>
    refine SameLook.trans ?_ (ih _)
    rw [renderInactive]
    split
    · exact .refl w
    · exact sameLook_renderWindow w _

theorem SameLook.prepare (h : SameLook w w') (fb : FrameBuffer) :
    SameLook (ensureGeometry fb w) (ensureGeometry fb w') := by
  have hready : w'.geometryReady = w.geometryReady := by rw [h.rest]
  rw [ensureGeometry, ensureGeometry, hready]
  split
  · exact h
  · exact ⟨by rw [h.rest], h.windows⟩

theorem SameLook.drawnWindows (h : SameLook w w') : drawnWindows w' = drawnWindows w := by
  have hvalid : windowSlotValid w' = windowSlotValid w := by
    funext slot
    have hinUse : (w'.windows slot).resetDirty.inUse = (w.windows slot).resetDirty.inUse := by
      rw [h.windows]
    exact congrArg (decide (slot < maxWindows) && ·) hinUse
  have hvalidInt : validInt w' = validInt w := by
    funext slot
    rw [validInt, validInt, hvalid]
  rw [Drawing.drawnWindows, Drawing.drawnWindows, hvalid, hvalidInt, h.rest]

theorem SameLook.render (h : SameLook w w') (slot : Nat) (active : Bool) :
    renderWindowCalls looks f w' (w'.windows slot) active =
      renderWindowCalls looks f w (w.windows slot) active := by
  calc renderWindowCalls looks f w' (w'.windows slot) active
      = renderWindowCalls looks f w' (w'.windows slot).resetDirty active := rfl
    _ = renderWindowCalls looks f w' (w.windows slot).resetDirty active := by rw [h.windows]
    _ = renderWindowCalls looks f w (w.windows slot) active := by
        rw [h.rest]
        rfl

/-- What is marked to be drawn again does not change what a drawing of all is. -/
theorem SameLook.calls (h : SameLook w w') :
    drawWindowsCalls looks f w' = drawWindowsCalls looks f w := by
  have hcount : w'.zCount = w.zCount := by rw [h.rest]
  have hp := h.prepare (screenOf f)
  rw [drawWindowsCalls, drawWindowsCalls, hcount]
  split
  · rfl
  change (Drawing.drawnWindows (ensureGeometry (screenOf f) w')).flatMap _ =
    (Drawing.drawnWindows (ensureGeometry (screenOf f) w)).flatMap _
  rw [hp.drawnWindows]
  refine congrArg (List.flatMap · _) (funext fun d => ?_)
  exact congrArg (List.map _) (hp.render d.1 d.2)

theorem calls_ensureGeometry (w : WindowState) :
    drawWindowsCalls looks f (ensureGeometry (screenOf f) w) = drawWindowsCalls looks f w := by
  have hsame : ensureGeometry (screenOf f) (ensureGeometry (screenOf f) w) =
      ensureGeometry (screenOf f) w := by
    by_cases h : (w.geometryReady || !(screenOf f).available) = true
    · have hself : ensureGeometry (screenOf f) w = w := if_pos h
      rw [hself, hself]
    · rw [ensureGeometry, ensureGeometry, if_neg h]
      rfl
  have hcount : (ensureGeometry (screenOf f) w).zCount = w.zCount := by
    rw [ensureGeometry]
    split
    · rfl
    · rfl
  rw [drawWindowsCalls, drawWindowsCalls, hcount, hsame]

theorem calls_drawWindows (w : WindowState) :
    drawWindowsCalls looks f (drawWindows (screenOf f) w) = drawWindowsCalls looks f w := by
  rw [drawWindows]
  split
  · rfl
  rw [← calls_ensureGeometry w]
  refine SameLook.calls ?_
  refine (sameLook_foldl (List.range (ensureGeometry (screenOf f) w).zCount) _).trans ?_
  dsimp only
  split
  · exact sameLook_renderWindow _ _
  · exact .refl _

/-! ## The cursor and the frame -/

/-- Only the memory is other. -/
def Stays (f f' : Framebuffer) : Prop := ∃ m, f' = { f with memory := m }

theorem Stays.trans {f'' : Framebuffer} (h : Stays f f') (h' : Stays f' f'') : Stays f f'' := by
  obtain ⟨m, rfl⟩ := h
  obtain ⟨m', rfl⟩ := h'
  exact ⟨m', rfl⟩

theorem Stays.presented (h : Stays f f') (hp : Presented f) : Presented f' := by
  obtain ⟨m, rfl⟩ := h
  exact hp

theorem fillRect_stays (f : Framebuffer) (x y width height color : UInt32) :
    Stays f (f.fillRect x y width height color .display) := by
  rw [Framebuffer.fillRect]
  split
  · exact ⟨_, rfl⟩
  split
  · exact ⟨_, rfl⟩
  split
  · exact ⟨_, rfl⟩
  · exact ⟨_, rfl⟩

theorem drawMonoBitmap_stays (f : Framebuffer) (x y width height : UInt32) (bits : UInt32 → UInt8)
    (stride fgColor bgColor : UInt32) (transparentBg : Bool) :
    Stays f (f.drawMonoBitmap x y width height (some bits) stride fgColor bgColor transparentBg
      .display) := by
  rw [Framebuffer.drawMonoBitmap]
  split
  · exact ⟨_, rfl⟩
  split
  · exact ⟨_, rfl⟩
  split
  · exact ⟨_, rfl⟩
  · exact ⟨_, rfl⟩

/-- **The cursor is drawn into the displayed buffer**, whatever frame is in progress. -/
theorem suspend_stays (s : Screen) : Stays s.framebuffer (under s) := by
  rw [under, suspendMouseCursor]
  split
  · exact ⟨_, rfl⟩
  rw [MouseCursor.restoreCursorBackground]
  split
  · exact ⟨_, rfl⟩
  dsimp only
  generalize MouseCursor.savedPixels s.framebuffer.info s.cursor = pixels
  generalize s.framebuffer = f
  induction pixels generalizing f with
  | nil => exact ⟨_, rfl⟩
  | cons p pixels ih => exact (fillRect_stays f _ _ _ _ _).trans (ih _)

theorem under_idle {s : Screen} (h : s.cursor.drawn = false) : under s = s.framebuffer :=
  congrArg Screen.framebuffer (MouseCursor.suspend_of_idle h)

theorem resume_stays (s : Screen) : Stays s.framebuffer (resumeMouseCursor s).framebuffer := by
  rw [resumeMouseCursor]
  split
  swap
  · exact ⟨_, rfl⟩
  rw [MouseCursor.renderMouseCursor]
  dsimp only
  split
  · exact ⟨_, rfl⟩
  split
  · exact ⟨_, rfl⟩
  · exact Stays.trans (drawMonoBitmap_stays _ _ _ _ _ _ _ _ _ _)
      (drawMonoBitmap_stays _ _ _ _ _ _ _ _ _ _)

theorem present_presented (havailable : f.available = true) : Presented f.present := by
  rw [Framebuffer.present, havailable]
  split
  · rename_i hsingle
    have hsingle := hsingle.resolve_left Bool.noConfusion
    exact fun hdouble => absurd (hdouble.symm.trans hsingle) Bool.noConfusion
  split
  · rename_i hidle
    exact fun _ => hidle
  · exact fun _ => rfl

theorem present_of_presented (h : Presented f) : f.present = f := by
  rw [Framebuffer.present]
  split
  · rfl
  · rename_i hdouble
    exact if_pos (h (Bool.eq_true_of_not_eq_false (not_or.mp hdouble).2))

theorem suspend_endWindowRedraw_again {s : Screen} (h : Presented s.framebuffer)
    (hr : Readable (under s)) :
    (under (endWindowRedraw s)) = (under s) := by
  rw [endWindowRedraw, present_of_presented h]
  exact MouseCursor.resume_uncovered hr rfl

/-! ## One drawing -/

theorem covered_of (hmode : SameMode f f')
    (hcalls : drawWindowsCalls looks f w' = drawWindowsCalls looks f w)
    (h : ∀ p, OnScreen f p → shown f' p =
      inked f (overlay inkOf ((drawWindowsCalls looks f w).map Prod.snd) p)
        (stored f (desktopColor f b p.2))) : Covered looks f' b w' := by
  intro p hp
  rw [OnScreen, mode_info hmode] at hp
  rw [mode_calls hmode, hcalls, mode_inked hmode, mode_stored hmode, mode_desktop hmode]
  exact h p hp

/-- **Painting, then drawing the windows, covers the screen**, if what is painted leaves
the background where none of the windows is drawn. -/
theorem repaint_covers {s : Screen} {calls : List Call} (hidle : s.cursor.drawn = false)
    (hm : Managed w) (hv : Valid s.framebuffer) (hr : Readable s.framebuffer)
    (hlays : ∀ call ∈ calls, Lays call) :
    SameMode s.framebuffer (under (drawWindowsOn looks (paint s calls) w)) ∧
      Presented (drawWindowsOn looks (paint s calls) w).framebuffer ∧
      ((∀ p, OnScreen s.framebuffer p →
          overlay inkOf ((drawWindowsCalls looks s.framebuffer w).map Prod.snd) p = none →
            inked s.framebuffer (overlay inkOf calls p) (shown s.framebuffer p) =
              stored s.framebuffer (desktopColor s.framebuffer b p.2)) →
        Covered looks (under (drawWindowsOn looks (paint s calls) w)) b
          (drawWindows (screenOf s.framebuffer) w)) := by
  obtain ⟨hpainted, hshown⟩ := run_lays hlays hv
  have hfirst := drawn_mode hpainted
  have hcalls : ∀ call ∈ (drawWindowsCalls looks (s.framebuffer.run calls) w).map Prod.snd,
      ∃ window, Snug window ∧ Within window call := fun call hcall => by
    obtain ⟨c, hc, rfl⟩ := List.mem_map.mp hcall
    exact drawWindowsCalls_within hm hc
  have hdrawn := @run_drawn (s.framebuffer.run calls) _ hcalls
  have hmode := mode_trans hfirst (present_mode hdrawn)
  have hscreen := @suspend_endWindowRedraw (paint (paint s calls)
    ((drawWindowsCalls looks (s.framebuffer.run calls) w).map Prod.snd)) hidle (hmode.readable hr)
  have hself : suspendMouseCursor (paint s calls) = paint s calls :=
    MouseCursor.suspend_of_idle hidle
  rw [under, drawWindowsOn, beginWindowRedraw, hself]
  refine ⟨hscreen ▸ hmode, (resume_stays _).presented (present_presented ?_), fun hb => ?_⟩
  · exact (mode_available (mode_trans hfirst (drawn_mode hdrawn))).trans hv.geometry.available
  refine hscreen ▸ covered_of hmode (calls_drawWindows w) fun p hp => ?_
  have hp' : OnScreen (s.framebuffer.run calls) p := by
    rw [OnScreen, mode_info hfirst]
    exact hp
  refine (present_shown _ p).trans ((drawWindows_shown hm (hfirst.valid hv) hp').1.trans ?_)
  rw [mode_calls hfirst, mode_inked hfirst, hshown p hp]
  cases hink : overlay inkOf ((drawWindowsCalls looks s.framebuffer w).map Prod.snd) p with
  | none => exact hb p hp hink
  | some color => rfl

/-- **The background covers the screen.** -/
theorem drawBackgroundGradient_ink (havailable : f.available = true) :
    (∀ call ∈ drawBackgroundGradient f b, Lays call) ∧ ∀ p, OnScreen f p →
      overlay inkOf (drawBackgroundGradient f b) p = some (desktopColor f b p.2) := by
  have hzero : ∀ n : UInt32, UInt32.toNat 0 + n.toNat < 2 ^ 32 := fun n => by
    rw [UInt32.toNat_zero, Nat.zero_add]
    exact n.toNat_lt
  rw [drawBackgroundGradient, havailable, if_neg Bool.noConfusion]
  refine ⟨fillBackgroundRect_lays (hzero _) (hzero _), fun p hp => ?_⟩
  have hpx := lt_iff.mp hp.1
  have hpy := lt_iff.mp hp.2
  rw [fillBackgroundRect_ink (hzero _) (hzero _) havailable hp, if_pos]
  rw [inRect_iff (hzero _) (hzero _), UInt32.toNat_zero]
  omega

/-- The screen as the window manager knows it does not depend on what is drawn. -/
theorem mode_screenOf (h : SameMode f f') : screenOf f' = screenOf f := by
  obtain ⟨m, q, i, j, y, rfl⟩ := h
  rfl

theorem stays_mode (h : Stays f f') : SameMode f f' := by
  obtain ⟨m, rfl⟩ := h
  exact ⟨m, _, _, _, _, rfl⟩

theorem under_screenOf (s : Screen) : screenOf (under s) = screenOf s.framebuffer :=
  mode_screenOf (stays_mode (suspend_stays s))

/-- **A redraw of the workspace completes the screen**, whatever it showed before. -/
theorem drawWorkspace_spec {s : Scene} (hm : Managed s.windows) (hv : Valid (under s.screen))
    (hr : Readable (under s.screen)) :
    SameMode (under s.screen) (under (drawWorkspace looks s).screen) ∧
      Complete looks (drawWorkspace looks s) := by
  have hscreen : screenOf (suspendMouseCursor s.screen).framebuffer =
      screenOf s.screen.framebuffer := under_screenOf s.screen
  have havailable : ¬ s.screen.framebuffer.available = false := by
    rw [← mode_available (stays_mode (suspend_stays s.screen)), hv.geometry.available]
    exact Bool.noConfusion
  have hidle := MouseCursor.suspend_idle s.screen havailable
  have hon : (screenOf s.screen.framebuffer).available = true :=
    Bool.eq_true_of_not_eq_false havailable
  rw [drawWorkspace, if_neg havailable, Windows.drawWorkspace, if_pos hon, ← hscreen]
  change Valid (suspendMouseCursor s.screen).framebuffer at hv
  change Readable (suspendMouseCursor s.screen).framebuffer at hr
  change SameMode (suspendMouseCursor s.screen).framebuffer (under _) ∧ _
  dsimp only [beginWindowRedraw]
  generalize suspendMouseCursor s.screen = suspended at hv hr hidle ⊢
  obtain ⟨hlays, hink⟩ := @drawBackgroundGradient_ink _ s.background hv.geometry.available
  obtain ⟨hmode, hpresented, hcovered⟩ := @repaint_covers looks s.background s.windows suspended _
    hidle hm hv hr hlays
  have hagain := suspend_endWindowRedraw_again hpresented (hmode.readable hr)
  refine ⟨?_, ?_, ?_⟩
  · rw [hagain]
    exact hmode
  · rw [hagain]
    exact (suspend_stays _).presented hpresented
  · rw [hagain]
    exact hcovered fun p hp _ => by
      rw [hink p hp]
      rfl

/-! ## Windows that move -/

/-- A window has another frame, and the same owner. -/
def Reframed (w : WindowState) (slot : Nat) (w' : WindowState) : Prop :=
  windowSlotValid w slot = true ∧ ∃ window, w' = setWindow w slot window ∧
    window.inUse = (w.windows slot).inUse ∧ window.owner = (w.windows slot).owner

theorem unpainted_of_reframed {slot : Nat} (hset : Reframed w slot w') (hm : Managed w)
    (hm' : Managed w') (havailable : f.available = true)
    (hout : ¬ InFrame (w.windows slot) p) (hnone : paintedLast looks f w' p = none) :
    paintedLast looks f w p = none := by
  obtain ⟨-, window, rfl, -, -⟩ := hset
  rw [paintedLast_eq hm' havailable, List.findSome?_eq_none_iff] at hnone
  rw [paintedLast_eq hm havailable, List.findSome?_eq_none_iff]
  intro i hi
  by_cases h : i = slot
  · rw [h]
    exact if_neg fun hin => hout hin.2
  · have hsame : slotAt (setWindow w slot window) p i = slotAt w p i := by
      rw [slotAt, slotAt, windowSlotValid, windowSlotValid, setWindow_of_ne w window h]
    exact hsame.symm.trans (hnone i hi)

/-- **A window that moves leaves no trail**: its old frame shows the background, and the
windows are drawn over it. -/
theorem redrawMoved_spec {s : Scene} {slot : Nat} (hidle : s.screen.cursor.drawn = false)
    (hset : Reframed s.windows slot w') (hm : Managed s.windows) (hm' : Managed w')
    (hv : Valid s.screen.framebuffer) (hr : Readable s.screen.framebuffer) :
    SameMode s.screen.framebuffer
        (suspendMouseCursor (redrawMoved looks s slot w').screen).framebuffer ∧
      (Complete looks s → Complete looks (redrawMoved looks s slot w')) := by
  have havailable := hv.geometry.available
  have hsnug := hm.windows slot hset.1
  obtain ⟨hwidth, hheight, hmin, -, hlow, -⟩ := hsnug.sizes
  have hpositive : 0 < (s.windows.windows slot).frameWidth ∧
      0 < (s.windows.windows slot).frameHeight := by
    rw [lt_iff, lt_iff, UInt32.toNat_zero]
    omega
  have hink := fun p hp => @fillBackgroundRect_ink s.screen.framebuffer s.background p _ _ _ _
    hsnug.right hsnug.bottom havailable hp
  have hlays := @fillBackgroundRect_lays s.screen.framebuffer s.background _ _ _ _ hsnug.right
    hsnug.bottom
  rw [redrawMoved]
  dsimp only
  rw [if_pos hpositive]
  generalize fillBackgroundRect s.screen.framebuffer s.background
    (s.windows.windows slot).frameX (s.windows.windows slot).frameY
    (s.windows.windows slot).frameWidth (s.windows.windows slot).frameHeight = calls at *
  obtain ⟨hmode, hpresented, hcovers⟩ := @repaint_covers looks s.background w' s.screen calls hidle
    hm' hv hr hlays
  refine ⟨hmode, fun hcomplete => ⟨(suspend_stays _).presented hpresented,
    hcovers fun p hp hnone => ?_⟩⟩
  have hbefore := hcomplete.covered
  rw [under_idle hidle] at hbefore
  rw [hink p hp]
  by_cases hin : inRect (s.windows.windows slot).frameX (s.windows.windows slot).frameY
      (s.windows.windows slot).frameWidth (s.windows.windows slot).frameHeight p.1 p.2
  · rw [if_pos hin]
    rfl
  · have hout : ¬ InFrame (s.windows.windows slot) p := fun h =>
      hin ((inRect_iff hsnug.right hsnug.bottom).mpr ⟨h.1.1, h.1.2, h.2.1, h.2.2⟩)
    have hlast := unpainted_of_reframed hset hm hm' havailable hout
      ((drawWindows_shown hm' hv hp).2.mp hnone)
    rw [if_neg hin, inked, Option.map_none, Option.getD_none, hbefore p hp,
      (drawWindows_shown hm hv hp).2.mpr hlast]
    rfl

/-! ## The mouse -/

theorem resized_reframed {fb : FrameBuffer} {x y : UInt32} (h : resized fb w x y = some w') :
    Reframed w w.resize.resizeSlot.toNat w' := by
  rw [resized] at h
  dsimp only at h
  generalize resizeTarget fb w x y = target at h
  split at h
  swap
  · cases h
  rename_i hon
  simp only [Bool.and_eq_true] at hon
  split at h
  · cases h
  · obtain rfl := Option.some.inj h
    exact ⟨(Bool.and_eq_true_iff.mp hon.1.1.2).2, _, rfl, rfl, rfl⟩

theorem dragged_reframed {fb : FrameBuffer} {x y : UInt32}
    (hv : validInt w w.drag.dragSlot = true) (h : dragged fb w x y = some w') :
    Reframed w w.drag.dragSlot.toNat w' := by
  rw [dragged] at h
  dsimp only at h
  split at h
  · obtain rfl := Option.some.inj h
    exact ⟨(Bool.and_eq_true_iff.mp hv).2, _, rfl, rfl, rfl⟩
  · cases h

theorem updateResize_eq (fb : FrameBuffer) (w : WindowState) (x y : UInt32) :
    updateResize fb w x y =
      (resized fb w x y).elim (false, w) fun w' => (true, drawWindows fb w') := by
  rw [updateResize, resized]
  dsimp only
  generalize resizeTarget fb w x y = target
  split
  · split
    · rfl
    · rfl
  · rfl

theorem updateDrag_eq (fb : FrameBuffer) (w : WindowState) (x y : UInt32) :
    updateDrag fb w x y = (dragged fb w x y).elim w (drawWindows fb) := by
  rw [updateDrag, dragged]
  dsimp only
  split
  · rfl
  · rfl

/-! ## Runs -/

theorem mode_refl (f : Framebuffer) : SameMode f f := ⟨f.memory, _, _, _, _, rfl⟩

/-- What holds of the windows and of the framebuffer under the mouse cursor. -/
structure Sound (s : Scene) : Prop where
  roomy : Roomy (screenOf s.screen.framebuffer)
  consistent : Consistent s.windows
  framed : Framed (screenOf s.screen.framebuffer) True s.windows
  valid : Valid (under s.screen)
  readable : Readable (under s.screen)

theorem Sound.managed {s : Scene} (hs : Sound s) : Managed s.windows :=
  managed_of_framed hs.roomy hs.consistent hs.framed

theorem Sound.on {s : Scene} (hs : Sound s) {screen : Screen}
    (hmode : SameMode (under s.screen) (under screen))
    (hc : Consistent w) (hf : Framed (screenOf s.screen.framebuffer) True w) :
    Sound ⟨screen, w, s.background⟩ := by
  have hsame : screenOf screen.framebuffer = screenOf s.screen.framebuffer :=
    (mode_screenOf (stays_mode (suspend_stays screen))).symm.trans
      ((mode_screenOf hmode).trans (mode_screenOf (stays_mode (suspend_stays s.screen))))
  refine ⟨?_, hc, ?_, hmode.valid hs.valid, hmode.readable hs.readable⟩
  · rw [hsame]
    exact hs.roomy
  · rw [hsame]
    exact hf

theorem framed_undrawn {fb : FrameBuffer} (hg : Geared w) (hf : Framed fb True (drawWindows fb w)) :
    Framed fb True w := by
  have hsame := same_drawWindows fb w
  refine ⟨fun i hv => (hf.windows i ?_).same (hsame.windows i).symm, ?_, ?_, fun _ => hg⟩
  · rw [hsame.valid]
    exact hv
  · rw [← hsame.drag]
    exact hf.drag
  · rw [← hsame.resize]
    exact hf.resize

/-- Drawing a window at its new place keeps the invariant, and completes the screen. -/
theorem Sound.redrawMoved {s : Scene} {slot : Nat} (hs : Sound s)
    (hidle : s.screen.cursor.drawn = false) (hset : Reframed s.windows slot w')
    (hf : Framed (screenOf s.screen.framebuffer) True
      (drawWindows (screenOf s.screen.framebuffer) w')) :
    Sound (redrawMoved looks s slot w') ∧
      (Complete looks s → Complete looks (redrawMoved looks s slot w')) := by
  obtain ⟨window, hw, hinUse, howner⟩ := hset.2
  have hkeeps : Keeps s.windows w' := hw ▸ keeps_setWindow s.windows slot hinUse howner
  have hc := hs.consistent.keeps hkeeps
  have hg : Geared w' := hw ▸ hs.managed.geared
  have hm := managed_of_framed hs.roomy hc (framed_undrawn hg hf)
  have hself := under_idle hidle
  have hv := hs.valid
  have hr := hs.readable
  rw [hself] at hv hr
  obtain ⟨hmode, hcomplete⟩ := @redrawMoved_spec looks w' s slot hidle hset hs.managed hm hv hr
  rw [← hself] at hmode
  exact ⟨hs.on hmode (hc.keeps (keeps_drawWindows _ w')) hf, hcomplete⟩

variable (looks) in
/-- The windows look the same, and no other is held. -/
structure Settles (s : Scene) (w : WindowState) : Prop where
  sound : Sound { s with windows := w }
  complete : Complete looks s → Complete looks { s with windows := w }
  holds : Holds w → Holds s.windows

theorem Settles.trans {s : Scene} (h : Settles looks s w)
    (h' : Settles looks { s with windows := w } w') : Settles looks s w' :=
  ⟨h'.sound, fun hc => h'.complete (h.complete hc), fun hw => h.holds (h'.holds hw)⟩

theorem settles_of {s : Scene} (hs : Sound s) (hc : Consistent w)
    (hf : Framed (screenOf s.screen.framebuffer) True w) (hholds : Holds w → Holds s.windows)
    (hcalls : drawWindowsCalls looks (under s.screen) w =
      drawWindowsCalls looks (under s.screen) s.windows) :
    Settles looks s w := by
  refine ⟨hs.on (mode_refl _) hc hf, fun h => ⟨h.presented, fun p hp => ?_⟩, hholds⟩
  dsimp only at hp ⊢
  rw [hcalls]
  exact h.covered p hp

theorem settles_ensureGeometry {s : Scene} (hs : Sound s) :
    Settles looks s (ensureGeometry (screenOf s.screen.framebuffer) s.windows) := by
  have hsame := same_ensureGeometry (screenOf s.screen.framebuffer) s.windows
  refine settles_of hs (hs.consistent.keeps (keeps_ensureGeometry _ _)) (hs.framed.same hsame)
    (fun h => ?_) ?_
  · rw [Holds, hsame.drag, hsame.resize] at h
    exact h
  · rw [← mode_screenOf (stays_mode (suspend_stays s.screen))]
    exact calls_ensureGeometry s.windows

theorem settles_stop {s : Scene} (hs : Sound s) :
    Settles looks s (stopResizing (stopDragging s.windows)) := by
  refine settles_of hs (stopBoth_consistent hs.consistent) hs.framed.stopDragging.stopResizing
    (fun h => ?_) (sameLook_modes s.windows _ _).calls
  rcases h with h | h
  · exact absurd h Bool.false_ne_true
  · exact absurd h Bool.false_ne_true

theorem settles_stopResizing {s : Scene} (hs : Sound s) :
    Settles looks s (stopResizing s.windows) := by
  refine settles_of hs (setModes hs.consistent ⟨fun hon => absurd hon.2 Bool.false_ne_true,
    hs.consistent.modes.drag, fun hon => absurd hon Bool.false_ne_true⟩) hs.framed.stopResizing
    (fun h => ?_) (sameLook_modes s.windows s.windows.drag _).calls
  rcases h with h | h
  · exact .inl h
  · exact absurd h Bool.false_ne_true

/-- **One event** that moves a window, or lets it go. -/
theorem Sound.moveWindows {s : Scene} (hs : Sound s) {event : MouseEvent}
    (hheld : Holds s.windows → s.screen.cursor.drawn = false)
    (hon : Frames.OnScreen (screenOf s.screen.framebuffer) event) :
    Sound (moveWindows looks s event) ∧
      (Complete looks s → Complete looks (moveWindows looks s event)) := by
  have hx := cursor_lt hon.left hon.right hs.roomy.left
  have hy := cursor_lt hon.top hon.bottom hs.roomy.top
  have hfirst := @settles_ensureGeometry looks s hs
  rw [Background.moveWindows]
  dsimp only
  rw [if_pos hs.roomy.available]
  generalize (if event.x < 0 then 0 else UInt32.ofInt event.x) = cursorX at hx
  generalize (if event.y < 0 then 0 else UInt32.ofInt event.y) = cursorY at hy
  generalize (event.buttons &&& mouseButtonLeft != 0) = leftDown
  have hu : Settles looks s (if (event.changed &&& mouseButtonLeft != 0) = true then
      stopResizing (stopDragging (ensureGeometry (screenOf s.screen.framebuffer) s.windows))
    else ensureGeometry (screenOf s.screen.framebuffer) s.windows) := by
    split
    · exact hfirst.trans (settles_stop hfirst.sound)
    · exact hfirst
  generalize (if (event.changed &&& mouseButtonLeft != 0) = true then
      stopResizing (stopDragging (ensureGeometry (screenOf s.screen.framebuffer) s.windows))
    else ensureGeometry (screenOf s.screen.framebuffer) s.windows) = u at hu
  cases hmoved : (if (u.resize.resizingWindow && leftDown) = true then
      resized (screenOf s.screen.framebuffer) u cursorX cursorY else none) with
  | some w' =>
    split at hmoved
    swap
    · cases hmoved
    rename_i hresizing
    have hf := updateResize_framed hu.sound.roomy hu.sound.framed cursorX cursorY
    rw [updateResize_eq, hmoved] at hf
    obtain ⟨hsound, hcomplete⟩ := hu.sound.redrawMoved
      (hheld (hu.holds (.inr (Bool.and_eq_true_iff.mp hresizing).1))) (resized_reframed hmoved) hf
    exact ⟨hsound, fun h => hcomplete (hu.complete h)⟩
  | none =>
    have hv : Settles looks s
        (if (u.resize.resizingWindow && !leftDown) = true then stopResizing u else u) := by
      split
      · exact hu.trans (settles_stopResizing hu.sound)
      · exact hu
    generalize (if (u.resize.resizingWindow && !leftDown) = true then stopResizing u else u) = v
      at hv
    dsimp only
    split
    swap
    · exact ⟨hv.sound, hv.complete⟩
    rename_i hdrag
    obtain ⟨hdragging, hslot⟩ := Bool.and_eq_true_iff.mp hdrag
    have hf := updateDrag_framed hv.sound.roomy hv.sound.framed hdragging hslot hx hy
    rw [updateDrag_eq] at hf
    cases hdragged : dragged (screenOf s.screen.framebuffer) v cursorX cursorY with
    | none => exact ⟨hv.sound, hv.complete⟩
    | some w' =>
      rw [hdragged] at hf
      obtain ⟨hsound, hcomplete⟩ := hv.sound.redrawMoved (hheld (hv.holds (.inl hdragging)))
        (dragged_reframed hslot hdragged) hf
      exact ⟨hsound, fun h => hcomplete (hv.complete h)⟩

/-! ## Scenes -/

theorem Sound.undisturbed {s : Scene} (hs : Sound s) {screen : Screen}
    (h : under screen = under s.screen) :
    Sound { s with screen := screen } ∧
      (Complete looks s → Complete looks { s with screen := screen }) := by
  have hmode : SameMode (under s.screen) (under screen) := h ▸ mode_refl _
  refine ⟨hs.on hmode hs.consistent hs.framed, fun hc => ⟨?_, ?_⟩⟩
  · dsimp only
    rw [h]
    exact hc.presented
  · dsimp only
    rw [h]
    exact hc.covered

theorem moveCursor_idle {s : Screen} {event : MouseEvent}
    (havailable : ¬ s.framebuffer.available = false) (h : Moves s event) :
    (moveCursor s event).cursor.drawn = false := by
  rw [Moves] at h
  rw [moveCursor]
  dsimp only
  rw [if_pos h]
  exact MouseCursor.clampCursor_idle (MouseCursor.suspend_idle _ havailable)

theorem Sound.handleMouseEvent {s : Scene} (hs : Sound s) {event : MouseEvent}
    (ha : Admissible s (.handleMouseEvent event)) : Sound (handleMouseEvent looks s event) ∧
      (Complete looks s → Complete looks (handleMouseEvent looks s event)) := by
  obtain ⟨hon, -, hmoves⟩ := ha
  have havailable : ¬ s.screen.framebuffer.available = false :=
    ne_of_eq_of_ne hs.roomy.available Bool.noConfusion
  have hcursor := MouseCursor.moveCursor_uncovered havailable event
  obtain ⟨hfirst, hcomplete⟩ := @Sound.undisturbed looks s hs _ hcursor
  have hscreen : screenOf (moveCursor s.screen event).framebuffer = screenOf s.screen.framebuffer :=
    (mode_screenOf (stays_mode (suspend_stays _))).symm.trans
      ((congrArg screenOf hcursor).trans (mode_screenOf (stays_mode (suspend_stays _))))
  obtain ⟨hmoved, hcomplete'⟩ := @Sound.moveWindows looks _ hfirst event
    (fun hholds => moveCursor_idle havailable (hmoves hholds)) (by
      dsimp only
      rw [hscreen]
      exact hon)
  obtain ⟨hlast, hcomplete''⟩ := @Sound.undisturbed looks _ hmoved _
    (MouseCursor.resume_uncovered hmoved.readable rfl)
  rw [Background.handleMouseEvent, if_neg havailable]
  exact ⟨hlast, fun h => hcomplete'' (hcomplete' (hcomplete h))⟩

theorem Sound.drawWorkspace {s : Scene} (hs : Sound s) :
    Sound (drawWorkspace looks s) ∧ Complete looks (drawWorkspace looks s) := by
  obtain ⟨hmode, hcomplete⟩ := @drawWorkspace_spec looks s hs.managed hs.valid hs.readable
  have havailable : ¬ s.screen.framebuffer.available = false :=
    ne_of_eq_of_ne hs.roomy.available Bool.noConfusion
  refine ⟨?_, hcomplete⟩
  rw [Background.drawWorkspace, if_neg havailable] at hmode ⊢
  exact hs.on hmode (hs.consistent.keeps (keeps_drawWorkspace _ _))
    (hs.framed.same (same_drawWorkspace _ _))

theorem step_complete {s : Scene} (hs : Sound s) (hc : Complete looks s) {a : Act}
    (ha : Admissible s a) : Sound (step looks s a) ∧ Complete looks (step looks s a) := by
  cases a with
  | drawWorkspace => exact hs.drawWorkspace
  | handleMouseEvent event => exact (hs.handleMouseEvent ha).imp_right (· hc)

/-- **Windows leave no trail**: once the workspace was drawn, on whatever screen, each
pixel shows the topmost window there or else the background, through every run of
redraws, drags and resizes. -/
theorem windows_leave_no_trail {s : Scene} (hs : Sound s) {acts : List Act}
    (ha : Heeded (fun s a => some (step looks s a)) Admissible acts (drawWorkspace looks s)) :
    ∀ t ∈ visited (fun s a => some (step looks s a)) acts (drawWorkspace looks s),
      Complete looks t := by
  have next : ∀ (s : Scene) (a : Act) (t : Scene), Sound s ∧ Complete looks s → Admissible s a →
      some (step looks s a) = some t → Sound t ∧ Complete looks t := by
    intro s a t h ha hstep
    obtain rfl := Option.some.inj hstep
    exact step_complete h.1 h.2 ha
  exact fun t ht => (inv_visited next acts hs.drawWorkspace ha t ht).2

end

/-- A window is taken by its title bar. -/
def taken : Desktop.GuiState :=
  Desktop.step (screenOf largeMode) ⟨booted [], init (screenOf largeMode) bootWindows 0x1000⟩
    (.handleMouseEvent ⟨300, 85, 0, 0, 0, 0, 1, 1, 0⟩)

def takenScene : Scene := ⟨⟨largeMode, MouseCursor.freshCursor⟩, taken.windows, ⟨false, 0⟩⟩

theorem windows_leave_no_trail_taken : taken.windows.drag.draggingWindow = true ∧
    ∀ t ∈ visited (fun s a => some (step plainLooks s a))
        [.handleMouseEvent ⟨20, 700, 0, 0, 0, 0, 1, 0, 0⟩] (drawWorkspace plainLooks takenScene),
      Complete plainLooks t := by
  have hr : Roomy (screenOf largeMode) := ⟨rfl, by decide, by decide, by decide, by decide⟩
  have hrun := @run_framed _ True hr (booted []) bootWindows
    (fun _ h => absurd h Bool.false_ne_true) 0x1000
    [.handleMouseEvent ⟨300, 85, 0, 0, 0, 0, 1, 1, 0⟩] (by
      intro act hact
      obtain rfl := List.mem_singleton.mp hact
      exact ⟨by decide, by decide, by decide, by decide⟩)
  obtain ⟨hc, hf⟩ := hrun taken (visited_of_step rfl (start_mem_visited _ _))
  have hself : under takenScene.screen = largeMode := under_idle rfl
  have hs : Sound takenScene := by
    refine ⟨hr, hc, hf, ?_, ?_⟩
    · rw [hself]
      exact ⟨⟨rfl, by decide, by decide, by decide⟩, by decide⟩
    · rw [hself]
      exact ⟨by decide, by decide, by decide⟩
  have hmode := (@drawWorkspace_spec plainLooks takenScene hs.managed hs.valid hs.readable).1
  have hscreen : screenOf (drawWorkspace plainLooks takenScene).screen.framebuffer =
      screenOf largeMode :=
    (mode_screenOf (stays_mode (suspend_stays _))).symm.trans
      ((mode_screenOf hmode).trans (mode_screenOf (stays_mode (suspend_stays takenScene.screen))))
  have hbuttons : (1 : UInt8) ≠ (drawWorkspace plainLooks takenScene).screen.cursor.buttons := by
    decide +kernel
  refine ⟨by decide +kernel, windows_leave_no_trail hs ⟨⟨?_, ?_, fun _ => ?_⟩, fun _ _ => trivial⟩⟩
  · rw [hscreen]
    exact ⟨by decide, by decide, by decide, by decide⟩
  · exact fun h => h.2 rfl
  · exact .inr (.inr hbuttons)

end ContinuumOS.Gui.Background
