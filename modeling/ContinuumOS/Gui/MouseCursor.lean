import ContinuumOS.Gui.Pixels
import ContinuumOS.Gui.Desktop

/-! # The cursor of the mouse

`src/kernel/gui.cpp`: before the cursor is drawn, the pixels it will cover are
saved, and they are put back before it moves. -/
namespace ContinuumOS.Gui.MouseCursor
open ContinuumOS.Lib.Painting ContinuumOS.Gui.Framebuffer ContinuumOS.Gui.DoubleBuffer
open ContinuumOS.Gui.Pixels ContinuumOS.Gui.Geometry ContinuumOS.Gui.Desktop
open ContinuumOS.Gui.Windows (bootWindows)
open ContinuumOS.Sched.Delivery (MouseEvent booted)

def cursorWidth : Nat := 16
def cursorHeight : Nat := 16
def cursorStride : UInt32 := 2

/-- A cross: a line of all columns in the eighth row, one pixel in the others. -/
def cursorBits : List UInt8 :=
  [0x01, 0x00, 0x01, 0x00, 0x01, 0x00, 0x01, 0x00, 0x01, 0x00, 0x01, 0x00, 0x01, 0x00, 0xFF, 0xFF,
    0x01, 0x00, 0x01, 0x00, 0x01, 0x00, 0x01, 0x00, 0x01, 0x00, 0x01, 0x00, 0x01, 0x00, 0x01, 0x00]

/-- `CURSOR_OUTLINE`, `CURSOR_FILL` -/
def cursorOutline (i : UInt32) : UInt8 := cursorBits.getD i.toNat 0
def cursorFill (i : UInt32) : UInt8 := cursorBits.getD i.toNat 0

structure CursorState where
  x : Int
  y : Int
  buttons : UInt8
  visible : Bool
  drawn : Bool
  savedHeight : Nat
  rowWidth : Nat → Nat
  background : Nat → Nat → UInt32

/-- The framebuffer and the cursor on it. -/
structure Screen where
  framebuffer : Framebuffer
  cursor : CursorState

/-- The globals that `gui.cpp` works on. -/
structure Desk where
  screen : Screen
  desktop : GuiState

/-! ## Saving and drawing -/

/-- One axis of `clamp_cursor`. -/
def clampCoordinate (v : Int) (limit : UInt32) : Int :=
  if v < 0 then 0 else if int32 limit ≤ v then int32 limit - 1 else v

def clampCursor (fb : Framebuffer) (c : CursorState) : CursorState :=
  if fb.available = false then
    { c with x := if c.x < 0 then 0 else c.x, y := if c.y < 0 then 0 else c.y }
  else if fb.info.width = 0 ∨ fb.info.height = 0 then { c with x := 0, y := 0 }
  else { c with
    x := clampCoordinate c.x fb.info.width, y := clampCoordinate c.y fb.info.height }

/-- `px` and `py` of a pixel of the cursor. -/
def cursorX (c : CursorState) (col : Nat) : UInt32 := UInt32.ofInt (c.x + col)
def cursorY (c : CursorState) (row : Nat) : UInt32 := UInt32.ofInt (c.y + row)

/-- The columns up to the `break` at the border of the screen. -/
def columnsInside (info : FrameBufferInfo) (c : CursorState) (n : Nat) : List Nat :=
  (List.range n).takeWhile fun col => decide (cursorX c col < info.width)

/-- A round of the loop of `capture_cursor_background`. -/
def captureRow (fb : Framebuffer) (c : CursorState) (row : Nat) : CursorState :=
  if fb.info.height ≤ cursorY c row then { c with rowWidth := Function.update c.rowWidth row 0 }
  else
    let width := (columnsInside fb.info c cursorWidth).length
    { c with
      background := Function.update c.background row fun col =>
        if col < width then fb.peekPixel (cursorX c col) (cursorY c row) .display
        else c.background row col
      rowWidth := Function.update c.rowWidth row width
      savedHeight := if 0 < width then row + 1 else c.savedHeight }

def captureCursorBackground (fb : Framebuffer) (c : CursorState) : CursorState :=
  if fb.available = false then c
  else (List.range cursorHeight).foldl (captureRow fb) { c with savedHeight := 0 }

/-- The pixels that `restore_cursor_background` fills, with their colors. -/
def savedPixels (info : FrameBufferInfo) (c : CursorState) : List (UInt32 × UInt32 × UInt32) :=
  (List.range c.savedHeight).flatMap fun row =>
    if c.rowWidth row = 0 then []
    else if info.height ≤ cursorY c row then []
    else (columnsInside info c (c.rowWidth row)).map fun col =>
      (cursorX c col, cursorY c row, c.background row col)

def fillPixel (fb : Framebuffer) (p : UInt32 × UInt32 × UInt32) : Framebuffer :=
  fb.fillRect p.1 p.2.1 1 1 p.2.2 .display

def restoreCursorBackground (s : Screen) : Screen :=
  if s.framebuffer.available = false ∨ s.cursor.drawn = false then s
  else ⟨(savedPixels s.framebuffer.info s.cursor).foldl fillPixel s.framebuffer,
    { s.cursor with savedHeight := 0, drawn := false }⟩

def suspendMouseCursor (s : Screen) : Screen :=
  if s.cursor.drawn = false then s else restoreCursorBackground s

/-- The masks of the three buttons. -/
def anyButton : UInt8 := 7

def renderMouseCursor (s : Screen) : Screen :=
  let fb := s.framebuffer
  if fb.available = false ∨ s.cursor.visible = false then s
  else if fb.info.width = 0 ∨ fb.info.height = 0 then s
  else
    let c := captureCursorBackground fb (clampCursor fb s.cursor)
    let outlineColor := fb.packColor 16 20 28
    let fillColor := if c.buttons &&& anyButton != 0 then fb.packColor 198 220 255
      else fb.packColor 248 248 255
    let fb := fb.drawMonoBitmap (UInt32.ofInt c.x) (UInt32.ofInt c.y) (UInt32.ofNat cursorWidth)
      (UInt32.ofNat cursorHeight) (some cursorOutline) cursorStride outlineColor 0 true .display
    let fb := fb.drawMonoBitmap (UInt32.ofInt c.x) (UInt32.ofInt c.y) (UInt32.ofNat cursorWidth)
      (UInt32.ofNat cursorHeight) (some cursorFill) cursorStride fillColor outlineColor true
      .display
    ⟨fb, { c with drawn := true }⟩

/-! ## Events -/

def initializeMouseCursor (s : Screen) (x y : Int) (buttons : UInt8) : Screen :=
  if s.framebuffer.available = false then s
  else
    let s := suspendMouseCursor { s with cursor := { s.cursor with visible := true } }
    renderMouseCursor { s with
      cursor := clampCursor s.framebuffer { s.cursor with x := x, y := y, buttons := buttons } }

/-- The left button changes, or a window is dragged or resized. -/
def windowsMove (d : GuiState) (event : MouseEvent) : Bool :=
  event.changed &&& mouseButtonLeft != 0 || d.windows.drag.draggingWindow ||
    d.windows.resize.resizingWindow

/-- The handler of the windows, and what it draws: nothing where no window can
move, `redraw` elsewhere. -/
def handleWindows (redraw : Desk → MouseEvent → Screen) (s : Desk) (event : MouseEvent) : Desk :=
  let fb := s.screen.framebuffer
  ⟨if windowsMove s.desktop event then redraw s event else s.screen,
    (Desktop.handleMouseEvent ⟨fb.available, fb.info.width, fb.info.height⟩ s.desktop event).2⟩

/-- The cursor is taken to where the event is. -/
def moveCursor (s : Screen) (event : MouseEvent) : Screen :=
  let s := { s with cursor := { s.cursor with visible := true } }
  if event.x ≠ s.cursor.x ∨ event.y ≠ s.cursor.y ∨ event.buttons ≠ s.cursor.buttons then
    let s := suspendMouseCursor s
    { s with
      cursor := clampCursor s.framebuffer
        { s.cursor with x := event.x, y := event.y, buttons := event.buttons } }
  else s

/-- The cursor is drawn again where it was taken away. -/
def resumeMouseCursor (s : Screen) : Screen :=
  if s.cursor.visible = true ∧ s.cursor.drawn = false then renderMouseCursor s else s

def handleMouseEvent (redraw : Desk → MouseEvent → Screen) (s : Desk) (event : MouseEvent) :
    Desk :=
  if s.screen.framebuffer.available = false then s
  else
    let s := handleWindows redraw { s with screen := moveCursor s.screen event } event
    { s with screen := resumeMouseCursor s.screen }

/-- The calls that the mouse makes. -/
inductive MouseAct where
  | initializeMouseCursor (x y : Int) (buttons : UInt8)
  | handleMouseEvent (event : MouseEvent)

def step (redraw : Desk → MouseEvent → Screen) (s : Desk) : MouseAct → Desk
  | .initializeMouseCursor x y buttons =>
    { s with screen := initializeMouseCursor s.screen x y buttons }
  | .handleMouseEvent event => handleMouseEvent redraw s event

section

variable {fb : Framebuffer} {c : CursorState} {m : Memory}

/-! ## The pixels under the cursor -/

theorem clampCoordinate_bounds (v : Int) {limit : UInt32} (hpos : limit ≠ 0)
    (hlt : limit.toNat < 2 ^ 31) :
    0 ≤ clampCoordinate v limit ∧ clampCoordinate v limit < limit.toNat := by
  have hne : limit.toNat ≠ 0 := fun h => hpos (UInt32.toNat_inj.mp h)
  rw [clampCoordinate, int32_of_lt hlt]
  split
  · omega
  split
  · omega
  · omega

/-- The cursor is on the screen. -/
structure OnScreen (fb : Framebuffer) (c : CursorState) : Prop where
  left : 0 ≤ c.x
  right : c.x < fb.info.width.toNat
  top : 0 ≤ c.y
  bottom : c.y < fb.info.height.toNat
  width : fb.info.width.toNat < 2 ^ 31
  height : fb.info.height.toNat < 2 ^ 31

theorem OnScreen.cursorX_toNat (h : OnScreen fb c) {col : Nat} (hcol : col < cursorWidth) :
    (cursorX c col).toNat = c.x.toNat + col := by
  have hsmall : col < 16 := hcol
  have hleft := h.left
  have hright := h.right
  have hwidth := h.width
  have hvalue : ((cursorX c col).toNat : Int) = c.x + col := toNat_ofInt (by omega) (by omega)
  omega

theorem OnScreen.cursorY_toNat (h : OnScreen fb c) {row : Nat} (hrow : row < cursorHeight) :
    (cursorY c row).toNat = c.y.toNat + row := by
  have hsmall : row < 16 := hrow
  have htop := h.top
  have hbottom := h.bottom
  have hheight := h.height
  have hvalue : ((cursorY c row).toNat : Int) = c.y + row := toNat_ofInt (by omega) (by omega)
  omega

/-- The columns and the rows of the cursor on the screen. -/
def columns (fb : Framebuffer) (c : CursorState) : Nat :=
  min cursorWidth (fb.info.width.toNat - c.x.toNat)

def rows (fb : Framebuffer) (c : CursorState) : Nat :=
  min cursorHeight (fb.info.height.toNat - c.y.toNat)

theorem takeWhile_range {p : Nat → Bool} {k : Nat} : ∀ n, (∀ i < n, p i = decide (i < k)) →
    (List.range n).takeWhile p = List.range (min n k)
  | 0, _ => by rw [Nat.zero_min]; rfl
  | n + 1, h => by
    have ih := takeWhile_range n fun i hi => h i (Nat.lt_succ_of_lt hi)
    rw [List.range_succ, List.takeWhile_append, ih, List.length_range, List.length_range,
      List.takeWhile_cons, h n (Nat.lt_succ_self n)]
    by_cases hk : n < k
    · rw [Nat.min_eq_left (Nat.le_of_lt hk), if_pos rfl, decide_eq_true hk, Nat.min_eq_left hk,
        List.range_succ]
      rfl
    · rw [decide_eq_false hk, Nat.min_eq_right (Nat.le_of_not_lt hk),
        Nat.min_eq_right (Nat.le_succ_of_le (Nat.le_of_not_lt hk))]
      split
      · rename_i heq
        rw [heq]
        exact List.append_nil _
      · rfl

theorem OnScreen.columnsInside (h : OnScreen fb c) {n : Nat} (hn : n ≤ cursorWidth) :
    columnsInside fb.info c n = List.range (min n (fb.info.width.toNat - c.x.toNat)) := by
  refine takeWhile_range n fun col hcol => ?_
  have hx := h.cursorX_toNat (Nat.lt_of_lt_of_le hcol hn)
  refine decide_eq_decide.mpr ?_
  rw [lt_iff, hx]
  omega

theorem OnScreen.cursorY_lt (h : OnScreen fb c) {row : Nat} (hrow : row < cursorHeight) :
    cursorY c row < fb.info.height ↔ row < rows fb c := by
  have hsmall : row < 16 := hrow
  have hrows : rows fb c = min 16 (fb.info.height.toNat - c.y.toNat) := rfl
  rw [lt_iff, h.cursorY_toNat hrow, hrows]
  omega

theorem columnsInside_congr {c' : CursorState} (hx : c'.x = c.x) {info : FrameBufferInfo} {n : Nat} :
    columnsInside info c' n = columnsInside info c n := by
  have hcols : ∀ col, cursorX c' col = cursorX c col := fun col => by rw [cursorX, cursorX, hx]
  simp only [columnsInside, hcols]

/-- What the first rows leave saved. -/
structure Captured (fb : Framebuffer) (c : CursorState) (n : Nat) (c' : CursorState) : Prop where
  x : c'.x = c.x
  y : c'.y = c.y
  visible : c'.visible = c.visible
  savedHeight : c'.savedHeight = min n (rows fb c)
  rowWidth : ∀ row < n, c'.rowWidth row = if row < rows fb c then columns fb c else 0
  background : ∀ row < n, row < rows fb c → ∀ col < columns fb c,
    c'.background row col = fb.peekPixel (cursorX c col) (cursorY c row) .display

theorem Captured.step (h : OnScreen fb c) {n : Nat} {c' : CursorState} (hc : Captured fb c n c')
    (hn : n < cursorHeight) : Captured fb c (n + 1) (captureRow fb c' n) := by
  have hy : cursorY c' n = cursorY c n := by rw [cursorY, cursorY, hc.y]
  have hx : ∀ col, cursorX c' col = cursorX c col := fun col => by rw [cursorX, cursorX, hc.x]
  have hlow : ∀ {row}, row < n + 1 → row ≠ n → row < n := fun hrow hne => by omega
  have hcols : (columnsInside fb.info c' cursorWidth).length = columns fb c := by
    rw [columnsInside_congr hc.x, h.columnsInside (Nat.le_refl _), List.length_range]
    rfl
  rw [captureRow, hy]
  by_cases hrow : n < rows fb c
  · have hpos : 0 < columns fb c := by
      have hright := h.right
      have hleft := h.left
      show 0 < min 16 _
      omega
    rw [if_neg (UInt32.not_le.mpr ((h.cursorY_lt hn).mpr hrow)), hcols]
    dsimp only
    rw [if_pos hpos]
    refine ⟨hc.x, hc.y, hc.visible, ?_, fun row hle => ?_, fun row hle hrow' col hcol => ?_⟩
    · show n + 1 = min (n + 1) (rows fb c)
      omega
    · show Function.update c'.rowWidth n (columns fb c) row = _
      by_cases he : row = n
      · rw [he, Function.update_self, if_pos hrow]
      · rw [Function.update_of_ne he, hc.rowWidth row (hlow hle he)]
    · show Function.update c'.background n _ row col = _
      by_cases he : row = n
      · rw [he, Function.update_self, if_pos hcol, hx]
      · rw [Function.update_of_ne he, hc.background row (hlow hle he) hrow' col hcol]
  · have hout : fb.info.height ≤ cursorY c n :=
      UInt32.not_lt.mp fun hlt => hrow ((h.cursorY_lt hn).mp hlt)
    rw [if_pos hout]
    refine ⟨hc.x, hc.y, hc.visible, ?_, fun row hle => ?_, fun row hle hrow' col hcol => ?_⟩
    · show c'.savedHeight = _
      rw [hc.savedHeight]
      omega
    · show Function.update c'.rowWidth n 0 row = _
      by_cases he : row = n
      · rw [he, Function.update_self, if_neg hrow]
      · rw [Function.update_of_ne he, hc.rowWidth row (hlow hle he)]
    · have he : row ≠ n := fun he => hrow (he ▸ hrow')
      exact hc.background row (hlow hle he) hrow' col hcol

theorem captured (h : OnScreen fb c) (havailable : ¬ fb.available = false) :
    Captured fb c cursorHeight (captureCursorBackground fb c) := by
  rw [captureCursorBackground, if_neg havailable]
  have hrun : ∀ n ≤ cursorHeight, Captured fb c n
      ((List.range n).foldl (captureRow fb) { c with savedHeight := 0 }) := by
    intro n
    induction n with
    | zero =>
      intro _
      refine ⟨rfl, rfl, rfl, (Nat.zero_min _).symm, ?_, ?_⟩
      · intro row hrow
        exact absurd hrow (Nat.not_lt_zero row)
      · intro row hrow
        exact absurd hrow (Nat.not_lt_zero row)
    | succ n ih =>
      intro hn
      rw [List.range_succ, List.foldl_append]
      exact (ih (Nat.le_of_succ_le hn)).step h hn
  exact hrun cursorHeight (Nat.le_refl _)

theorem mem_savedPixels (h : OnScreen fb c) {c' : CursorState}
    (hc : Captured fb c cursorHeight c') {p : UInt32 × UInt32 × UInt32} :
    p ∈ savedPixels fb.info c' ↔ ∃ row < rows fb c, ∃ col < columns fb c,
      p = (cursorX c col, cursorY c row, fb.peekPixel (cursorX c col) (cursorY c row) .display) := by
  have hheight : c'.savedHeight = rows fb c := by
    rw [hc.savedHeight]
    exact Nat.min_eq_right (Nat.min_le_left _ _)
  have hrows : rows fb c ≤ cursorHeight := Nat.min_le_left _ _
  have hcolumns : columns fb c ≤ cursorWidth := Nat.min_le_left _ _
  have hinside : columnsInside fb.info c' (columns fb c) = List.range (columns fb c) := by
    rw [columnsInside_congr hc.x, h.columnsInside hcolumns]
    exact congrArg List.range (Nat.min_eq_left (Nat.min_le_right _ _))
  have hrow : ∀ row < rows fb c, (if c'.rowWidth row = 0 then []
      else if fb.info.height ≤ cursorY c' row then []
      else (columnsInside fb.info c' (c'.rowWidth row)).map fun col =>
        (cursorX c' col, cursorY c' row, c'.background row col)) =
      (List.range (columns fb c)).map fun col => (cursorX c col, cursorY c row,
        fb.peekPixel (cursorX c col) (cursorY c row) .display) := by
    intro row hlt
    have hy : cursorY c' row = cursorY c row := by rw [cursorY, cursorY, hc.y]
    have hwidth := hc.rowWidth row (Nat.lt_of_lt_of_le hlt hrows)
    rw [if_pos hlt] at hwidth
    rw [hwidth, hy]
    by_cases hzero : columns fb c = 0
    · rw [if_pos hzero, hzero]
      rfl
    rw [if_neg hzero, if_neg (UInt32.not_le.mpr
      ((h.cursorY_lt (Nat.lt_of_lt_of_le hlt hrows)).mpr hlt)), hinside]
    refine List.map_congr_left fun col hcol => ?_
    have hcol := List.mem_range.mp hcol
    rw [hc.background row (Nat.lt_of_lt_of_le hlt hrows) hlt col hcol, cursorX, cursorX, hc.x]
  rw [savedPixels, hheight, List.mem_flatMap]
  constructor
  · rintro ⟨row, hlt, hp⟩
    have hlt := List.mem_range.mp hlt
    rw [hrow row hlt] at hp
    obtain ⟨col, hcol, rfl⟩ := List.mem_map.mp hp
    exact ⟨row, hlt, col, List.mem_range.mp hcol, rfl⟩
  · rintro ⟨row, hlt, col, hcol, rfl⟩
    refine ⟨row, List.mem_range.mpr hlt, ?_⟩
    rw [hrow row hlt]
    exact List.mem_map.mpr ⟨col, List.mem_range.mpr hcol, rfl⟩

/-! ## Putting back -/

/-- The bytes that filling pixels stores. -/
def savedWrites (fb : Framebuffer) (ps : List (UInt32 × UInt32 × UInt32)) :
    List (UInt32 × UInt8) :=
  ps.flatMap fun p => moved (fb.framebufferPtr .display + ·)
    (pixelWrites fb.bytesPerPixel.toNat (p.2.1 * fb.info.pitch + p.1 * fb.bytesPerPixel) p.2.2)

theorem fillPixel_eq (havailable : ¬ fb.available = false) {p : UInt32 × UInt32 × UInt32}
    (hx : p.1 < fb.info.width) (hy : p.2.1 < fb.info.height) :
    fillPixel fb p = { fb with memory := paint (savedWrites fb [p]) fb.memory } := by
  have hone : ∀ {a limit : UInt32}, a < limit → Framebuffer.clipped a 1 limit = 1 := by
    intro a limit hlt
    have hlt := lt_iff.mp hlt
    have hsize := limit.toNat_lt
    have hsum : (a + 1).toNat = a.toNat + 1 := by
      rw [UInt32.toNat_add, UInt32.toNat_one, Nat.mod_eq_of_lt (by omega)]
    rw [Framebuffer.clipped, if_neg]
    rw [lt_iff, hsum]
    omega
  have hout : ¬ (fb.info.width ≤ p.1 ∨ fb.info.height ≤ p.2.1) :=
    not_or.mpr ⟨UInt32.not_le.mpr hx, UInt32.not_le.mpr hy⟩
  have hzero : ¬ ((1 : UInt32) = 0 ∨ (1 : UInt32) = 0) := by decide
  have hdraw : ¬ BufferTarget.display = .draw := by decide
  rw [fillPixel, Framebuffer.fillRect, if_neg havailable, if_neg hzero, if_neg hout]
  simp only [if_neg hdraw, hone hx, hone hy, fillRows_eq]
  have hpixel : rectWrites fb.info.pitch fb.bytesPerPixel p.1 p.2.1 1 1 (fun _ _ => some p.2.2) =
      pixelWrites fb.bytesPerPixel.toNat (p.2.1 * fb.info.pitch + p.1 * fb.bytesPerPixel)
        p.2.2 := by
    have hzero : ∀ a : UInt32, a + UInt32.ofNat 0 = a := UInt32.add_zero
    simp only [rectWrites, List.range_one, List.flatMap_cons, List.flatMap_nil, List.append_nil,
      Option.elim_some, hzero]
  rw [savedWrites, List.flatMap_cons, List.flatMap_nil, List.append_nil, ← hpixel]
  rfl

theorem foldl_fillPixel (havailable : ¬ fb.available = false) :
    ∀ (ps : List (UInt32 × UInt32 × UInt32)) (m : Memory),
      (∀ p ∈ ps, p.1 < fb.info.width ∧ p.2.1 < fb.info.height) →
      ps.foldl fillPixel { fb with memory := m } =
        { fb with memory := paint (savedWrites fb ps) m }
  | [], _, _ => rfl
  | p :: ps, m, h => by
    obtain ⟨hx, hy⟩ := h p List.mem_cons_self
    have hone := @fillPixel_eq { fb with memory := m } havailable p hx hy
    have hcons : savedWrites fb (p :: ps) = savedWrites fb [p] ++ savedWrites fb ps := by
      rw [savedWrites, savedWrites, savedWrites, List.flatMap_cons, List.flatMap_cons,
        List.flatMap_nil, List.append_nil]
    rw [List.foldl_cons, hone, hcons, paint_append]
    exact foldl_fillPixel havailable ps _ fun q hq => h q (List.mem_cons_of_mem p hq)

theorem drawCursor_eq (h : OnScreen fb c) (havailable : ¬ fb.available = false)
    (bits : UInt32 → UInt8) (color bgColor : UInt32) : ∃ ws,
      fb.drawMonoBitmap (UInt32.ofInt c.x) (UInt32.ofInt c.y) (UInt32.ofNat cursorWidth)
        (UInt32.ofNat cursorHeight) (some bits) cursorStride color bgColor true .display =
          { fb with memory := paint ws fb.memory } ∧
      ∀ w ∈ ws, ∃ row < rows fb c, ∃ col < columns fb c, ∃ i < fb.bytesPerPixel.toNat,
        w.1 = fb.framebufferPtr .display + (cursorY c row * fb.info.pitch +
          cursorX c col * fb.bytesPerPixel + UInt32.ofNat i) := by
  have hx : (UInt32.ofInt c.x).toNat = c.x.toNat := by
    have hvalue := @toNat_ofInt c.x h.left (by have := h.right; have := h.width; omega)
    omega
  have hy : (UInt32.ofInt c.y).toNat = c.y.toNat := by
    have hvalue := @toNat_ofInt c.y h.top (by have := h.bottom; have := h.height; omega)
    omega
  have hleft := h.left
  have hright := h.right
  have htop := h.top
  have hbottom := h.bottom
  have hwidth := h.width
  have hheight := h.height
  have hxin : UInt32.ofInt c.x < fb.info.width := by
    rw [lt_iff, hx]
    omega
  have hyin : UInt32.ofInt c.y < fb.info.height := by
    rw [lt_iff, hy]
    omega
  have hsixteen : (UInt32.ofNat cursorWidth).toNat = 16 ∧ (UInt32.ofNat cursorHeight).toNat = 16 :=
    ⟨rfl, rfl⟩
  have hclipX := @clipped_toNat _ (UInt32.ofNat cursorWidth) _ hxin (by omega)
  have hclipY := @clipped_toNat _ (UInt32.ofNat cursorHeight) _ hyin (by omega)
  rw [hx, hsixteen.1] at hclipX
  rw [hy, hsixteen.2] at hclipY
  have hzero : ¬ (UInt32.ofNat cursorWidth = 0 ∨ UInt32.ofNat cursorHeight = 0) := by decide
  have hout : ¬ (fb.info.width ≤ UInt32.ofInt c.x ∨ fb.info.height ≤ UInt32.ofInt c.y) :=
    not_or.mpr ⟨UInt32.not_le.mpr hxin, UInt32.not_le.mpr hyin⟩
  have hdraw : ¬ BufferTarget.display = .draw := by decide
  rw [Framebuffer.drawMonoBitmap, if_neg havailable, if_neg hzero, if_neg hout]
  simp only [if_neg hdraw, drawRows_eq]
  refine ⟨_, rfl, fun w hw => ?_⟩
  obtain ⟨v, hv, rfl⟩ := List.mem_map.mp hw
  obtain ⟨row, hrow, col, hcol, i, hi, color, -, rfl⟩ := of_mem_rectWrites hv
  rw [hclipX] at hcol
  rw [hclipY] at hrow
  have hcolX : UInt32.ofInt c.x + UInt32.ofNat col = cursorX c col := by
    rw [← UInt32.toNat_inj, h.cursorX_toNat (Nat.lt_of_lt_of_le hcol (Nat.min_le_left _ _)),
      UInt32.toNat_add, hx, UInt32.toNat_ofNat_of_lt' (show col < 2 ^ 32 by omega),
      Nat.mod_eq_of_lt (by omega)]
  have hrowY : UInt32.ofInt c.y + UInt32.ofNat row = cursorY c row := by
    rw [← UInt32.toNat_inj, h.cursorY_toNat (Nat.lt_of_lt_of_le hrow (Nat.min_le_left _ _)),
      UInt32.toNat_add, hy, UInt32.toNat_ofNat_of_lt' (show row < 2 ^ 32 by omega),
      Nat.mod_eq_of_lt (by omega)]
  refine ⟨row, hrow, col, hcol, i, hi, ?_⟩
  show fb.framebufferPtr .display + _ = _
  rw [hcolX, hrowY]

theorem clampCursor_onScreen (c : CursorState) (havailable : ¬ fb.available = false)
    (hsize : ¬ (fb.info.width = 0 ∨ fb.info.height = 0)) (hwidth : fb.info.width.toNat < 2 ^ 31)
    (hheight : fb.info.height.toNat < 2 ^ 31) : OnScreen fb (clampCursor fb c) := by
  obtain ⟨hw, hh⟩ := not_or.mp hsize
  rw [clampCursor, if_neg havailable, if_neg hsize]
  obtain ⟨hleft, hright⟩ := clampCoordinate_bounds c.x hw hwidth
  obtain ⟨htop, hbottom⟩ := clampCoordinate_bounds c.y hh hheight
  exact ⟨hleft, hright, htop, hbottom, hwidth, hheight⟩

/-- A mode in which a pixel is read as it was stored. -/
structure Readable (fb : Framebuffer) : Prop where
  bytes : fb.bytesPerPixel = 2 ∨ fb.bytesPerPixel = 3 ∨ fb.bytesPerPixel = 4
  width : fb.info.width.toNat < 2 ^ 31
  height : fb.info.height.toNat < 2 ^ 31

theorem Readable.peekPixel (h : Readable fb) (havailable : ¬ fb.available = false) {x y : UInt32}
    (hx : x < fb.info.width) (hy : y < fb.info.height) : ∀ i < fb.bytesPerPixel.toNat,
      colorByte (fb.peekPixel x y .display) i = fb.memory (fb.framebufferPtr .display +
        (y * fb.info.pitch + x * fb.bytesPerPixel + UInt32.ofNat i)) := by
  intro i hi
  have hfour : fb.bytesPerPixel.toNat ≤ 4 := by
    rcases h.bytes with hb | hb | hb
    all_goals
      rw [hb]
      decide
  have hassoc : ∀ b o k : UInt32, b + y * fb.info.pitch + o + k = b + (y * fb.info.pitch + o + k) :=
    fun b o k => by ac_rfl
  rw [peekPixel_eq havailable h.bytes hx hy, colorByte_loadBytes _ _ hfour hi, hassoc]

theorem suspend_drawn (s : Screen) (havailable : ¬ s.framebuffer.available = false)
    (hdrawn : s.cursor.drawn = true) : (suspendMouseCursor s).framebuffer =
      (savedPixels s.framebuffer.info s.cursor).foldl fillPixel s.framebuffer := by
  have hnot : ¬ s.cursor.drawn = false := by
    rw [hdrawn]
    exact Bool.noConfusion
  rw [suspendMouseCursor, if_neg hnot, restoreCursorBackground,
    if_neg (not_or.mpr ⟨havailable, hnot⟩)]

/-- **What is drawn is taken back.** -/
theorem suspend_render (s : Screen) (hdrawn : s.cursor.drawn = false)
    (hr : Readable s.framebuffer) :
    (suspendMouseCursor (renderMouseCursor s)).framebuffer = s.framebuffer := by
  have hidle : (suspendMouseCursor s).framebuffer = s.framebuffer := by
    rw [suspendMouseCursor, if_pos hdrawn]
  rw [renderMouseCursor]
  dsimp only
  split
  · exact hidle
  rename_i havailable
  split
  · exact hidle
  rename_i hsize
  obtain ⟨havailable, -⟩ := not_or.mp havailable
  have hon := clampCursor_onScreen s.cursor havailable hsize hr.width hr.height
  generalize clampCursor s.framebuffer s.cursor = c at hon
  have hc := captured hon havailable
  generalize captureCursorBackground s.framebuffer c = c' at hc
  obtain ⟨ws, hws, hplaces⟩ := drawCursor_eq hon havailable cursorOutline
    (s.framebuffer.packColor 16 20 28) 0
  rw [← hc.x, ← hc.y] at hws
  rw [hws]
  have hon' : OnScreen { s.framebuffer with memory := paint ws s.framebuffer.memory } c :=
    ⟨hon.left, hon.right, hon.top, hon.bottom, hon.width, hon.height⟩
  generalize s.framebuffer.packColor 16 20 28 = outlineColor
  generalize (if (c'.buttons &&& anyButton != 0) = true then s.framebuffer.packColor 198 220 255
    else s.framebuffer.packColor 248 248 255) = fillColor
  obtain ⟨vs, hvs, hplaces'⟩ := drawCursor_eq hon' havailable cursorFill fillColor outlineColor
  rw [← hc.x, ← hc.y] at hvs
  rw [hvs]
  have hps := @mem_savedPixels _ _ hon { c' with drawn := true }
    ⟨hc.x, hc.y, hc.visible, hc.savedHeight, hc.rowWidth, hc.background⟩
  refine (suspend_drawn ⟨{ s.framebuffer with memory := paint vs (paint ws s.framebuffer.memory) },
    { c' with drawn := true }⟩ havailable rfl).trans ?_
  show (savedPixels s.framebuffer.info { c' with drawn := true }).foldl fillPixel
    { s.framebuffer with memory := paint vs (paint ws s.framebuffer.memory) } = s.framebuffer
  generalize savedPixels s.framebuffer.info { c' with drawn := true } = ps at hps
  have hinside : ∀ {row}, row < rows s.framebuffer c → ∀ {col}, col < columns s.framebuffer c →
      cursorX c col < s.framebuffer.info.width ∧ cursorY c row < s.framebuffer.info.height := by
    intro row hrow col hcol
    refine ⟨?_, (hon.cursorY_lt (Nat.lt_of_lt_of_le hrow (Nat.min_le_left _ _))).mpr hrow⟩
    have hleft := hon.left
    have hcols : columns s.framebuffer c =
      min 16 (s.framebuffer.info.width.toNat - c.x.toNat) := rfl
    rw [lt_iff, hon.cursorX_toNat (Nat.lt_of_lt_of_le hcol (Nat.min_le_left _ _))]
    omega
  have hscreen : ∀ p ∈ ps, p.1 < s.framebuffer.info.width ∧ p.2.1 < s.framebuffer.info.height := by
    intro p hp
    obtain ⟨row, hrow, col, hcol, rfl⟩ := hps.mp hp
    exact hinside hrow hcol
  rw [foldl_fillPixel havailable ps _ hscreen]
  have hundone : paint (savedWrites s.framebuffer ps) (paint vs (paint ws s.framebuffer.memory)) =
      s.framebuffer.memory := by
    rw [← paint_append ws vs]
    refine paint_undone ?_ ?_
    · intro w hw
      obtain ⟨p, hp, hw⟩ := List.mem_flatMap.mp hw
      obtain ⟨row, hrow, col, hcol, rfl⟩ := hps.mp hp
      obtain ⟨v, hv, rfl⟩ := List.mem_map.mp hw
      obtain ⟨i, hi, rfl⟩ := List.mem_map.mp hv
      obtain ⟨hx, hy⟩ := hinside hrow hcol
      exact hr.peekPixel havailable hx hy i (List.mem_range.mp hi)
    · intro w hw
      have hplace : ∃ row < rows s.framebuffer c, ∃ col < columns s.framebuffer c,
          ∃ i < s.framebuffer.bytesPerPixel.toNat, w.1 = s.framebuffer.framebufferPtr .display +
            (cursorY c row * s.framebuffer.info.pitch +
              cursorX c col * s.framebuffer.bytesPerPixel + UInt32.ofNat i) := by
        rcases List.mem_append.mp hw with hw | hw
        · exact hplaces w hw
        · exact hplaces' w hw
      obtain ⟨row, hrow, col, hcol, i, hi, hw⟩ := hplace
      refine ⟨_, List.mem_flatMap.mpr ⟨_, hps.mpr ⟨row, hrow, col, hcol, rfl⟩, List.mem_map.mpr
        ⟨_, List.mem_map.mpr ⟨i, List.mem_range.mpr hi, rfl⟩, rfl⟩⟩, ?_⟩
      exact hw.symm
  rw [hundone]

/-! ## Events -/

theorem suspend_idle (s : Screen) (havailable : ¬ s.framebuffer.available = false) :
    (suspendMouseCursor s).cursor.drawn = false := by
  rw [suspendMouseCursor]
  split
  · rename_i hdrawn
    exact hdrawn
  · rename_i hdrawn
    rw [restoreCursorBackground, if_neg (not_or.mpr ⟨havailable, hdrawn⟩)]

theorem suspend_of_idle {s : Screen} (h : s.cursor.drawn = false) : suspendMouseCursor s = s :=
  if_pos h

theorem suspend_visible (s : Screen) (visible : Bool) :
    (suspendMouseCursor { s with cursor := { s.cursor with visible := visible } }).framebuffer =
      (suspendMouseCursor s).framebuffer := by
  rw [suspendMouseCursor, suspendMouseCursor]
  split
  · rfl
  rw [restoreCursorBackground, restoreCursorBackground]
  split
  · rfl
  · rfl

theorem clampCursor_idle (h : c.drawn = false) : (clampCursor fb c).drawn = false := by
  rw [clampCursor]
  split
  · exact h
  split
  · exact h
  · exact h

theorem render_uncovered {s : Screen} {fb : Framebuffer} (hr : Readable fb)
    (hs : s.framebuffer = fb) (hdrawn : s.cursor.drawn = false) :
    (suspendMouseCursor (renderMouseCursor s)).framebuffer = fb := by
  subst hs
  exact suspend_render s hdrawn hr

theorem initialize_uncovered {s : Screen} {fb : Framebuffer} (hr : Readable fb)
    (hs : (suspendMouseCursor s).framebuffer = fb) (x y : Int) (buttons : UInt8) :
    (suspendMouseCursor (initializeMouseCursor s x y buttons)).framebuffer = fb := by
  rw [initializeMouseCursor]
  split
  · exact hs
  rename_i havailable
  rw [← suspend_visible s true] at hs
  have hidle := suspend_idle { s with cursor := { s.cursor with visible := true } } havailable
  exact render_uncovered hr hs (clampCursor_idle hidle)

theorem moveCursor_uncovered {s : Screen} (havailable : ¬ s.framebuffer.available = false)
    (event : MouseEvent) :
    (suspendMouseCursor (moveCursor s event)).framebuffer = (suspendMouseCursor s).framebuffer := by
  rw [← suspend_visible s true, moveCursor]
  have hidle := suspend_idle { s with cursor := { s.cursor with visible := true } } havailable
  split
  · refine (congrArg Screen.framebuffer (suspend_of_idle ?_)).trans rfl
    exact clampCursor_idle hidle
  · rfl

theorem resume_uncovered {s : Screen} {fb : Framebuffer} (hr : Readable fb)
    (hs : (suspendMouseCursor s).framebuffer = fb) :
    (suspendMouseCursor (resumeMouseCursor s)).framebuffer = fb := by
  rw [resumeMouseCursor]
  split
  · rename_i h
    rw [suspend_of_idle h.2] at hs
    exact render_uncovered hr hs h.2
  · exact hs

theorem handle_uncovered {redraw : Desk → MouseEvent → Screen} {s : Desk} {fb : Framebuffer}
    (hr : Readable fb) (hs : (suspendMouseCursor s.screen).framebuffer = fb) {event : MouseEvent}
    (hquiet : windowsMove s.desktop event = false) :
    (suspendMouseCursor (handleMouseEvent redraw s event).screen).framebuffer = fb := by
  rw [handleMouseEvent]
  split
  · exact hs
  rename_i havailable
  have hwindows : (handleWindows redraw { s with screen := moveCursor s.screen event } event).screen
      = moveCursor s.screen event := by
    rw [handleWindows, hquiet]
    rfl
  dsimp only
  rw [hwindows]
  exact resume_uncovered hr ((moveCursor_uncovered havailable event).trans hs)

/-- No call changes the left button or moves a window. -/
def Quiet (redraw : Desk → MouseEvent → Screen) : Desk → List MouseAct → Prop
  | _, [] => True
  | s, a :: acts => (∀ event, a = .handleMouseEvent event → windowsMove s.desktop event = false) ∧
    Quiet redraw (step redraw s a) acts

theorem run_uncovered {redraw : Desk → MouseEvent → Screen} {fb : Framebuffer} (hr : Readable fb) :
    ∀ (acts : List MouseAct) {s : Desk}, (suspendMouseCursor s.screen).framebuffer = fb →
      Quiet redraw s acts →
      (suspendMouseCursor (acts.foldl (step redraw) s).screen).framebuffer = fb
  | [], _, hs, _ => hs
  | a :: acts, s, hs, hquiet => by
    obtain ⟨hfirst, hrest⟩ := hquiet
    refine run_uncovered hr acts ?_ hrest
    cases a with
    | initializeMouseCursor x y buttons => exact initialize_uncovered hr hs x y buttons
    | handleMouseEvent event => exact handle_uncovered hr hs (hfirst event rfl)

/-- **The cursor leaves no trail**: whatever is displayed, wherever the mouse goes
while no window moves, suspending the cursor gives back the framebuffer as it was
before the first call. -/
theorem no_trail (redraw : Desk → MouseEvent → Screen) {s : Desk}
    (hidle : s.screen.cursor.drawn = false) (hr : Readable s.screen.framebuffer)
    {acts : List MouseAct} (hquiet : Quiet redraw s acts) :
    (suspendMouseCursor (acts.foldl (step redraw) s).screen).framebuffer =
      s.screen.framebuffer := by
  refine run_uncovered hr acts ?_ hquiet
  rw [suspend_of_idle hidle]

/-- A cursor that was not drawn yet. -/
def freshCursor : CursorState :=
  { x := 0, y := 0, buttons := 0, visible := false, drawn := false, savedHeight := 0
    rowWidth := fun _ => 0, background := fun _ _ => 0 }

/-- The mouse comes in at a border and leaves over a corner. -/
def crossing : List MouseAct :=
  [.initializeMouseCursor (-9) 2 0, .handleMouseEvent ⟨9, 1, 0, 0, 0, 0, 0, 0, 0⟩,
    .handleMouseEvent ⟨100, 100, 0, 0, 0, 0, 2, 2, 0⟩]

theorem no_trail_crossing :
    (suspendMouseCursor (crossing.foldl (step fun s _ => s.screen)
      ⟨⟨smallMode, freshCursor⟩, ⟨booted [], bootWindows⟩⟩).screen).framebuffer = smallMode := by
  refine @no_trail (fun s _ => s.screen) ⟨⟨smallMode, freshCursor⟩, ⟨booted [], bootWindows⟩⟩ rfl
    ⟨by decide, by decide, by decide⟩ crossing ⟨?_, ?_, ?_, trivial⟩
  · intro event h
    cases h
  · intro event h
    cases h
    decide +kernel
  · intro event h
    cases h
    decide +kernel

end

end ContinuumOS.Gui.MouseCursor
