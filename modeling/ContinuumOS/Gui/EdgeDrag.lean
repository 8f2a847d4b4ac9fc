import ContinuumOS.Gui.Frames

/-! # The edge that is dragged

A resize keeps the edges in place that the mouse does not hold, and the others
follow the cursor, a cell at a time. This needs a screen whose coordinates, and
their sums with what the cursor moves, fit an `int32_t`. -/
namespace ContinuumOS.Gui.EdgeDrag
open ContinuumOS.Gui.TextGrid ContinuumOS.Gui.Geometry ContinuumOS.Gui.Windows
open ContinuumOS.Gui.Resizing ContinuumOS.Gui.Frames

def leftEdge (window : Window) : Nat := window.frameX.toNat
def rightEdge (window : Window) : Nat := window.frameX.toNat + window.frameWidth.toNat
def topEdge (window : Window) : Nat := window.frameY.toNat
def bottomEdge (window : Window) : Nat := window.frameY.toNat + window.frameHeight.toNat

/-- The edges that are not held are where they were, and each is whole cells away
from there. -/
structure Anchored (edges : UInt8) (start window : Window) : Prop where
  left : hasEdge edges resizeEdgeLeft = false → leftEdge window = leftEdge start
  right : hasEdge edges resizeEdgeRight = false → rightEdge window = rightEdge start
  top : hasEdge edges resizeEdgeTop = false → topEdge window = topEdge start
  bottom : hasEdge edges resizeEdgeBottom = false → bottomEdge window = bottomEdge start
  columns : (8 : Int) ∣ leftEdge window - leftEdge start ∧
    (8 : Int) ∣ rightEdge window - rightEdge start
  rows : (16 : Int) ∣ topEdge window - topEdge start ∧
    (16 : Int) ∣ bottomEdge window - bottomEdge start

/-- An edge that is held is not before another for a cursor that is. -/
structure Ordered (edges : UInt8) (c c' : UInt32 × UInt32) (window window' : Window) : Prop where
  left : hasEdge edges resizeEdgeLeft = true → c.1 ≤ c'.1 → leftEdge window ≤ leftEdge window'
  right : hasEdge edges resizeEdgeRight = true → c.1 ≤ c'.1 →
    rightEdge window ≤ rightEdge window'
  top : hasEdge edges resizeEdgeTop = true → c.2 ≤ c'.2 → topEdge window ≤ topEdge window'
  bottom : hasEdge edges resizeEdgeBottom = true → c.2 ≤ c'.2 →
    bottomEdge window ≤ bottomEdge window'

/-- A sum of the code that an `int32_t` holds. -/
def FitsInt32 (i : Int) : Prop := -2 ^ 31 ≤ i ∧ i < 2 ^ 31

/-- The sums that place the edges that are held. -/
structure SumsFit (edges : UInt8) (start : Window) (grip c : UInt32 × UInt32) : Prop where
  left : hasEdge edges resizeEdgeLeft = true →
    FitsInt32 (leftEdge start + (c.1.toNat - grip.1.toNat : Int))
  right : hasEdge edges resizeEdgeRight = true →
    FitsInt32 (rightEdge start + (c.1.toNat - grip.1.toNat : Int))
  top : hasEdge edges resizeEdgeTop = true →
    FitsInt32 (topEdge start + (c.2.toNat - grip.2.toNat : Int))
  bottom : hasEdge edges resizeEdgeBottom = true →
    FitsInt32 (bottomEdge start + (c.2.toNat - grip.2.toNat : Int))

/-- The cursor goes from place to place. -/
def resizeRun (fb : FrameBuffer) (w : WindowState) (cs : List (UInt32 × UInt32)) : WindowState :=
  cs.foldl (fun w c => (updateResize fb w c.1 c.2).2) w

/-- The frame that a resize of `start` gives, when the cursor has moved so far. -/
structure Pulled (fb : FrameBuffer) (edges : UInt8) (start : Window) (deltaX deltaY : Int)
    (window : Window) : Prop where
  column : (window.frameX, window.frameWidth) = Prod.map id (frameSize (columnAxis fb))
    ((columnAxis fb).resized (hasEdge edges resizeEdgeLeft) (hasEdge edges resizeEdgeRight)
      ⟨start.frameX, start.frameWidth⟩ deltaX)
  row : (window.frameY, window.frameHeight) = Prod.map id (frameSize (rowAxis fb))
    ((rowAxis fb).resized (hasEdge edges resizeEdgeTop) (hasEdge edges resizeEdgeBottom)
      ⟨start.frameY, start.frameHeight⟩ deltaY)

/-- Not two opposite edges. -/
def OneWay (edges : UInt8) : Prop :=
  ¬ (hasEdge edges resizeEdgeLeft = true ∧ hasEdge edges resizeEdgeRight = true) ∧
    ¬ (hasEdge edges resizeEdgeTop = true ∧ hasEdge edges resizeEdgeBottom = true)

/-- A position on the screen. -/
def Seen (fb : FrameBuffer) (c : UInt32 × UInt32) : Prop := c.1 < fb.width ∧ c.2 < fb.height

section

variable {fb : FrameBuffer} {w w' : WindowState} {slot : Nat} {a : Axis} {e : Extent}
  {start window window' : Window} {edges : UInt8}

/-! ## One axis -/

/-- **One axis of a resize** that does not hold both of its edges. -/
theorem resized_anchored (h : Fair a) (he : Inside a e) (hw : Whole a e) {low high : Bool}
    (hone : ¬ (low = true ∧ high = true)) (delta : Int) :
    (a.resized low high e delta).1.toNat +
        (frameSize a (a.resized low high e delta).2).toNat ≤ a.screen.toNat ∧
      (low = false → (a.resized low high e delta).1 = e.start) ∧
      (high = false → (a.resized low high e delta).1.toNat +
        (frameSize a (a.resized low high e delta).2).toNat = e.start.toNat + e.size.toNat) := by
  have hin : e.start.toNat + e.size.toNat ≤ a.screen.toNat := he
  cases low with
  | false =>
    cases high with
    | false =>
      rw [resized_none h he hw delta]
      have hsize := h.newSize_whole hw (by omega)
      rw [newSize] at hsize
      exact ⟨by rw [hsize]; exact hin, fun _ => rfl, fun _ => by rw [hsize]⟩
    | true =>
      rw [resized_high h he hw delta]
      obtain ⟨hmin, hmax⟩ := highSize_bounds h he hw delta
      have hsize := h.newSize_le hmin (by omega)
      rw [newSize] at hsize
      exact ⟨by dsimp only; omega, fun _ => rfl, fun hfalse => absurd hfalse.symm
        Bool.false_ne_true⟩
  | true =>
    cases high with
    | true => exact absurd ⟨rfl, rfl⟩ hone
    | false =>
      obtain ⟨hcells, hanchor⟩ := resized_low h he hw delta
      rw [newSize, ← hcells] at hanchor
      exact ⟨hanchor.trans_le hin, fun hfalse => absurd hfalse.symm Bool.false_ne_true,
        fun _ => hanchor⟩

theorem resized_ordered (h : Fair a) (he : Inside a e) (hw : Whole a e) {low high : Bool}
    (hone : ¬ (low = true ∧ high = true)) {delta delta' : Int} (hle : delta ≤ delta') :
    (low = true → (a.resized low high e delta).1.toNat ≤
      (a.resized low high e delta').1.toNat) ∧
    (high = true → (a.resized low high e delta).1.toNat +
        (frameSize a (a.resized low high e delta).2).toNat ≤
      (a.resized low high e delta').1.toNat +
        (frameSize a (a.resized low high e delta').2).toNat) := by
  have hin : e.start.toNat + e.size.toNat ≤ a.screen.toNat := he
  cases low with
  | false =>
    refine ⟨fun hfalse => absurd hfalse Bool.false_ne_true, fun htrue => ?_⟩
    subst htrue
    rw [resized_high h he hw delta, resized_high h he hw delta']
    obtain ⟨hmin, -⟩ := highSize_bounds h he hw delta
    obtain ⟨-, hmax⟩ := highSize_bounds h he hw delta'
    have hsizes : highSize a e delta ≤ highSize a e delta' := by
      rw [highSize, highSize, asked, asked]
      omega
    have hmono := h.newSize_mono hmin hsizes (by omega)
    exact Nat.add_le_add_left hmono _
  | true =>
    refine ⟨fun _ => ?_, fun htrue => absurd ⟨rfl, htrue⟩ hone⟩
    have hfalse : high = false := Bool.eq_false_of_not_eq_true fun htrue => hone ⟨rfl, htrue⟩
    subst hfalse
    obtain ⟨-, hanchor⟩ := resized_low h he hw delta
    obtain ⟨-, hanchor'⟩ := resized_low h he hw delta'
    obtain ⟨hmin, -⟩ := lowSize_bounds h hw delta'
    obtain ⟨-, hmax⟩ := lowSize_bounds h hw delta
    have hsizes : lowSize a e delta' ≤ lowSize a e delta := by
      rw [lowSize, lowSize, asked, asked]
      omega
    have hmono := h.newSize_mono hmin hsizes (by omega)
    omega

theorem resized_cells (h : Fair a) (he : Inside a e) (hw : Whole a e) (low high : Bool)
    (delta : Int) : (a.font.toNat : Int) ∣
      (frameSize a (a.resized low high e delta).2).toNat - e.size.toNat := by
  obtain ⟨-, -, hmax⟩ := resized_fits h he low high delta
  obtain ⟨cells, -, hcells, hsize⟩ := hw
  rw [hsize, (h.frameSize_toNat hmax).1, (h.frameSize_toNat hcells).1]
  refine ⟨(a.resized low high e delta).2.toNat - cells.toNat, ?_⟩
  push_cast
  ring

theorem resized_steps (h : Fair a) (he : Inside a e) (hw : Whole a e) {low high : Bool}
    (hone : ¬ (low = true ∧ high = true)) (delta : Int) :
    (a.font.toNat : Int) ∣ (a.resized low high e delta).1.toNat - e.start.toNat ∧
      (a.font.toNat : Int) ∣ (((a.resized low high e delta).1.toNat +
        (frameSize a (a.resized low high e delta).2).toNat : Nat) : Int) -
        ((e.start.toNat + e.size.toNat : Nat) : Int) := by
  have hcells := resized_cells h he hw low high delta
  obtain ⟨-, hlow, hhigh⟩ := resized_anchored h he hw hone delta
  push_cast
  cases low with
  | false =>
    have hstart := hlow rfl
    rw [hstart, Int.sub_self, add_sub_add_left_eq_sub]
    exact ⟨dvd_zero _, hcells⟩
  | true =>
    have hend := hhigh (Bool.eq_false_of_not_eq_true fun htrue => hone ⟨rfl, htrue⟩)
    refine ⟨?_, ?_⟩
    · have hstart : ((a.resized true high e delta).1.toNat : Int) - e.start.toNat =
          -((frameSize a (a.resized true high e delta).2).toNat - e.size.toNat) := by
        omega
      rw [hstart]
      exact hcells.neg_right
    · exact ⟨0, by omega⟩

theorem clampAxis_of_fits {position size screen : UInt32}
    (h : position.toNat + size.toNat ≤ screen.toNat) : clampAxis position size screen = position := by
  have hscreen := screen.toNat_lt
  have hsum : (position + size).toNat = position.toNat + size.toNat := by
    rw [UInt32.toNat_add, Nat.mod_eq_of_lt (by omega)]
  rw [clampAxis]
  split
  · rename_i hle
    have hle := UInt32.le_iff_toNat_le.mp hle
    exact UInt32.toNat_inj.mp (show 0 = position.toNat by omega)
  split
  · rename_i hlt
    have hlt := UInt32.lt_iff_toNat_lt.mp hlt
    omega
  · rfl

/-! ## The edges that are hit -/

theorem hasEdge_or (left right top bottom : Prop) [Decidable left] [Decidable right]
    [Decidable top] [Decidable bottom] {edges : UInt8}
    (h : edges = (if left then resizeEdgeLeft else 0) ||| (if right then resizeEdgeRight else 0) |||
      (if top then resizeEdgeTop else 0) ||| (if bottom then resizeEdgeBottom else 0)) :
    (hasEdge edges resizeEdgeLeft = true ↔ left) ∧ (hasEdge edges resizeEdgeRight = true ↔ right) ∧
      (hasEdge edges resizeEdgeTop = true ↔ top) ∧
      (hasEdge edges resizeEdgeBottom = true ↔ bottom) := by
  by_cases hleft : left <;> by_cases hright : right <;> by_cases htop : top <;>
    by_cases hbottom : bottom <;>
    · simp only [hleft, hright, htop, hbottom, if_true, if_false] at h ⊢
      rw [h]
      decide

/-- A position of a frame, near the edges that it hits. -/
structure Near (window : Window) (edges : UInt8) (x y : UInt32) : Prop where
  inX : window.frameX.toNat ≤ x.toNat ∧ x.toNat < rightEdge window
  inY : window.frameY.toNat ≤ y.toNat ∧ y.toNat < bottomEdge window
  left : hasEdge edges resizeEdgeLeft = true → x.toNat < leftEdge window + 12
  right : hasEdge edges resizeEdgeRight = true → rightEdge window ≤ x.toNat + 12
  top : hasEdge edges resizeEdgeTop = true → y.toNat < topEdge window + 12
  bottom : hasEdge edges resizeEdgeBottom = true → bottomEdge window ≤ y.toNat + 12

theorem testWindow_edges {x y : UInt32} {hit : WindowHitResult}
    (h : testWindow window slot x y = some hit) : hit.resizeEdges = resizeEdgeNone ∨
      hit.resizeEdges = resizeEdgesAt window (x - window.frameX) (y - window.frameY) := by
  rw [testWindow] at h
  split at h
  · cases h
  dsimp only at h
  split at h
  · cases h
  split at h
  · exact .inl ((Option.some.inj h) ▸ rfl)
  split at h
  · exact .inr ((Option.some.inj h) ▸ rfl)
  · exact .inl ((Option.some.inj h) ▸ rfl)

theorem testWindow_near {x y : UInt32} {hit : WindowHitResult}
    (h : testWindow window slot x y = some hit) : Near window hit.resizeEdges x y := by
  obtain ⟨hleft, htop, hright, hbottom, -⟩ := testWindow_some h
  have hsubX := UInt32.toNat_sub_of_le _ _ hleft
  have hsubY := UInt32.toNat_sub_of_le _ _ htop
  have hdistX : (if x - window.frameX < window.frameWidth then
      window.frameWidth - (x - window.frameX) else 0).toNat =
      window.frameWidth.toNat - (x.toNat - window.frameX.toNat) := by
    rw [if_pos hright, UInt32.toNat_sub_of_le _ _ (UInt32.le_of_lt hright), hsubX]
  have hdistY : (if y - window.frameY < window.frameHeight then
      window.frameHeight - (y - window.frameY) else 0).toNat =
      window.frameHeight.toNat - (y.toNat - window.frameY.toNat) := by
    rw [if_pos hbottom, UInt32.toNat_sub_of_le _ _ (UInt32.le_of_lt hbottom), hsubY]
  have hmargin : resizeMargin.toNat = 12 := rfl
  have hleft := UInt32.le_iff_toNat_le.mp hleft
  have htop := UInt32.le_iff_toNat_le.mp htop
  have hright := UInt32.lt_iff_toNat_lt.mp hright
  have hbottom := UInt32.lt_iff_toNat_lt.mp hbottom
  have hinX : window.frameX.toNat ≤ x.toNat ∧ x.toNat < rightEdge window :=
    ⟨hleft, by rw [rightEdge]; omega⟩
  have hinY : window.frameY.toNat ≤ y.toNat ∧ y.toNat < bottomEdge window :=
    ⟨htop, by rw [bottomEdge]; omega⟩
  rcases testWindow_edges h with hnone | hedges
  · rw [hnone]
    exact ⟨hinX, hinY, fun h => absurd h (by decide), fun h => absurd h (by decide),
      fun h => absurd h (by decide), fun h => absurd h (by decide)⟩
  · obtain ⟨hl, hr, ht, hb⟩ := hasEdge_or _ _ _ _ hedges
    rw [UInt32.lt_iff_toNat_lt, hsubX, hmargin] at hl
    rw [UInt32.le_iff_toNat_le, hdistX, hmargin] at hr
    rw [UInt32.lt_iff_toNat_lt, hsubY, hmargin] at ht
    rw [UInt32.le_iff_toNat_le, hdistY, hmargin] at hb
    refine ⟨hinX, hinY, fun h => ?_, fun h => ?_, fun h => ?_, fun h => ?_⟩
    · have hl := hl.mp h
      rw [leftEdge]
      omega
    · have hr := hr.mp h
      rw [rightEdge] at hinX ⊢
      omega
    · have ht := (ht.mp h).1
      rw [topEdge]
      omega
    · have hb := hb.mp h
      rw [bottomEdge] at hinY ⊢
      omega

theorem Near.oneWay (hr : Roomy fb) (hp : Placed fb window) {x y : UInt32}
    (h : Near window edges x y) : OneWay edges := by
  have hwidth := (columnAxis_fair hr).whole_size (e := ⟨window.frameX, window.frameWidth⟩)
    ⟨_, hp.legal.columns.1, hp.legal.columns.2, hp.legal.width⟩
  have hheight := (rowAxis_fair hr).whole_size (e := ⟨window.frameY, window.frameHeight⟩)
    ⟨_, hp.legal.rows.1, hp.legal.rows.2, hp.legal.height⟩
  have hmin : 220 ≤ window.frameWidth.toNat := hwidth
  have hmin' : 232 ≤ window.frameHeight.toNat := hheight
  refine ⟨fun hboth => ?_, fun hboth => ?_⟩
  · have hleft := h.left hboth.1
    have hright := h.right hboth.2
    rw [leftEdge] at hleft
    rw [rightEdge] at hright
    omega
  · have htop := h.top hboth.1
    have hbottom := h.bottom hboth.2
    rw [topEdge] at htop
    rw [bottomEdge] at hbottom
    omega

/-! ## A run -/

/-- The window is held by these edges, from this place on. -/
structure Held (w : WindowState) (slot : Nat) (edges : UInt8) (start : Window)
    (grip : UInt32 × UInt32) : Prop where
  resize : w.resize = ⟨true, slot, edges, int32 grip.1, int32 grip.2, start.frameX, start.frameY,
    start.frameWidth, start.frameHeight⟩
  valid : windowSlotValid w slot = true
  ready : w.geometryReady = true

theorem placed_axes (hp : Placed fb start) :
    (Inside (columnAxis fb) ⟨start.frameX, start.frameWidth⟩ ∧
      Whole (columnAxis fb) ⟨start.frameX, start.frameWidth⟩) ∧
    (Inside (rowAxis fb) ⟨start.frameY, start.frameHeight⟩ ∧
      Whole (rowAxis fb) ⟨start.frameY, start.frameHeight⟩) :=
  ⟨⟨hp.right, _, hp.legal.columns.1, hp.legal.columns.2, hp.legal.width⟩,
    ⟨hp.bottom, _, hp.legal.rows.1, hp.legal.rows.2, hp.legal.height⟩⟩

theorem resizeTarget_eq (hr : Roomy fb) (hp : Placed fb start) (hone : OneWay edges)
    {grip : UInt32 × UInt32} (h : Held w slot edges start grip) (c : UInt32 × UInt32)
    {column row : UInt32 × UInt32}
    (hcolumn : (columnAxis fb).resized (hasEdge edges resizeEdgeLeft)
      (hasEdge edges resizeEdgeRight) ⟨start.frameX, start.frameWidth⟩
      (int32 c.1 - int32 grip.1) = column)
    (hrow : (rowAxis fb).resized (hasEdge edges resizeEdgeTop) (hasEdge edges resizeEdgeBottom)
      ⟨start.frameY, start.frameHeight⟩ (int32 c.2 - int32 grip.2) = row) :
    resizeTarget fb w c.1 c.2 = ((column.1, row.1), column.2, row.2) := by
  obtain ⟨⟨hinX, hwholeX⟩, hinY, hwholeY⟩ := placed_axes hp
  obtain ⟨hfitsX, -⟩ := resized_anchored (columnAxis_fair hr) hinX hwholeX hone.1
    (int32 c.1 - int32 grip.1)
  obtain ⟨hfitsY, -⟩ := resized_anchored (rowAxis_fair hr) hinY hwholeY hone.2
    (int32 c.2 - int32 grip.2)
  rw [hcolumn] at hfitsX
  rw [hrow] at hfitsY
  have hclampX := clampAxis_of_fits hfitsX
  have hclampY := clampAxis_of_fits hfitsY
  simp only [resizeTarget, h.resize, hcolumn, hrow]
  rw [clampFrame, hr.available, h.ready]
  exact Prod.ext (Prod.ext hclampX hclampY) rfl

theorem updateResize_held (hr : Roomy fb) (hp : Placed fb start) (hone : OneWay edges)
    {grip : UInt32 × UInt32} (h : Held w slot edges start grip) (c : UInt32 × UInt32) :
    Held (updateResize fb w c.1 c.2).2 slot edges start grip ∧
      Pulled fb edges start (int32 c.1 - int32 grip.1) (int32 c.2 - int32 grip.2)
        ((updateResize fb w c.1 c.2).2.windows slot) := by
  obtain ⟨⟨hinX, -⟩, hinY, -⟩ := placed_axes hp
  generalize hcolumn : (columnAxis fb).resized (hasEdge edges resizeEdgeLeft)
    (hasEdge edges resizeEdgeRight) ⟨start.frameX, start.frameWidth⟩
    (int32 c.1 - int32 grip.1) = column
  generalize hrow : (rowAxis fb).resized (hasEdge edges resizeEdgeTop)
    (hasEdge edges resizeEdgeBottom) ⟨start.frameY, start.frameHeight⟩
    (int32 c.2 - int32 grip.2) = row
  have hcolumns := (resized_fits (columnAxis_fair hr) hinX (hasEdge edges resizeEdgeLeft)
    (hasEdge edges resizeEdgeRight) (int32 c.1 - int32 grip.1)).2
  have hrows := (resized_fits (rowAxis_fair hr) hinY (hasEdge edges resizeEdgeTop)
    (hasEdge edges resizeEdgeBottom) (int32 c.2 - int32 grip.2)).2
  rw [hcolumn] at hcolumns
  rw [hrow] at hrows
  have hvalid : validInt w w.resize.resizeSlot = true := by
    rw [h.resize, validInt]
    simpa using h.valid
  have hwidth : (fb.width != 0) = true := by
    have hlt := hr.width
    refine bne_iff_ne.mpr fun hzero => ?_
    rw [hzero] at hlt
    exact absurd hlt (by decide)
  have hheight : (fb.height != 0) = true := by
    have hlt := hr.height
    refine bne_iff_ne.mpr fun hzero => ?_
    rw [hzero] at hlt
    exact absurd hlt (by decide)
  have hslot : w.resize.resizeSlot.toNat = slot := by
    rw [h.resize]
    exact Int.toNat_natCast slot
  have hon : w.resize.resizingWindow = true := by rw [h.resize]
  rw [updateResize]
  dsimp only
  rw [if_pos (by rw [hon, hvalid, hwidth, hheight]; rfl), hslot,
    resizeTarget_eq hr hp hone h c hcolumn hrow]
  dsimp only
  split
  · rename_i hsame
    obtain ⟨hw, hh, hx, hy⟩ := hsame
    refine ⟨h, ?_, ?_⟩
    · rw [hcolumn]
      exact Prod.ext hx.symm hw.symm
    · rw [hrow]
      exact Prod.ext hy.symm hh.symm
  · rw [applyVisibleDimensions_eq _ hcolumns hrows]
    generalize hmoved : ({ w.windows slot with
      frameX := column.1, frameY := row.1
      frameWidth := column.2 * fontWidth + contentPaddingWidth
      frameHeight := row.2 * fontHeight + contentPaddingHeight
      contentWidth := column.2 * fontWidth, contentHeight := row.2 * fontHeight
      visibleColumns := column.2, visibleRows := row.2, dirty := markFullDirty } : Window) = moved
    have hsame := same_drawWindows fb (setWindow w slot moved)
    have hbare := hsame.windows slot
    rw [setWindow_self] at hbare
    refine ⟨⟨hsame.resize.trans h.resize, ?_, drawWindows_ready (.inl h.ready)⟩, ?_, ?_⟩
    · rw [hsame.valid, windowSlotValid, setWindow_self, ← hmoved]
      exact h.valid
    · rw [hcolumn]
      exact Prod.ext ((congrArg Window.frameX hbare).trans (hmoved ▸ rfl))
        ((congrArg Window.frameWidth hbare).trans (hmoved ▸ rfl))
    · rw [hrow]
      exact Prod.ext ((congrArg Window.frameY hbare).trans (hmoved ▸ rfl))
        ((congrArg Window.frameHeight hbare).trans (hmoved ▸ rfl))

theorem Pulled.anchored (hr : Roomy fb) (hp : Placed fb start) (hone : OneWay edges)
    {deltaX deltaY : Int} (h : Pulled fb edges start deltaX deltaY window) :
    Anchored edges start window := by
  obtain ⟨⟨hinX, hwholeX⟩, hinY, hwholeY⟩ := placed_axes hp
  obtain ⟨-, hleft, hright⟩ := resized_anchored (columnAxis_fair hr) hinX hwholeX hone.1 deltaX
  obtain ⟨-, htop, hbottom⟩ := resized_anchored (rowAxis_fair hr) hinY hwholeY hone.2 deltaY
  have hcolumns := resized_steps (columnAxis_fair hr) hinX hwholeX hone.1 deltaX
  have hrows := resized_steps (rowAxis_fair hr) hinY hwholeY hone.2 deltaY
  have hx := congrArg Prod.fst h.column
  have hwidth := congrArg Prod.snd h.column
  have hy := congrArg Prod.fst h.row
  have hheight := congrArg Prod.snd h.row
  simp only [Prod.map_fst, Prod.map_snd, id] at hx hwidth hy hheight
  rw [← hx] at hleft
  rw [← hx, ← hwidth] at hright hcolumns
  rw [← hy] at htop
  rw [← hy, ← hheight] at hbottom hrows
  exact ⟨fun hfree => congrArg UInt32.toNat (hleft hfree), hright,
    fun hfree => congrArg UInt32.toNat (htop hfree), hbottom, hcolumns, hrows⟩

theorem Pulled.ordered (hr : Roomy fb) (hp : Placed fb start) (hone : OneWay edges)
    {grip c c' : UInt32 × UInt32} (hc : c.1.toNat < 2 ^ 31 ∧ c.2.toNat < 2 ^ 31)
    (hc' : c'.1.toNat < 2 ^ 31 ∧ c'.2.toNat < 2 ^ 31)
    (h : Pulled fb edges start (int32 c.1 - int32 grip.1) (int32 c.2 - int32 grip.2) window)
    (h' : Pulled fb edges start (int32 c'.1 - int32 grip.1) (int32 c'.2 - int32 grip.2)
      window') : Ordered edges c c' window window' := by
  obtain ⟨⟨hinX, hwholeX⟩, hinY, hwholeY⟩ := placed_axes hp
  have hdelta : ∀ {v v' : UInt32}, v.toNat < 2 ^ 31 → v'.toNat < 2 ^ 31 → v ≤ v' →
      ∀ g, int32 v - g ≤ int32 v' - g := by
    intro v v' hv hv' hle g
    have hle := UInt32.le_iff_toNat_le.mp hle
    rw [int32_of_lt hv, int32_of_lt hv']
    omega
  have hcolumn := fun hle => resized_ordered (columnAxis_fair hr) hinX hwholeX hone.1
    (hdelta hc.1 hc'.1 hle (int32 grip.1))
  have hrow := fun hle => resized_ordered (rowAxis_fair hr) hinY hwholeY hone.2
    (hdelta hc.2 hc'.2 hle (int32 grip.2))
  have hx := congrArg Prod.fst h.column
  have hwidth := congrArg Prod.snd h.column
  have hy := congrArg Prod.fst h.row
  have hheight := congrArg Prod.snd h.row
  have hx' := congrArg Prod.fst h'.column
  have hwidth' := congrArg Prod.snd h'.column
  have hy' := congrArg Prod.fst h'.row
  have hheight' := congrArg Prod.snd h'.row
  simp only [Prod.map_fst, Prod.map_snd, id] at hx hwidth hy hheight hx' hwidth' hy' hheight'
  rw [← hx, ← hwidth, ← hx', ← hwidth'] at hcolumn
  rw [← hy, ← hheight, ← hy', ← hheight'] at hrow
  exact ⟨fun hheld hle => (hcolumn hle).1 hheld, fun hheld hle => (hcolumn hle).2 hheld,
    fun hheld hle => (hrow hle).1 hheld, fun hheld hle => (hrow hle).2 hheld⟩

/-- The window is held all through a run, and where it is depends on the last
position only. -/
theorem resizeRun_held (hr : Roomy fb) (hp : Placed fb start) (hone : OneWay edges)
    {grip : UInt32 × UInt32} : ∀ (cs : List (UInt32 × UInt32)) {w : WindowState},
      Held w slot edges start grip → Held (resizeRun fb w cs) slot edges start grip
  | [], _, h => h
  | c :: cs, _, h => resizeRun_held hr hp hone cs (updateResize_held hr hp hone h c).1

theorem resizeRun_pulled (hr : Roomy fb) (hp : Placed fb start) (hone : OneWay edges)
    {grip : UInt32 × UInt32} (h : Held w slot edges start grip) (cs : List (UInt32 × UInt32))
    (c : UInt32 × UInt32) :
    Pulled fb edges start (int32 c.1 - int32 grip.1) (int32 c.2 - int32 grip.2)
      ((resizeRun fb w (cs ++ [c])).windows slot) := by
  have hrun : resizeRun fb w (cs ++ [c]) = (updateResize fb (resizeRun fb w cs) c.1 c.2).2 := by
    rw [resizeRun, List.foldl_append]
    rfl
  rw [hrun]
  exact (updateResize_held hr hp hone (resizeRun_held hr hp hone cs h) c).2

theorem Near.sumsFit {x y : UInt32} (h : Near start edges x y) (hwidth : fb.width.toNat ≤ 2 ^ 31 - 12)
    (hheight : fb.height.toNat ≤ 2 ^ 31 - 12) {c : UInt32 × UInt32} (hc : Seen fb c) :
    SumsFit edges start (x, y) c := by
  have hcx := UInt32.lt_iff_toNat_lt.mp hc.1
  have hcy := UInt32.lt_iff_toNat_lt.mp hc.2
  obtain ⟨⟨hx, hx'⟩, ⟨hy, hy'⟩, hleft, hright, htop, hbottom⟩ := h
  refine ⟨fun hheld => ?_, fun hheld => ?_, fun hheld => ?_, fun hheld => ?_⟩
  · have hnear := hleft hheld
    rw [leftEdge] at hnear ⊢
    refine ⟨?_, ?_⟩ <;> dsimp only <;> omega
  · have hnear := hright hheld
    refine ⟨?_, ?_⟩ <;> dsimp only <;> omega
  · have hnear := htop hheld
    rw [topEdge] at hnear ⊢
    refine ⟨?_, ?_⟩ <;> dsimp only <;> omega
  · have hnear := hbottom hheld
    refine ⟨?_, ?_⟩ <;> dsimp only <;> omega

/-- **Resizing keeps the opposite edges**, on a screen whose sums fit an `int32_t`:
whatever edges a position hits, and wherever the cursor goes from there, the other
edges stay, and the edges that are held move with the cursor by whole cells. -/
theorem resize_keeps_opposite_edges (hr : Roomy fb) (hwidth : fb.width.toNat ≤ 2 ^ 31 - 12)
    (hheight : fb.height.toNat ≤ 2 ^ 31 - 12) {x y : UInt32}
    (hslot : (hitTestWindow fb w x y).slot = slot)
    (hedges : (hitTestWindow fb w x y).resizeEdges = edges)
    (hp : Placed fb (w.windows slot)) :
    (∀ cs, (∀ c ∈ cs, Seen fb c) → Anchored edges (w.windows slot)
      ((resizeRun fb (beginResize w slot edges x y) cs).windows slot)) ∧
    (∀ cs c cs' c', (∀ v ∈ cs ++ [c], Seen fb v) → (∀ v ∈ cs' ++ [c'], Seen fb v) →
      Ordered edges c c' ((resizeRun fb (beginResize w slot edges x y) (cs ++ [c])).windows slot)
        ((resizeRun fb (beginResize w slot edges x y) (cs' ++ [c'])).windows slot)) ∧
    ∀ c, Seen fb c → SumsFit edges (w.windows slot) (x, y) c := by
  obtain ⟨hready, i, hv, htest⟩ := hitTestWindow_hit (by rw [hslot]; exact Int.natCast_nonneg slot)
  obtain rfl : i = slot := by
    have hi := (testWindow_some htest).2.2.2.2
    omega
  have hnear := testWindow_near htest
  rw [hedges] at hnear
  have hone := hnear.oneWay hr hp
  have hheld : Held (beginResize w i edges x y) i edges (w.windows i) (x, y) := by
    rw [beginResize, if_pos hv]
    exact ⟨rfl, hv, hready⟩
  have hseen : ∀ {c}, Seen fb c → c.1.toNat < 2 ^ 31 ∧ c.2.toNat < 2 ^ 31 := by
    intro c hc
    have hcx := UInt32.lt_iff_toNat_lt.mp hc.1
    have hcy := UInt32.lt_iff_toNat_lt.mp hc.2
    omega
  refine ⟨fun cs _ => ?_, fun cs c cs' c' hcs hcs' => ?_, fun c => hnear.sumsFit hwidth hheight⟩
  · rcases List.eq_nil_or_concat' cs with rfl | ⟨cs, c, rfl⟩
    · have hsame : ((resizeRun fb (beginResize w i edges x y) []).windows i) = w.windows i := by
        rw [resizeRun, List.foldl_nil, beginResize, if_pos hv]
      rw [hsame]
      exact ⟨fun _ => rfl, fun _ => rfl, fun _ => rfl, fun _ => rfl, by simp, by simp⟩
    · exact (resizeRun_pulled hr hp hone hheld cs c).anchored hr hp hone
  · exact (resizeRun_pulled hr hp hone hheld cs c).ordered hr hp hone
      (hseen (hcs c (by simp))) (hseen (hcs' c' (by simp)))
      (resizeRun_pulled hr hp hone hheld cs' c')

end

/-- The window of the first process, taken at the middle of its right edge, goes down
to the corner. -/
theorem resize_keeps_opposite_edges_boot :
    Anchored resizeEdgeRight ((init ⟨true, 1024, 768⟩ bootWindows 0x1000).windows 0)
      ((resizeRun ⟨true, 1024, 768⟩ (beginResize (init ⟨true, 1024, 768⟩ bootWindows 0x1000) 0
        resizeEdgeRight 707 272) [(300, 400), (1023, 767)]).windows 0) := by
  refine (resize_keeps_opposite_edges ⟨rfl, by decide, by decide, by decide, by decide⟩
    (by decide) (by decide) (by decide) (by decide) ?_).1 _ ?_
  · exact ⟨⟨⟨by decide, by decide⟩, ⟨by decide, by decide⟩, by decide, by decide⟩, by decide,
      by decide, by decide, by decide⟩
  · exact List.forall_mem_cons.mpr ⟨⟨by decide, by decide⟩, List.forall_mem_cons.mpr
      ⟨⟨by decide, by decide⟩, fun c h => by cases h⟩⟩

/-- **The opposite edge moves on a screen that no `int32_t` holds**, under a cursor that
does not move; and on one that barely fits, the sum for the right edge overflows. -/
theorem resize_moves_left_edge :
    let wide : FrameBuffer := ⟨true, 4294967295, 1000⟩
    let w := init wide bootWindows 0x1000
    let full : FrameBuffer := ⟨true, 2147483637, 1000⟩
    let v := setActiveWindowOrigin full (init full bootWindows 0x1000) 0x1000 2147483647 100
    (Placed wide (w.windows 0) ∧
      hitTestWindow wide w 707 272 = ⟨0, false, false, 667, 200, resizeEdgeRight⟩ ∧
      leftEdge (w.windows 0) = 40 ∧
      leftEdge ((resizeRun wide (beginResize w 0 resizeEdgeRight 707 272) [(707, 272)]).windows 0) =
        0) ∧
    Placed full (v.windows 0) ∧
      hitTestWindow full v 2147483625 300 = ⟨0, false, false, 656, 226, resizeEdgeRight⟩ ∧
      ¬ SumsFit resizeEdgeRight (v.windows 0) (2147483625, 300) (2147483636, 300) := by
  refine ⟨⟨?_, by decide, by decide, by decide⟩, ?_, by decide, fun h => ?_⟩
  · exact ⟨⟨⟨by decide, by decide⟩, ⟨by decide, by decide⟩, by decide, by decide⟩, by decide,
      by decide, by decide, by decide⟩
  · exact ⟨⟨⟨by decide, by decide⟩, ⟨by decide, by decide⟩, by decide, by decide⟩, by decide,
      by decide, by decide, by decide⟩
  · exact absurd (h.right (by decide)).2 (by decide)

end ContinuumOS.Gui.EdgeDrag
