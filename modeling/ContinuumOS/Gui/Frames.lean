import ContinuumOS.Gui.Consistency
import ContinuumOS.Gui.Resizing

/-! # Windows stay on the screen

The frame of a window changes in four places: where the window is made, moved by
its process, dragged and resized. All of them clamp it to the screen. The rest of
the window manager leaves the frames, and what a drag or a resize started with. -/
namespace ContinuumOS.Gui.Frames
open ContinuumOS.Gui.TextGrid ContinuumOS.Gui.Geometry ContinuumOS.Gui.Windows
open ContinuumOS.Gui.Desktop ContinuumOS.Gui.Stacking ContinuumOS.Gui.Consistency
open ContinuumOS.Gui.Resizing ContinuumOS.Lib.Runs
open ContinuumOS.Sched.Delivery (Kernel MouseEvent booted)

/-- A screen with room for the largest window, whose coordinates fit an `int32_t`. -/
structure Roomy (fb : FrameBuffer) : Prop where
  available : fb.available = true
  width : 668 ≤ fb.width.toNat
  height : 440 ≤ fb.height.toNat
  left : fb.width.toNat < 2 ^ 31
  top : fb.height.toNat < 2 ^ 31

/-- A window of legal dimensions inside the screen. -/
structure Placed (fb : FrameBuffer) (window : Window) : Prop where
  legal : Legal window
  contentWidth : window.contentWidth = window.visibleColumns * fontWidth
  contentHeight : window.contentHeight = window.visibleRows * fontHeight
  right : window.frameX.toNat + window.frameWidth.toNat ≤ fb.width.toNat
  bottom : window.frameY.toNat + window.frameHeight.toNat ≤ fb.height.toNat

/-- The offsets of the contents in a frame are set when they are used. -/
def Geared (w : WindowState) : Prop := w.geometryReady = true →
  w.contentOffsetX = frameBorder + contentPaddingX ∧
    w.contentOffsetY = frameBorder + titleBarHeight

/-- What is invariant about frames. A drag holds the window at a place of its
frame, and a resize starts with a frame inside the screen. `geared` says that the
offsets were sound at the start. -/
structure Framed (fb : FrameBuffer) (geared : Prop) (w : WindowState) : Prop where
  windows : ∀ slot, windowSlotValid w slot = true → Placed fb (w.windows slot)
  drag : w.drag.draggingWindow = true → 0 ≤ w.drag.dragOffsetX ∧ 0 ≤ w.drag.dragOffsetY
  resize : w.resize.resizingWindow = true →
    Inside (columnAxis fb) ⟨w.resize.startFrameX, w.resize.startFrameWidth⟩ ∧
    Inside (rowAxis fb) ⟨w.resize.startFrameY, w.resize.startFrameHeight⟩
  offsets : geared → Geared w

/-- `test_slot` of `hit_test_window`. -/
def testSlot (w : WindowState) (x y : UInt32) (slot : Nat) : Option WindowHitResult :=
  if windowSlotValid w slot then testWindow (w.windows slot) slot x y else none

/-- The order in which windows are tested: the active one, then the others from
the top. -/
def hitOrder (w : WindowState) : List Nat :=
  (if 0 ≤ w.activeSlot then [w.activeSlot.toNat] else []) ++
    (stack w).reverse.filter fun slot : Nat => !decide ((slot : Int) = w.activeSlot)

/-- A window without what is shown in it. -/
def bare (window : Window) : Window :=
  { window with owner := 0, snapshot := .zero, dirty := makeEmptyDirtyRegion }

/-- The frames and the modes are the same. -/
structure SameFrames (w w' : WindowState) : Prop where
  windows : ∀ i, bare (w'.windows i) = bare (w.windows i)
  drag : w'.drag = w.drag
  resize : w'.resize = w.resize
  offsets : Geared w → Geared w'

section

variable {fb : FrameBuffer} {geared : Prop} {w w' w'' : WindowState} {slot : Nat}
  {d : GuiState}

/-! ## Frames on a screen -/

theorem columnAxis_fair (h : Roomy fb) : Fair (columnAxis fb) :=
  ⟨h.left, (by decide : 0 < fontWidth.toNat), (by decide : 0 < minVisibleColumns.toNat),
    (by decide : minVisibleColumns.toNat ≤ (UInt32.ofNat vgaWidth).toNat), h.width⟩

theorem rowAxis_fair (h : Roomy fb) : Fair (rowAxis fb) :=
  ⟨h.top, (by decide : 0 < fontHeight.toNat), (by decide : 0 < minVisibleRows.toNat),
    (by decide : minVisibleRows.toNat ≤ (UInt32.ofNat vgaHeight).toNat), h.height⟩

theorem Roomy.sizes (h : Roomy fb) {window : Window} (hl : Legal window) :
    window.frameWidth.toNat ≤ fb.width.toNat ∧ window.frameHeight.toNat ≤ fb.height.toNat := by
  obtain ⟨-, hwidth⟩ := (columnAxis_fair h).frameSize_toNat hl.columns.2
  obtain ⟨-, hheight⟩ := (rowAxis_fair h).frameSize_toNat hl.rows.2
  rw [hl.width, hl.height]
  exact ⟨hwidth, hheight⟩

theorem Roomy.geometry (hr : Roomy fb) (w : WindowState) :
    (ensureGeometry fb w).geometryReady = true := by
  rw [ensureGeometry, hr.available, Bool.not_true, Bool.or_false]
  split
  · assumption
  · rfl

/-- **A clamped frame lies inside the screen**, where its place did not wrap. -/
theorem placed_clamped (h : Roomy fb) {window : Window} (hl : Legal window)
    (hwidth : window.contentWidth = window.visibleColumns * fontWidth)
    (hheight : window.contentHeight = window.visibleRows * fontHeight) {x y : UInt32}
    (hx : x.toNat < 2 ^ 31) (hy : y.toNat < 2 ^ 31) (ready : Bool) :
    Placed fb { window with
      frameX := (clampFrame fb ready x y window.frameWidth window.frameHeight).1
      frameY := (clampFrame fb ready x y window.frameWidth window.frameHeight).2 } := by
  obtain ⟨hw, hh⟩ := h.sizes hl
  have hleft := h.left
  have htop := h.top
  have hsize : UInt32.size = 2 ^ 32 := rfl
  rw [clampFrame, h.available]
  cases ready with
  | false =>
    refine ⟨⟨hl.columns, hl.rows, hl.width, hl.height⟩, hwidth, hheight, ?_, ?_⟩
    · exact (Nat.zero_add _).trans_le hw
    · exact (Nat.zero_add _).trans_le hh
  | true =>
    refine ⟨⟨hl.columns, hl.rows, hl.width, hl.height⟩, hwidth, hheight, ?_, ?_⟩
    · exact clampAxis_fits (UInt32.le_iff_toNat_le.mpr hw) (by omega)
    · exact clampAxis_fits (UInt32.le_iff_toNat_le.mpr hh) (by omega)

/-! ## What most functions leave alone -/

theorem SameFrames.refl (w : WindowState) : SameFrames w w := ⟨fun _ => rfl, rfl, rfl, fun h => h⟩

theorem SameFrames.trans (h : SameFrames w w') (h' : SameFrames w' w'') : SameFrames w w'' :=
  ⟨fun i => (h'.windows i).trans (h.windows i), h'.drag.trans h.drag, h'.resize.trans h.resize,
    fun ho => h'.offsets (h.offsets ho)⟩

theorem SameFrames.valid (h : SameFrames w w') : windowSlotValid w' = windowSlotValid w := by
  funext i
  rw [windowSlotValid, windowSlotValid]
  have hbare := congrArg Window.inUse (h.windows i)
  have hinUse : (w'.windows i).inUse = (w.windows i).inUse := hbare
  rw [hinUse]

theorem Placed.same {window window' : Window} (h : Placed fb window)
    (hb : bare window' = bare window) : Placed fb window' := by
  have hplaced : Placed fb (bare window) := ⟨⟨h.legal.columns, h.legal.rows, h.legal.width,
    h.legal.height⟩, h.contentWidth, h.contentHeight, h.right, h.bottom⟩
  rw [← hb] at hplaced
  exact ⟨⟨hplaced.legal.columns, hplaced.legal.rows, hplaced.legal.width, hplaced.legal.height⟩,
    hplaced.contentWidth, hplaced.contentHeight, hplaced.right, hplaced.bottom⟩

theorem Framed.same (h : Framed fb geared w) (hs : SameFrames w w') : Framed fb geared w' := by
  refine ⟨fun slot hv => ?_, ?_, ?_, fun hg => hs.offsets (h.offsets hg)⟩
  · rw [hs.valid] at hv
    exact (h.windows slot hv).same (hs.windows slot)
  · rw [hs.drag]
    exact h.drag
  · rw [hs.resize]
    exact h.resize

theorem same_setWindow (w : WindowState) (slot : Nat) {window : Window}
    (hb : bare window = bare (w.windows slot)) : SameFrames w (setWindow w slot window) := by
  refine ⟨fun i => ?_, rfl, rfl, fun h => h⟩
  by_cases hi : i = slot
  · rw [hi, setWindow_self, hb]
  · rw [setWindow_of_ne w window hi]

theorem same_ensureGeometry (fb : FrameBuffer) (w : WindowState) :
    SameFrames w (ensureGeometry fb w) := by
  rw [ensureGeometry]
  split
  · exact .refl w
  · exact ⟨fun _ => rfl, rfl, rfl, fun _ _ => ⟨rfl, rfl⟩⟩

theorem same_buildBlankSnapshot (w : WindowState) : SameFrames w (buildBlankSnapshot w) := by
  rw [buildBlankSnapshot]
  split
  · exact .refl w
  · exact ⟨fun _ => rfl, rfl, rfl, fun h => h⟩

theorem same_prepare (fb : FrameBuffer) (w : WindowState) :
    SameFrames w (buildBlankSnapshot (ensureGeometry fb w)) :=
  (same_ensureGeometry fb w).trans (same_buildBlankSnapshot _)

theorem same_renderWindow (w : WindowState) (slot : Nat) : SameFrames w (renderWindow w slot) :=
  same_setWindow w slot rfl

theorem same_renderInactive (w : WindowState) (i : Nat) : SameFrames w (renderInactive w i) := by
  simp only [renderInactive]
  split
  · exact .refl w
  · exact same_renderWindow w _

theorem same_foldl {f : WindowState → Nat → WindowState} (h : ∀ w i, SameFrames w (f w i))
    (l : List Nat) : ∀ w, SameFrames w (l.foldl f w) := by
  induction l with
  | nil => exact SameFrames.refl
  | cons i l ih => exact fun w => (h w i).trans (ih _)

theorem same_drawWindows (fb : FrameBuffer) (w : WindowState) :
    SameFrames w (drawWindows fb w) := by
  rw [drawWindows]
  split
  · exact .refl w
  refine (same_ensureGeometry fb w).trans ?_
  refine (same_foldl same_renderInactive (List.range (ensureGeometry fb w).zCount) _).trans ?_
  dsimp only
  split
  · exact same_renderWindow _ _
  · exact .refl _

theorem drawWindows_ready {w : WindowState}
    (h : w.geometryReady = true ∨ fb.available = true ∧ w.zCount ≠ 0) :
    (drawWindows fb w).geometryReady = true := by
  have hrender : ∀ (l : List Nat) (w : WindowState), w.geometryReady = true →
      (l.foldl renderInactive w).geometryReady = true := by
    intro l
    induction l with
    | nil => exact fun w h => h
    | cons i l ih =>
      intro w h
      refine ih _ ?_
      simp only [renderInactive]
      split
      · exact h
      · exact h
  have hensured : (ensureGeometry fb w).geometryReady = true := by
    rw [ensureGeometry]
    split
    · rename_i hready
      rcases h with h | ⟨havailable, -⟩
      · exact h
      · rw [havailable, Bool.not_true, Bool.or_false] at hready
        exact hready
    · rfl
  rw [drawWindows]
  split
  · rename_i hnothing
    rcases h with h | ⟨havailable, hz⟩
    · exact h
    · rw [havailable, Bool.not_true, Bool.false_or, beq_iff_eq] at hnothing
      exact absurd hnothing hz
  dsimp only
  split
  · exact hrender _ _ hensured
  · exact hrender _ _ hensured

theorem same_drawWorkspace (fb : FrameBuffer) (w : WindowState) :
    SameFrames w (drawWorkspace fb w) := by
  rw [drawWorkspace]
  split
  · exact same_drawWindows fb w
  · exact .refl w

theorem same_windowPresent (w : WindowState) (proc : UInt32) :
    SameFrames w (windowPresent w proc) := by
  rw [windowPresent]
  split
  · exact .refl w
  rw [presentWindowSlot]
  split
  · exact same_renderWindow w _
  · exact .refl w

theorem same_windowPutChar (w : WindowState) (proc : UInt32) (x y : Nat) (ch color : UInt8) :
    SameFrames w (windowPutChar w proc x y ch color) := by
  rw [windowPutChar]
  split
  · exact .refl w
  rename_i slot _
  split
  · exact .refl w
  dsimp only
  split
  · exact .refl w
  · exact same_setWindow w slot rfl

theorem same_windowSetCursor (w : WindowState) (proc : UInt32) (row column : Nat) (active : Bool) :
    SameFrames w (windowSetCursor w proc row column active) := by
  rw [windowSetCursor]
  split
  · exact .refl w
  · rename_i slot _
    exact same_setWindow w slot rfl

theorem same_pushSlotToTop (w : WindowState) (slot : Nat) (active : Int) :
    SameFrames w { pushSlotToTop w slot with activeSlot := active } := by
  rw [pushSlotToTop]
  split
  · exact ⟨fun _ => rfl, rfl, rfl, fun h => h⟩
  split
  · split
    · exact ⟨fun _ => rfl, rfl, rfl, fun h => h⟩
    · exact ⟨fun _ => rfl, rfl, rfl, fun h => h⟩
  · exact ⟨fun _ => rfl, rfl, rfl, fun h => h⟩

theorem same_focusWindow (fb : FrameBuffer) (w : WindowState) (slot : Nat) :
    SameFrames w (focusWindow fb w slot) := by
  cases hv : windowSlotValid w slot with
  | false =>
    rw [focusWindow, hv]
    exact .refl w
  | true =>
    rw [focusWindow_eq fb hv]
    refine (same_ensureGeometry fb w).trans ?_
    generalize ensureGeometry fb w = v
    dsimp only
    split
    · split
      · exact (same_pushSlotToTop v slot slot).trans (same_drawWindows fb _)
      · exact same_pushSlotToTop v slot slot
    · exact .refl v

theorem same_activateProcess (fb : FrameBuffer) (w : WindowState) (proc : UInt32) :
    SameFrames w (activateProcess fb w proc) := by
  rw [activateProcess]
  split
  · exact .refl w
  refine (same_prepare fb w).trans ?_
  dsimp only
  split
  · exact .refl _
  · exact same_focusWindow fb _ _

/-! ## Windows made, closed and moved -/

theorem framed_setWindow (h : Framed fb geared w) {window : Window}
    (hw : window.inUse = true → Placed fb window) : Framed fb geared (setWindow w slot window) := by
  refine ⟨fun i hv => ?_, h.drag, h.resize, h.offsets⟩
  by_cases hi : i = slot
  · rw [hi, setWindow_self]
    rw [hi] at hv
    have hinUse := (Bool.and_eq_true_iff.mp hv).2
    rw [setWindow_self] at hinUse
    exact hw hinUse
  · rw [setWindow_of_ne w window hi]
    refine h.windows i ?_
    rw [windowSlotValid, setWindow_of_ne w window hi] at hv
    exact hv

theorem Framed.stacked (h : Framed fb geared w) (count zCount : Nat) (order : List Nat) (active : Int) :
    Framed fb geared { w with
      windowCount := count, zCount := zCount, zOrder := order, activeSlot := active } :=
  ⟨h.windows, h.drag, h.resize, h.offsets⟩

theorem Framed.stopDragging (h : Framed fb geared w) : Framed fb geared (stopDragging w) :=
  ⟨h.windows, fun hon => absurd hon Bool.false_ne_true, h.resize, h.offsets⟩

theorem Framed.stopResizing (h : Framed fb geared w) : Framed fb geared (stopResizing w) :=
  ⟨h.windows, h.drag, fun hon => absurd hon Bool.false_ne_true, h.offsets⟩

theorem Framed.stopModes (h : Framed fb geared w) (slot : Nat) : Framed fb geared (stopModes w slot) := by
  simp only [Windows.stopModes]
  split
  · split
    · exact h.stopDragging.stopResizing
    · exact h.stopDragging
  · split
    · exact h.stopResizing
    · exact h

theorem closeWindowSlot_framed (h : Framed fb geared w) (slot : Nat) :
    Framed fb geared (closeWindowSlot fb w slot) := by
  rw [closeWindowSlot]
  split
  swap
  · exact h
  have hremoved : Framed fb geared (removeSlotFromStack (stopModes w slot) slot) := by
    rw [removeSlotFromStack]
    split
    · exact h.stopModes slot
    · exact (h.stopModes slot).stacked _ _ _ _
  generalize removeSlotFromStack (stopModes w slot) slot = v at hremoved
  have hreleased : Framed fb geared (releaseWindowSlot v slot) := by
    rw [releaseWindowSlot]
    split
    · exact (framed_setWindow hremoved fun hon => absurd hon Bool.false_ne_true).stacked _ _ _ _
    · exact hremoved
  exact (hreleased.stacked _ _ _ _).same (same_drawWorkspace fb _)

theorem onProcessExit_framed (h : Framed fb geared w) (proc : UInt32) :
    Framed fb geared (onProcessExit fb w proc) := by
  rw [onProcessExit]
  split
  · exact h
  split
  · exact h
  · exact closeWindowSlot_framed h _

theorem newWindow_placed (hr : Roomy fb) (hroom : w.zCount ≤ maxWindows) (proc : UInt32) (window : Window) :
    Placed fb (newWindow fb w proc window) := by
  have hcascade : ∀ base : UInt32, base.toNat ≤ 100 →
      (base + UInt32.ofNat w.zCount * 28).toNat < 2 ^ 31 := by
    intro base hbase
    have hcount : w.zCount ≤ 8 := hroom
    have hmul : (UInt32.ofNat w.zCount * 28).toNat = w.zCount * 28 := by
      rw [UInt32.toNat_mul, UInt32.toNat_ofNat_of_lt' (show w.zCount < 2 ^ 32 by omega)]
      exact Nat.mod_eq_of_lt (show w.zCount * 28 < 2 ^ 32 by omega)
    rw [UInt32.toNat_add, hmul, Nat.mod_eq_of_lt (by omega)]
    omega
  have hlegal := legal_applyVisibleDimensions
    { window with owner := proc, snapshot := w.blankSnapshot }.resetDirty
    (UInt32.ofNat vgaWidth) (UInt32.ofNat vgaHeight)
  have hplaced := placed_clamped hr hlegal rfl rfl (hcascade initialFrameX (by decide))
    (hcascade initialFrameY (by decide)) w.geometryReady
  exact hplaced

theorem requestNewWindow_framed (hr : Roomy fb) (hc : Consistent w) (h : Framed fb geared w)
    (proc : UInt32) : Framed fb geared (requestNewWindow fb w proc) := by
  rw [requestNewWindow, if_pos hr.available]
  have hroom := (hc.keeps (keeps_prepare fb w)).room
  have hp := h.same (same_prepare fb w)
  generalize buildBlankSnapshot (ensureGeometry fb w) = v at hp hroom
  cases hfind : findWindowIndex v proc with
  | some existing =>
    simp only [hfind]
    split
    · exact hp.same (same_activateProcess fb v proc)
    · exact hp.same ((same_focusWindow fb v existing).trans (same_drawWindows fb _))
  | none =>
    simp only [hfind]
    split
    · exact hp
    cases halloc : allocateWindowSlot v with
    | mk found v' =>
      cases found with
      | none =>
        rw [allocateWindowSlot] at halloc
        split at halloc
        · exact (Prod.mk.inj halloc).2 ▸ hp
        · cases congrArg Prod.fst halloc
      | some slot =>
        obtain ⟨hlt, hfree, hv'⟩ := allocateWindowSlot_some halloc
        have hroom' : v'.zCount ≤ maxWindows := by
          rw [hv']
          exact hroom
        have hplaced := newWindow_placed hr hroom' proc (v'.windows slot)
        dsimp only
        generalize newWindow fb v' proc (v'.windows slot) = window at hplaced
        have hset : setWindow v' slot window =
            { setWindow v slot window with windowCount := v.windowCount + 1 } := by
          rw [hv']
          simp only [setWindow, Function.update_idem]
        rw [hset]
        refine Framed.same ?_ (same_focusWindow fb _ slot)
        exact (framed_setWindow hp fun _ => hplaced).stacked _ _ _ _

theorem findWindowIndex_some {proc : UInt32} (h : findWindowIndex w proc = some slot) :
    windowSlotValid w slot = true ∧ (w.windows slot).owner = proc := by
  rw [findWindowIndex] at h
  split at h
  · cases h
  · have hfound := List.find?_some h
    obtain ⟨hvalid, howner⟩ := Bool.and_eq_true_iff.mp hfound
    exact ⟨hvalid, beq_iff_eq.mp howner⟩

theorem setActiveWindowOrigin_framed (hr : Roomy fb) (h : Framed fb geared w) (proc : UInt32) {x y : Int}
    (hx : x < 2 ^ 31) (hy : y < 2 ^ 31) : Framed fb geared (setActiveWindowOrigin fb w proc x y) := by
  rw [setActiveWindowOrigin]
  split
  · exact h
  have hp := h.same (same_ensureGeometry fb w)
  generalize ensureGeometry fb w = v at hp
  dsimp only
  split
  · exact hp
  rename_i slot hfind
  have hplace : ∀ (i : Int) (offset : UInt32), i < 2 ^ 31 →
      (if offset < (if i < 0 then 0 else UInt32.ofInt i)
        then (if i < 0 then 0 else UInt32.ofInt i) - offset else 0).toNat < 2 ^ 31 := by
    intro i offset hi
    have hdesired : (if i < 0 then 0 else UInt32.ofInt i).toNat < 2 ^ 31 := by
      split
      · decide
      · have hvalue := @toNat_ofInt i (by omega) (by omega)
        omega
    generalize (if i < 0 then 0 else UInt32.ofInt i) = desired at hdesired
    split
    · rename_i hlt
      rw [UInt32.toNat_sub_of_le _ _ (UInt32.le_of_lt hlt)]
      omega
    · decide
  have hvalid := (findWindowIndex_some hfind).1
  obtain ⟨hlegal, hwidth, hheight, -, -⟩ := hp.windows slot hvalid
  have hplaced := placed_clamped hr hlegal hwidth hheight (hplace x v.contentOffsetX hx)
    (hplace y v.contentOffsetY hy) v.geometryReady
  exact (framed_setWindow hp fun _ => hplaced).same (same_drawWindows fb _)

/-! ## The mouse -/

theorem testWindow_some {window : Window} {x y : UInt32} {hit : WindowHitResult}
    (h : testWindow window slot x y = some hit) :
    window.frameX ≤ x ∧ window.frameY ≤ y ∧ x - window.frameX < window.frameWidth ∧
      y - window.frameY < window.frameHeight ∧ hit.slot = slot := by
  rw [testWindow] at h
  split at h
  · cases h
  rename_i hbefore
  obtain ⟨hleft, htop⟩ := not_or.mp hbefore
  dsimp only at h
  split at h
  · cases h
  rename_i hbehind
  obtain ⟨hright, hbottom⟩ := not_or.mp hbehind
  refine ⟨UInt32.not_lt.mp hleft, UInt32.not_lt.mp htop, UInt32.not_le.mp hright,
    UInt32.not_le.mp hbottom, ?_⟩
  split at h
  · exact (Option.some.inj h) ▸ rfl
  split at h
  · exact (Option.some.inj h) ▸ rfl
  · exact (Option.some.inj h) ▸ rfl

theorem findSome?_skip {α β : Type} (p : α → Bool) (f : α → Option β) : ∀ l : List α,
    l.findSome? (fun a => if p a = true then none else f a) =
      (l.filter fun a => !p a).findSome? f
  | [] => rfl
  | a :: l => by
    rw [List.findSome?_cons, findSome?_skip p f l]
    cases hp : p a with
    | true =>
      rw [List.filter_cons_of_neg (by rw [hp]; decide), if_pos rfl]
    | false =>
      rw [List.filter_cons_of_pos (by rw [hp]; rfl), if_neg Bool.false_ne_true,
        List.findSome?_cons]

theorem stack_eq_map (hroom : w.zCount ≤ w.zOrder.length) :
    stack w = (List.range w.zCount).map fun i => w.zOrder.getD i 0 := by
  refine List.ext_getElem ?_ fun i h₁ h₂ => ?_
  · rw [stack, List.length_take, List.length_map, List.length_range]
    omega
  · rw [List.length_map, List.length_range] at h₂
    simp only [stack, List.getElem_take, List.getElem_map, List.getElem_range]
    rw [List.getD_eq_getElem]

/-- **The windows are tested in this order**, and the first that is hit counts. -/
theorem hitTestWindow_eq (hc : Consistent w) (havailable : fb.available = true)
    (hready : w.geometryReady = true) (x y : UInt32) :
    hitTestWindow fb w x y = ((hitOrder w).findSome? (testSlot w x y)).getD .none := by
  have hactive := hc.active
  rw [hitTestWindow, havailable, hready]
  dsimp only
  by_cases hz : w.zCount = 0
  · rw [if_pos hz] at hactive
    rw [hitOrder, hactive, stack, hz]
    rfl
  rw [if_neg (by simpa using hz)]
  have hskip := findSome?_skip (fun slot : Nat => decide ((slot : Int) = w.activeSlot))
    (testSlot w x y) (stack w).reverse
  simp only [decide_eq_true_eq] at hskip
  rw [hitOrder, List.findSome?_append, ← hskip, stack_eq_map (hc.array ▸ hc.room),
    ← List.map_reverse, List.findSome?_map]
  -- the active window first
  have hfirst : (if 0 ≤ w.activeSlot then
      if windowSlotValid w w.activeSlot.toNat = true then
        testWindow (w.windows w.activeSlot.toNat) w.activeSlot.toNat x y else none else none) =
      (if 0 ≤ w.activeSlot then [w.activeSlot.toNat] else []).findSome? (testSlot w x y) := by
    split
    · rw [List.findSome?_singleton]
      rfl
    · rfl
  rw [hfirst]
  cases (if 0 ≤ w.activeSlot then [w.activeSlot.toNat] else []).findSome? (testSlot w x y) with
  | none => rfl
  | some result => rfl

theorem hitTestWindow_hit {x y : UInt32} (h : 0 ≤ (hitTestWindow fb w x y).slot) :
    w.geometryReady = true ∧ ∃ slot, windowSlotValid w slot = true ∧
      testWindow (w.windows slot) slot x y = some (hitTestWindow fb w x y) := by
  have hnone : ¬ (0 : Int) ≤ WindowHitResult.none.slot := by decide
  have htest : ∀ {slot : Nat} {hit : WindowHitResult},
      (if windowSlotValid w slot = true then testWindow (w.windows slot) slot x y else none) =
        some hit →
      ∃ slot, windowSlotValid w slot = true ∧ testWindow (w.windows slot) slot x y = some hit := by
    intro slot hit hsome
    split at hsome
    · rename_i hv
      exact ⟨slot, hv, hsome⟩
    · cases hsome
  rw [hitTestWindow] at h ⊢
  dsimp only at h ⊢
  split at h
  · exact absurd h hnone
  rename_i hready
  rw [if_neg hready]
  simp only [Bool.or_eq_true, Bool.not_eq_true', not_or, Bool.not_eq_false] at hready
  refine ⟨hready.1.2, ?_⟩
  generalize hactive : (if 0 ≤ w.activeSlot then
    if windowSlotValid w w.activeSlot.toNat = true then
      testWindow (w.windows w.activeSlot.toNat) w.activeSlot.toNat x y else none else none) =
    onActive at h ⊢
  cases onActive with
  | some result =>
    split at hactive
    · exact htest hactive
    · cases hactive
  | none =>
    dsimp only at h ⊢
    generalize hfind : List.findSome? _ (List.range w.zCount).reverse = found at h ⊢
    cases found with
    | none => exact absurd h hnone
    | some hit =>
      obtain ⟨i, -, hsome⟩ := List.exists_of_findSome?_eq_some hfind
      split at hsome
      · cases hsome
      · exact htest hsome

theorem focusWindow_active (hready : w.geometryReady = true) (hv : windowSlotValid w slot = true) :
    (focusWindow fb w slot).activeSlot = slot := by
  have hensure : ensureGeometry fb w = w := by
    rw [ensureGeometry, hready]
    rfl
  rw [focusWindow_eq fb hv, hensure]
  dsimp only
  rw [if_pos hready]
  split
  · rw [(keeps_drawWindows fb _).activeSlot]
  · rfl

theorem activateProcess_active (hc : Consistent w) (havailable : fb.available = true)
    (hv : windowSlotValid w slot = true) (howner : (w.windows slot).owner ≠ 0) :
    (activateProcess fb w (w.windows slot).owner).activeSlot = slot := by
  have hk := keeps_prepare fb w
  have hready := prepare_ready w havailable
  have hsame := hk.slots slot
  have hc' := hc.keeps hk
  have hv' : windowSlotValid (buildBlankSnapshot (ensureGeometry fb w)) slot = true :=
    hk.slots.valid ▸ hv
  rw [activateProcess, if_neg howner]
  dsimp only
  generalize buildBlankSnapshot (ensureGeometry fb w) = v at hready hsame hc' hv'
  -- no other window has the owner
  have hfind : findWindowIndex v (w.windows slot).owner = some slot := by
    cases hfind : findWindowIndex v (w.windows slot).owner with
    | none =>
      refine absurd hsame.2 ?_
      exact owner_ne_of_none hfind hv' (hsame.2 ▸ howner)
    | some i =>
      obtain ⟨hvi, hi⟩ := findWindowIndex_some hfind
      rw [hc'.owners i slot hvi hv' (hi ▸ howner) (hi.trans hsame.2.symm)]
  rw [hfind]
  exact focusWindow_active hready hv'

/-- **Raising the window that is hit makes it the active one**, by way of its
process too. -/
theorem raiseWindow_active (hc : Consistent d.windows) (havailable : fb.available = true)
    (hready : d.windows.geometryReady = true) (hv : windowSlotValid d.windows slot = true) :
    (raiseWindow fb d slot).windows.activeSlot = slot ∧
      SameFrames d.windows (raiseWindow fb d slot).windows := by
  rw [raiseWindow]
  split
  · rename_i howner
    rw [setForeground, if_neg howner.2]
    exact ⟨activateProcess_active hc havailable hv howner.1, same_activateProcess fb _ _⟩
  · exact ⟨focusWindow_active hready hv, same_focusWindow fb _ slot⟩

theorem setForeground_framed (h : Framed fb geared d.windows) (proc : UInt32) :
    Framed fb geared (setForeground fb d proc).windows := by
  rw [setForeground]
  split
  · exact h
  · exact h.same (same_activateProcess fb _ proc)

theorem restoreForeground_framed (h : Framed fb geared d.windows) (owner : UInt32) :
    Framed fb geared (restoreForeground fb d owner).windows := by
  rw [restoreForeground]
  split
  · exact h
  · exact h.same (same_activateProcess fb _ _)

theorem killProcess_framed (h : Framed fb geared d.windows) (ptr : UInt32) :
    Framed fb geared (killProcess fb d ptr).windows := by
  rw [killProcess]
  split
  · exact h
  · refine @restoreForeground_framed fb geared ⟨_, _⟩ ?_ ptr
    exact onProcessExit_framed h ptr

theorem pressCloseButton_framed (h : Framed fb geared d.windows) (slot : Nat) :
    Framed fb geared (pressCloseButton fb d slot).windows := by
  have hstopped := h.stopDragging.stopResizing
  rw [pressCloseButton]
  dsimp only
  split
  · exact @killProcess_framed fb geared ⟨d.kernel, Windows.stopResizing (Windows.stopDragging d.windows)⟩
      hstopped _
  · exact closeWindowSlot_framed hstopped slot

theorem beginResize_framed (h : Framed fb geared w) (hv : windowSlotValid w slot = true) (edges : UInt8)
    (cursorX cursorY : UInt32) :
    Framed fb geared (beginResize (Windows.stopDragging w) slot edges cursorX cursorY) := by
  have hvalid : windowSlotValid (Windows.stopDragging w) slot = true := hv
  have hplaced := h.windows slot hv
  rw [beginResize, if_pos hvalid]
  exact ⟨h.windows, fun hon => absurd hon Bool.false_ne_true,
    fun _ => ⟨hplaced.right, hplaced.bottom⟩, h.offsets⟩

theorem startDragging_framed (h : Framed fb geared w) (hactive : w.activeSlot = slot)
    {cursorX cursorY : UInt32} (hx : (w.windows slot).frameX ≤ cursorX)
    (hy : (w.windows slot).frameY ≤ cursorY) (hxlt : cursorX.toNat < 2 ^ 31)
    (hylt : cursorY.toNat < 2 ^ 31) : Framed fb geared (startDragging w cursorX cursorY) := by
  refine ⟨h.windows, fun _ => ?_, fun hon => absurd hon Bool.false_ne_true, h.offsets⟩
  have hx := UInt32.le_iff_toNat_le.mp hx
  have hy := UInt32.le_iff_toNat_le.mp hy
  rw [startDragging, hactive]
  show 0 ≤ int32 cursorX - int32 (w.windows slot).frameX ∧
    0 ≤ int32 cursorY - int32 (w.windows slot).frameY
  rw [int32_of_lt hxlt, int32_of_lt hylt, int32_of_lt (by omega), int32_of_lt (by omega)]
  omega

theorem pressLeft_framed (hr : Roomy fb) (hc : Consistent d.windows) (h : Framed fb geared d.windows)
    (hready : d.windows.geometryReady = true) {cursorX cursorY : UInt32}
    (hx : cursorX.toNat < 2 ^ 31) (hy : cursorY.toNat < 2 ^ 31) :
    Framed fb geared (pressLeft fb d cursorX cursorY).desktop.windows := by
  have hhit := @hitTestWindow_hit fb d.windows cursorX cursorY
  rw [pressLeft]
  generalize hitTestWindow fb d.windows cursorX cursorY = hit at hhit
  dsimp only
  split
  swap
  · exact h.stopDragging.stopResizing
  rename_i hvalid
  obtain ⟨i, hi, -⟩ := validInt_iff.mp hvalid
  obtain ⟨-, slot, hv, hsome⟩ := hhit (by omega)
  obtain ⟨hleft, htop, -, -, hslot⟩ := testWindow_some hsome
  have hnat : hit.slot.toNat = slot := by omega
  obtain ⟨hactive, hsame⟩ := raiseWindow_active hc hr.available hready hv
  rw [hnat]
  have hraised := h.same hsame
  have hvraised := hsame.valid.symm ▸ hv
  have hx' := congrArg Window.frameX (hsame.windows slot)
  have hy' := congrArg Window.frameY (hsame.windows slot)
  generalize raiseWindow fb d slot = e at hactive hsame hraised hvraised hx' hy'
  split
  · exact pressCloseButton_framed hraised _
  split
  · exact beginResize_framed hraised hvraised hit.resizeEdges cursorX cursorY
  split
  · dsimp only
    split
    · refine startDragging_framed hraised hactive ?_ ?_ hx hy
      · exact Eq.trans_le hx' hleft
      · exact Eq.trans_le hy' htop
    · exact hraised.stopDragging.stopResizing
  · exact hraised

theorem resizeTarget_spec (hr : Roomy fb) (hon : w.resize.resizingWindow = true) (h : Framed fb geared w)
    (cursorX cursorY : UInt32) : ∃ x y columns rows, resizeTarget fb w cursorX cursorY =
      (clampFrame fb w.geometryReady x y (columns * fontWidth + contentPaddingWidth)
        (rows * fontHeight + contentPaddingHeight), columns, rows) ∧
      x.toNat < 2 ^ 31 ∧ y.toNat < 2 ^ 31 ∧
      (minVisibleColumns ≤ columns ∧ columns ≤ UInt32.ofNat vgaWidth) ∧
      (minVisibleRows ≤ rows ∧ rows ≤ UInt32.ofNat vgaHeight) := by
  obtain ⟨hx, hy⟩ := h.resize hon
  obtain ⟨hplaceX, hcolumns⟩ := resized_fits (columnAxis_fair hr) hx
    (hasEdge w.resize.resizeEdges resizeEdgeLeft) (hasEdge w.resize.resizeEdges resizeEdgeRight)
    (int32 cursorX - w.resize.startCursorX)
  obtain ⟨hplaceY, hrows⟩ := resized_fits (rowAxis_fair hr) hy
    (hasEdge w.resize.resizeEdges resizeEdgeTop) (hasEdge w.resize.resizeEdges resizeEdgeBottom)
    (int32 cursorY - w.resize.startCursorY)
  rw [resizeTarget]
  dsimp only
  generalize (columnAxis fb).resized (hasEdge w.resize.resizeEdges resizeEdgeLeft)
    (hasEdge w.resize.resizeEdges resizeEdgeRight) ⟨w.resize.startFrameX, w.resize.startFrameWidth⟩
    (int32 cursorX - w.resize.startCursorX) = column at *
  generalize (rowAxis fb).resized (hasEdge w.resize.resizeEdges resizeEdgeTop)
    (hasEdge w.resize.resizeEdges resizeEdgeBottom) ⟨w.resize.startFrameY,
      w.resize.startFrameHeight⟩ (int32 cursorY - w.resize.startCursorY) = row at *
  cases column with
  | mk x columns =>
    cases row with
    | mk y rows =>
      exact ⟨x, y, columns, rows, rfl, Nat.lt_of_le_of_lt hplaceX hr.left,
        Nat.lt_of_le_of_lt hplaceY hr.top, hcolumns, hrows⟩

theorem applyVisibleDimensions_eq (window : Window) {columns rows : UInt32}
    (hc : minVisibleColumns ≤ columns ∧ columns ≤ UInt32.ofNat vgaWidth)
    (hr : minVisibleRows ≤ rows ∧ rows ≤ UInt32.ofNat vgaHeight) :
    applyVisibleDimensions window columns rows = { window with
      visibleColumns := columns, visibleRows := rows
      contentWidth := columns * fontWidth, contentHeight := rows * fontHeight
      frameWidth := columns * fontWidth + contentPaddingWidth
      frameHeight := rows * fontHeight + contentPaddingHeight } := by
  have hclamp : ∀ {v low high : UInt32}, low ≤ v ∧ v ≤ high → clampU32 v low high = v := by
    intro v low high hv
    rw [clampU32, if_neg (UInt32.not_lt.mpr hv.1), if_neg (UInt32.not_lt.mpr hv.2)]
  rw [applyVisibleDimensions, hclamp hc, hclamp hr]

/-- **A resize puts the frame inside the screen.** -/
theorem updateResize_framed (hr : Roomy fb) (h : Framed fb geared w)
    (cursorX cursorY : UInt32) : Framed fb geared (updateResize fb w cursorX cursorY).2 := by
  rw [updateResize]
  dsimp only
  split
  swap
  · exact h
  rename_i hon
  simp only [Bool.and_eq_true] at hon
  obtain ⟨x, y, columns, rows, htarget, hx, hy, hcolumns, hrows⟩ :=
    resizeTarget_spec hr hon.1.1.1 h cursorX cursorY
  rw [htarget]
  dsimp only
  split
  · exact h
  rw [applyVisibleDimensions_eq _ hcolumns hrows]
  have hplaced := @placed_clamped fb hr { w.windows w.resize.resizeSlot.toNat with
    visibleColumns := columns, visibleRows := rows
    contentWidth := columns * fontWidth, contentHeight := rows * fontHeight
    frameWidth := columns * fontWidth + contentPaddingWidth
    frameHeight := rows * fontHeight + contentPaddingHeight, dirty := markFullDirty }
    ⟨hcolumns, hrows, rfl, rfl⟩ rfl rfl x y hx hy w.geometryReady
  exact (framed_setWindow h fun _ => hplaced).same (same_drawWindows fb _)

/-- **A drag puts the frame inside the screen.** -/
theorem updateDrag_framed (hr : Roomy fb) (h : Framed fb geared w)
    (hon : w.drag.draggingWindow = true) (hv : validInt w w.drag.dragSlot = true)
    {cursorX cursorY : UInt32} (hx : cursorX.toNat < 2 ^ 31) (hy : cursorY.toNat < 2 ^ 31) :
    Framed fb geared (updateDrag fb w cursorX cursorY) := by
  obtain ⟨slot, hslot, hvalid⟩ := validInt_iff.mp hv
  obtain ⟨hoffX, hoffY⟩ := h.drag hon
  have hnat : w.drag.dragSlot.toNat = slot := by omega
  have hplace : ∀ {cursor : UInt32} {offset : Int}, 0 ≤ offset → cursor.toNat < 2 ^ 31 →
      (UInt32.ofInt (if int32 cursor - offset < 0 then 0 else int32 cursor - offset)).toNat <
        2 ^ 31 := by
    intro cursor offset hoffset hcursor
    have hle := @toNat_ofInt_le (int32 cursor - offset) cursor.toNat (by
      rw [int32_of_lt hcursor]
      omega) hcursor
    omega
  obtain ⟨hlegal, hwidth, hheight, -, -⟩ := h.windows slot hvalid
  have hplaced := placed_clamped hr hlegal hwidth hheight (hplace hoffX hx) (hplace hoffY hy)
    w.geometryReady
  have htarget : Placed fb { w.windows slot with
      frameX := (dragTarget fb w cursorX cursorY).1
      frameY := (dragTarget fb w cursorX cursorY).2 } := by
    rw [dragTarget, hnat]
    exact hplaced
  rw [updateDrag, hnat]
  cases hpair : dragTarget fb w cursorX cursorY with
  | mk x y =>
    rw [hpair] at htarget
    dsimp only
    split
    · have hset := @framed_setWindow fb geared w slot h _ fun _ => htarget
      exact hset.same (same_drawWindows fb _)
    · exact h

theorem resizeHeld_framed (hr : Roomy fb) (h : Framed fb geared w)
    (leftDown : Bool) (cursorX cursorY : UInt32) :
    Framed fb geared (resizeHeld fb leftDown cursorX cursorY w).2 := by
  rw [resizeHeld]
  split
  · split
    · exact updateResize_framed hr h cursorX cursorY
    · exact h.stopResizing
  · exact h

/-- The position of an event on the screen is that of the cursor. -/
structure OnScreen (fb : FrameBuffer) (event : MouseEvent) : Prop where
  left : 0 ≤ event.x
  right : event.x < fb.width.toNat
  top : 0 ≤ event.y
  bottom : event.y < fb.height.toNat

theorem cursor_lt {v : Int} {limit : UInt32} (hlow : 0 ≤ v) (hhigh : v < limit.toNat)
    (hlt : limit.toNat < 2 ^ 31) : (if v < 0 then 0 else UInt32.ofInt v).toNat < 2 ^ 31 := by
  have hvalue := @toNat_ofInt v hlow (by omega)
  rw [if_neg (by omega)]
  omega

/-- **The handler of the mouse keeps the frames on the screen**, whatever it drags or
resizes on the way. -/
theorem handleMouseEvent_framed (hr : Roomy fb) (hc : Consistent d.windows)
    (h : Framed fb geared d.windows) {event : MouseEvent} (hon : OnScreen fb event) :
    Framed fb geared (handleMouseEvent fb d event).2.windows := by
  have hx := cursor_lt hon.left hon.right hr.left
  have hy := cursor_lt hon.top hon.bottom hr.top
  have hready := hr.geometry d.windows
  have hp := h.same (same_ensureGeometry fb d.windows)
  have hcp := hc.keeps (keeps_ensureGeometry fb d.windows)
  rw [handleMouseEvent, if_pos hr.available]
  dsimp only
  generalize ensureGeometry fb d.windows = v at hp hcp hready
  generalize (if event.x < 0 then 0 else UInt32.ofInt event.x) = cursorX at hx
  generalize (if event.y < 0 then 0 else UInt32.ofInt event.y) = cursorY at hy
  generalize (event.buttons &&& mouseButtonLeft != 0) = leftDown
  generalize (event.changed &&& mouseButtonLeft != 0) = leftChanged
  generalize hhandled : (if (leftChanged && leftDown) = true then
      pressLeft fb ⟨d.kernel, v⟩ cursorX cursorY
    else if leftChanged = true then releaseLeft ⟨d.kernel, v⟩
    else ⟨false, false, ⟨d.kernel, v⟩⟩) = handled
  have hf : Framed fb geared handled.desktop.windows := by
    rw [← hhandled]
    split
    · exact @pressLeft_framed fb geared ⟨d.kernel, v⟩ hr hcp hp hready cursorX cursorY hx hy
    split
    · exact hp.stopDragging.stopResizing
    · exact hp
  split
  · exact hf
  have hresized := resizeHeld_framed hr hf leftDown cursorX cursorY
  split
  · exact hresized
  split
  · rename_i hdrag
    obtain ⟨hdragging, hslot⟩ := Bool.and_eq_true_iff.mp hdrag
    exact updateDrag_framed hr hresized hdragging hslot hx hy
  · exact hresized

/-! ## Runs -/

/-- What the calls are given: positions on the screen, and origins that are an
`int32_t`. -/
def Admissible (fb : FrameBuffer) : Act → Prop
  | .handleMouseEvent event => OnScreen fb event
  | .setActiveWindowOrigin _ x y => x < 2 ^ 31 ∧ y < 2 ^ 31
  | _ => True

theorem writeText_framed (hr : Roomy fb) (hc : Consistent w) (h : Framed fb geared w) (proc : UInt32)
    (text : Option (List UInt8)) : Framed fb geared (writeText fb w proc text) := by
  cases text with
  | none => exact h
  | some text =>
    simp only [writeText]
    split
    · exact h
    split
    · exact h
    have hp := h.same (same_prepare fb w)
    have hcp := hc.keeps (keeps_prepare fb w)
    generalize buildBlankSnapshot (ensureGeometry fb w) = v at hp hcp
    have hq : Framed fb geared
        (if findWindowIndex v proc = none then requestNewWindow fb v proc else v) := by
      split
      · exact requestNewWindow_framed hr hcp hp proc
      · exact hp
    generalize (if findWindowIndex v proc = none then requestNewWindow fb v proc else v) = u at hq
    split
    · exact hq
    rename_i slot _
    have hwritten : Framed fb geared (setWindow u slot (writeWindow (u.windows slot) text)) :=
      hq.same (same_setWindow u slot rfl)
    split
    · exact hwritten.same (same_windowPresent _ proc)
    · exact hwritten

theorem step_framed (hr : Roomy fb) (hc : Consistent d.windows) (h : Framed fb geared d.windows)
    {act : Act} (ha : Admissible fb act) : Framed fb geared (step fb d act).windows := by
  cases act with
  | requestNewWindow proc => exact requestNewWindow_framed hr hc h proc
  | activateProcess proc => exact h.same (same_activateProcess fb _ proc)
  | setActiveWindowOrigin proc x y => exact setActiveWindowOrigin_framed hr h proc ha.1 ha.2
  | writeText proc text => exact writeText_framed hr hc h proc text
  | onProcessExit proc => exact onProcessExit_framed h proc
  | handleMouseEvent event => exact handleMouseEvent_framed hr hc h ha
  | windowPutChar proc x y ch color => exact h.same (same_windowPutChar _ proc x y ch color)
  | windowSetCursor proc row column active =>
    exact h.same (same_windowSetCursor _ proc row column active)
  | windowPresent proc => exact h.same (same_windowPresent _ proc)
  | drawWorkspace => exact h.same (same_drawWorkspace fb _)
  | setForeground proc => exact setForeground_framed h proc
  | restoreForeground owner => exact restoreForeground_framed h owner
  | killProcess proc => exact killProcess_framed h proc
  | kernel next => exact h

theorem init_framed (hr : Roomy fb) (w : WindowState) (hgeared : geared → Geared w)
    (initialProc : UInt32) : Framed fb geared (init fb w initialProc) := by
  have hreset : Framed fb geared (resetWindows w) := by
    refine ⟨fun slot hv => ?_, fun hon => absurd hon Bool.false_ne_true,
      fun hon => absurd hon Bool.false_ne_true, hgeared⟩
    rw [resetWindows_unused] at hv
    cases hv
  have hp := hreset.same (same_prepare fb (resetWindows w))
  have hcp := (resetWindows_consistent w).keeps (keeps_prepare fb _)
  simp only [init]
  split
  · exact requestNewWindow_framed hr hcp hp initialProc
  · exact hp

theorem run_framed (hr : Roomy fb) (kernel : Kernel) (w : WindowState)
    (hgeared : geared → Geared w) (initialProc : UInt32) {acts : List Act}
    (ha : ∀ act ∈ acts, Admissible fb act) :
    ∀ t ∈ visited (fun d act => some (step fb d act)) acts ⟨kernel, init fb w initialProc⟩,
      Consistent t.windows ∧ Framed fb geared t.windows := by
  have next : ∀ (d : GuiState) (act : Act) (t : GuiState),
      (Consistent d.windows ∧ Framed fb geared d.windows) → Admissible fb act →
      some (step fb d act) = some t → Consistent t.windows ∧ Framed fb geared t.windows := by
    intro d act t h hact hs
    obtain rfl := Option.some.inj hs
    exact ⟨step_consistent h.1 fb act, step_framed hr h.1 h.2 hact⟩
  exact inv_visited next acts ⟨init_consistent fb w initialProc, init_framed hr w hgeared
    initialProc⟩ (heeded_of_forall (fun act hact _ => ha act hact) _)

/-- **Windows stay on the screen**, with legal dimensions, over any sequence of the
calls that the window manager takes. -/
theorem windows_stay_on_screen (hr : Roomy fb) (kernel : Kernel) (w : WindowState)
    (initialProc : UInt32) {acts : List Act} (ha : ∀ act ∈ acts, Admissible fb act) :
    ∀ t ∈ visited (fun d act => some (step fb d act)) acts ⟨kernel, init fb w initialProc⟩,
      ∀ slot, windowSlotValid t.windows slot = true → Placed fb (t.windows.windows slot) := by
  intro t ht slot hv
  obtain ⟨-, hframed⟩ := @run_framed fb False hr kernel w False.elim initialProc acts ha t ht
  exact hframed.windows slot hv

end

/-- A window is made, sent off the screen, and taken at a corner. -/
def pushedAround : List Act :=
  [.requestNewWindow 0x2000, .setActiveWindowOrigin 0x2000 2147483647 (-5),
    .handleMouseEvent ⟨1020, 430, 0, 0, 0, 0, 1, 1, 0⟩,
    .handleMouseEvent ⟨3, 700, 0, 0, 0, 0, 1, 0, 0⟩]

theorem windows_stay_on_screen_pushedAround :
    ∃ t ∈ visited (fun d act => some (step ⟨true, 1024, 768⟩ d act)) pushedAround
        ⟨booted [], init ⟨true, 1024, 768⟩ bootWindows 0x1000⟩,
      windowSlotValid t.windows 1 = true ∧ (t.windows.windows 1).frameY = 0 ∧
        Placed ⟨true, 1024, 768⟩ (t.windows.windows 1) := by
  have hrun : (pushedAround.foldlM (fun d act => some (step ⟨true, 1024, 768⟩ d act))
      ⟨booted [], init ⟨true, 1024, 768⟩ bootWindows 0x1000⟩).any (fun t =>
        windowSlotValid t.windows 1 && (t.windows.windows 1).frameY == 0) = true := by
    decide +kernel
  obtain ⟨t, ht, hshown⟩ := (Option.any_eq_true _ _).mp hrun
  simp only [Bool.and_eq_true, beq_iff_eq] at hshown
  have hmem := mem_visited_of_foldlM ht
  refine ⟨t, hmem, hshown.1, hshown.2, windows_stay_on_screen
    ⟨rfl, by decide, by decide, by decide, by decide⟩ _ _ _ ?_ t hmem 1 hshown.1⟩
  refine List.forall_mem_cons.mpr ⟨trivial, List.forall_mem_cons.mpr ⟨⟨by decide, by decide⟩,
    List.forall_mem_cons.mpr ⟨?_, List.forall_mem_cons.mpr ⟨?_, fun act h => ?_⟩⟩⟩⟩
  · exact ⟨by decide, by decide, by decide, by decide⟩
  · exact ⟨by decide, by decide, by decide, by decide⟩
  · cases h

end ContinuumOS.Gui.Frames
