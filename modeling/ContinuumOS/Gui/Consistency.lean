import ContinuumOS.Gui.Desktop
import ContinuumOS.Gui.Stacking
import ContinuumOS.Lib.Runs

/-! # The invariant of the window manager

Closing a window, the requests of processes and the handler of the mouse keep
the globals consistent, in whatever order they come and whatever the scheduler
does in between. -/
namespace ContinuumOS.Gui.Consistency
open ContinuumOS.Lib.Shift ContinuumOS.Gui.Geometry ContinuumOS.Gui.Windows
open ContinuumOS.Gui.Desktop ContinuumOS.Gui.Stacking ContinuumOS.Lib.Runs
open ContinuumOS.Sched.Delivery (Kernel MouseEvent booted)

variable {fb : FrameBuffer} {w w' : WindowState} {slot : Nat} {d : GuiState}

/-! ## Closing -/

theorem removeSlotFromStack_spec (h : Consistent w) (hv : windowSlotValid w slot = true) : ∃ order,
    removeSlotFromStack w slot = { w with zOrder := order, zCount := w.zCount - 1 } ∧
    order.length = maxWindows ∧ order.take (w.zCount - 1) = (stack w).erase slot := by
  have hle : w.zCount ≤ w.zOrder.length := h.array ▸ h.room
  rw [removeSlotFromStack]
  cases hpos : findStackPosition w slot with
  | none => exact absurd ((h.inUse slot).mpr hv) ((find_eq_none hle).mp hpos)
  | some position =>
    refine ⟨_, rfl, by rw [length_shiftDown, h.array], ?_⟩
    exact take_shiftDown_find hle h.nodup hpos

theorem stopModes_eq (w : WindowState) (slot : Nat) : stopModes w slot = { w with
    drag := if w.drag.draggingWindow && w.drag.dragSlot == slot then notDragging else w.drag
    resize := if w.resize.resizingWindow && w.resize.resizeSlot == slot then notResizing
      else w.resize } := by
  simp only [stopModes, stopDragging, stopResizing]
  by_cases hd : (w.drag.draggingWindow && w.drag.dragSlot == slot) = true <;>
    by_cases hr : (w.resize.resizingWindow && w.resize.resizeSlot == slot) = true <;>
    simp [hd, hr]

theorem setModes (h : Consistent w) {drag : Drag} {resize : Resize}
    (hm : ModesSound { w with drag, resize }) : Consistent { w with drag, resize } :=
  ⟨h.array, h.room, h.nodup, h.inUse, h.windowCount, h.zCount, h.active, h.owners, hm⟩

theorem modesSound_off (hdrag : w.drag.draggingWindow = false)
    (hresize : w.resize.resizingWindow = false) : ModesSound w where
  exclusive := fun hon => Bool.false_ne_true (hdrag ▸ hon.1)
  drag := fun hon => absurd (hdrag ▸ hon) Bool.false_ne_true
  resize := fun hon => absurd (hresize ▸ hon) Bool.false_ne_true

/-- The modes are off, or on in a window other than that of the slot. -/
structure ModesElsewhere (w : WindowState) (slot : Nat) : Prop where
  drag : w.drag.draggingWindow = true → w.drag.dragSlot ≠ slot
  resize : w.resize.resizingWindow = true → w.resize.resizeSlot ≠ slot

theorem stopModes_elsewhere (w : WindowState) (slot : Nat) :
    ModesElsewhere (stopModes w slot) slot := by
  rw [stopModes_eq]
  constructor <;> simp only
  · split
    · exact fun hon => absurd hon Bool.false_ne_true
    · rename_i hnot
      exact fun hon heq => hnot (Bool.and_eq_true_iff.mpr ⟨hon, beq_iff_eq.mpr heq⟩)
  · split
    · exact fun hon => absurd hon Bool.false_ne_true
    · rename_i hnot
      exact fun hon heq => hnot (Bool.and_eq_true_iff.mpr ⟨hon, beq_iff_eq.mpr heq⟩)

theorem stopModes_consistent (h : Consistent w) (slot : Nat) : Consistent (stopModes w slot) := by
  rw [stopModes_eq]
  refine setModes h ⟨?_, ?_, ?_⟩ <;> simp only
  · intro hboth
    refine h.modes.exclusive ⟨?_, ?_⟩
    · refine Bool.eq_true_of_not_eq_false fun hoff => ?_
      rw [hoff, Bool.false_and] at hboth
      exact Bool.false_ne_true (hoff ▸ hboth.1)
    · refine Bool.eq_true_of_not_eq_false fun hoff => ?_
      rw [hoff, Bool.false_and] at hboth
      exact Bool.false_ne_true (hoff ▸ hboth.2)
  · split
    · exact fun hon => absurd hon Bool.false_ne_true
    · exact h.modes.drag
  · split
    · exact fun hon => absurd hon Bool.false_ne_true
    · exact h.modes.resize

theorem valid_release {window : Window} (hunused : window.inUse = false) (i : Nat) :
    windowSlotValid (setWindow w slot window) i = true ↔ i ≠ slot ∧ windowSlotValid w i = true := by
  rw [windowSlotValid, windowSlotValid]
  by_cases hi : i = slot
  · rw [hi, setWindow_self, hunused, Bool.and_false]
    exact ⟨fun h => absurd h Bool.false_ne_true, fun h => absurd rfl h.1⟩
  · rw [setWindow_of_ne w window hi]
    exact ⟨fun h => ⟨hi, h⟩, And.right⟩

theorem validInt_release {window : Window} (hunused : window.inUse = false) {i : Int}
    (hv : validInt w i = true) (hi : i ≠ slot) : validInt (setWindow w slot window) i = true := by
  obtain ⟨n, rfl, hn⟩ := validInt_iff.mp hv
  exact validInt_iff.mpr ⟨n, rfl, (valid_release hunused n).mpr ⟨fun h => hi (h ▸ rfl), hn⟩⟩

/-- **Closing a window leaves the others.** -/
theorem closeWindowSlot_consistent (h : Consistent w) (fb : FrameBuffer) (slot : Nat) :
    Consistent (closeWindowSlot fb w slot) := by
  rw [closeWindowSlot]
  split
  swap
  · exact h
  rename_i hv
  have hc := stopModes_consistent h slot
  have helse := stopModes_elsewhere w slot
  have hvalid : windowSlotValid (stopModes w slot) slot = true := by
    rw [stopModes_eq]
    exact hv
  generalize stopModes w slot = v at hc helse hvalid
  obtain ⟨order, heq, hlen, htake⟩ := removeSlotFromStack_spec hc hvalid
  have hmem := (hc.inUse slot).mpr hvalid
  have hshrunk : windowSlotValid { v with zOrder := order, zCount := v.zCount - 1 } slot = true :=
    hvalid
  rw [heq, releaseWindowSlot, if_pos hshrunk]
  refine .keeps ?_ (keeps_drawWorkspace fb _)
  have hin : ∀ i, i ∈ (stack v).erase slot ↔
      windowSlotValid (setWindow v slot Window.unused.resetDirty) i = true := by
    intro i
    rw [hc.nodup.mem_erase_iff, hc.inUse, valid_release rfl]
  have hcount := length_eq_inUseCount (hc.nodup.erase slot) hin
  rw [List.length_erase_of_mem hmem, length_stack hc.array hc.room] at hcount
  have hnodup := hc.nodup.erase slot
  rw [← htake] at hin hnodup
  refine ⟨hlen, (Nat.sub_le _ _).trans hc.room, hnodup, hin, ?_, hcount, rfl, ?_, ?_⟩
  · exact congrArg (· - 1) hc.windowCount
  · intro i j hi hj h0 hsame
    obtain ⟨hni, hvi⟩ := (valid_release rfl i).mp hi
    obtain ⟨hnj, hvj⟩ := (valid_release rfl j).mp hj
    refine hc.owners i j hvi hvj ?_ ?_
    · exact setWindow_of_ne v _ hni ▸ h0
    · exact setWindow_of_ne v _ hni ▸ setWindow_of_ne v _ hnj ▸ hsame
  · exact ⟨hc.modes.exclusive,
      fun hon => validInt_release rfl (hc.modes.drag hon) (helse.drag hon),
      fun hon => validInt_release rfl (hc.modes.resize hon) (helse.resize hon)⟩

theorem onProcessExit_consistent (h : Consistent w) (fb : FrameBuffer) (proc : UInt32) :
    Consistent (onProcessExit fb w proc) := by
  rw [onProcessExit]
  split
  · exact h
  split
  · exact h
  · exact closeWindowSlot_consistent h fb _

/-! ## Requests of processes -/

theorem activateProcess_consistent (h : Consistent w) (fb : FrameBuffer) (proc : UInt32) :
    Consistent (activateProcess fb w proc) := by
  rw [activateProcess]
  split
  · exact h
  have hp := h.keeps (keeps_prepare fb w)
  simp only
  split
  · exact hp
  · exact hp.focus fb _

theorem prepare_ready (w : WindowState) (h : fb.available = true) :
    (buildBlankSnapshot (ensureGeometry fb w)).geometryReady = true := by
  have hblank : ∀ v, (buildBlankSnapshot v).geometryReady = v.geometryReady := by
    intro v
    rw [buildBlankSnapshot]
    split <;> rfl
  rw [hblank, ensureGeometry, h, Bool.not_true, Bool.or_false]
  split
  · assumption
  · rfl

theorem allocateWindowSlot_some {v : WindowState} (h : allocateWindowSlot w = (some slot, v)) :
    slot < maxWindows ∧ (w.windows slot).inUse = false ∧
      v = { setWindow w slot { Window.unused.resetDirty with inUse := true } with
        windowCount := w.windowCount + 1 } := by
  rw [allocateWindowSlot] at h
  split at h
  · cases congrArg Prod.fst h
  · rename_i i hfind
    obtain ⟨hi, hv⟩ := Prod.mk.inj h
    obtain rfl := Option.some.inj hi
    have hfree := List.find?_some hfind
    exact ⟨List.mem_range.mp (List.mem_of_find?_eq_some hfind), (Bool.not_eq_true' _).mp hfree,
      hv.symm⟩

theorem owner_ne_of_none {proc : UInt32} {i : Nat} (h : findWindowIndex w proc = none)
    (hv : windowSlotValid w i = true) (h0 : (w.windows i).owner ≠ 0) :
    (w.windows i).owner ≠ proc := by
  rintro rfl
  rw [findWindowIndex, if_neg h0] at h
  refine List.find?_eq_none.mp h i (List.mem_range.mpr (lt_of_valid hv)) ?_
  rw [hv, Bool.true_and, beq_self_eq_true]

theorem raisable_fresh {window : Window} (h : Consistent w) (hlt : slot < maxWindows)
    (hfree : (w.windows slot).inUse = false) (hwindow : window.inUse = true)
    (hnone : findWindowIndex w window.owner = none) :
    Raisable { setWindow w slot window with windowCount := w.windowCount + 1 } slot := by
  have hother : ∀ i, i ≠ slot → (setWindow w slot window).windows i = w.windows i :=
    fun i => setWindow_of_ne w window
  have hunused : windowSlotValid w slot = false := by rw [windowSlotValid, hfree, Bool.and_false]
  have hnot : slot ∉ stack w := fun hm => Bool.false_ne_true (hunused ▸ (h.inUse slot).mp hm)
  have hvalid : ∀ i, windowSlotValid (setWindow w slot window) i = true ↔
      i = slot ∨ windowSlotValid w i = true := by
    intro i
    by_cases hi : i = slot
    · rw [hi, windowSlotValid, setWindow_self, hwindow, decide_eq_true hlt]
      exact ⟨fun _ => .inl rfl, fun _ => rfl⟩
    · rw [windowSlotValid, hother i hi]
      exact ⟨.inr, fun hv => hv.resolve_left hi⟩
  have hlast : ∀ {i : Int}, validInt w i = true → validInt (setWindow w slot window) i = true := by
    intro i hi
    obtain ⟨n, hn, hv⟩ := validInt_iff.mp hi
    exact validInt_iff.mpr ⟨n, hn, (hvalid n).mpr (.inr hv)⟩
  refine ⟨h.array, h.room, h.nodup, (hvalid slot).mpr (.inl rfl), fun i => ?_, ?_, ?_,
    h.modes.exclusive, fun hon => hlast (h.modes.drag hon), fun hon => hlast (h.modes.resize hon)⟩
  · exact (or_congr_left (h.inUse i)).trans (or_comm.trans (hvalid i).symm)
  · have hstack : (stack w).erase slot = stack w := List.erase_of_not_mem hnot
    have hlen := length_stack h.array h.room
    simp only [h.windowCount]
    exact congrArg (· + 1) (hlen.symm.trans (congrArg List.length hstack.symm))
  · intro i j hi hj h0 hsame
    simp only at h0 hsame
    by_cases hi' : i = slot <;> by_cases hj' : j = slot
    · rw [hi', hj']
    · have hvj := ((hvalid j).mp hj).resolve_left hj'
      rw [hi', setWindow_self] at h0 hsame
      rw [hother j hj'] at hsame
      exact absurd hsame.symm (owner_ne_of_none hnone hvj (hsame ▸ h0))
    · have hvi := ((hvalid i).mp hi).resolve_left hi'
      rw [hother i hi'] at h0 hsame
      rw [hj', setWindow_self] at hsame
      exact absurd hsame (owner_ne_of_none hnone hvi h0)
    · rw [hother i hi'] at h0 hsame
      rw [hother j hj'] at hsame
      exact h.owners i j (((hvalid i).mp hi).resolve_left hi') (((hvalid j).mp hj).resolve_left hj')
        h0 hsame

theorem newWindow_owner (fb : FrameBuffer) (w : WindowState) (proc : UInt32) (window : Window) :
    (newWindow fb w proc window).inUse = window.inUse ∧
      (newWindow fb w proc window).owner = proc := ⟨rfl, rfl⟩

/-- **A request gives a process a window of its own, or raises the one it has.** -/
theorem requestNewWindow_consistent (h : Consistent w) (fb : FrameBuffer) (proc : UInt32) :
    Consistent (requestNewWindow fb w proc) := by
  rw [requestNewWindow]
  split
  swap
  · exact h
  rename_i havail
  have hp := h.keeps (keeps_prepare fb w)
  have hready := prepare_ready w havail
  generalize buildBlankSnapshot (ensureGeometry fb w) = v at hp hready
  cases hfind : findWindowIndex v proc with
  | some existing =>
    simp only [hfind]
    split
    · exact activateProcess_consistent hp fb proc
    · exact (hp.focus fb existing).keeps (keeps_drawWindows fb _)
  | none =>
    simp only [hfind]
    split
    · exact hp
    cases halloc : allocateWindowSlot v with
    | mk found v' =>
      cases found with
      | none =>
        rw [allocateWindowSlot] at halloc
        split at halloc
        · exact (Prod.mk.inj halloc).2 ▸ hp
        · cases congrArg Prod.fst halloc
      | some slot =>
        obtain ⟨hlt, hfree, hv'⟩ := allocateWindowSlot_some halloc
        obtain ⟨hin, howner⟩ := newWindow_owner fb v' proc (v'.windows slot)
        simp only
        generalize newWindow fb v' proc (v'.windows slot) = window at hin howner
        have hinUse : window.inUse = true := by
          rw [hin, hv']
          exact congrArg Window.inUse (setWindow_self v slot _)
        have hset : setWindow v' slot window =
            { setWindow v slot window with windowCount := v.windowCount + 1 } := by
          rw [hv']
          simp only [setWindow, Function.update_idem]
        rw [hset]
        exact (raisable_fresh hp hlt hfree hinUse (howner ▸ hfind)).focus fb hready

theorem writeText_consistent (h : Consistent w) (fb : FrameBuffer) (proc : UInt32)
    (text : Option (List UInt8)) : Consistent (writeText fb w proc text) := by
  cases text with
  | none => exact h
  | some text =>
    simp only [writeText]
    split
    · exact h
    split
    · exact h
    have hp := h.keeps (keeps_prepare fb w)
    generalize buildBlankSnapshot (ensureGeometry fb w) = v at hp
    have hq : Consistent
        (if findWindowIndex v proc = none then requestNewWindow fb v proc else v) := by
      split
      · exact requestNewWindow_consistent hp fb proc
      · exact hp
    generalize (if findWindowIndex v proc = none then requestNewWindow fb v proc else v) = u at hq
    split
    · exact hq
    rename_i slot _
    have hwritten : Consistent (setWindow u slot (writeWindow (u.windows slot) text)) :=
      hq.keeps (keeps_setWindow u slot rfl rfl)
    split
    · exact hwritten.keeps (keeps_windowPresent _ proc)
    · exact hwritten

/-! ## The foreground -/

theorem setForeground_consistent (h : Consistent d.windows) (fb : FrameBuffer) (proc : UInt32) :
    Consistent (setForeground fb d proc).windows := by
  rw [setForeground]
  split
  · exact h
  · exact activateProcess_consistent h fb proc

theorem restoreForeground_consistent (h : Consistent d.windows) (fb : FrameBuffer)
    (owner : UInt32) : Consistent (restoreForeground fb d owner).windows := by
  rw [restoreForeground]
  split
  · exact h
  · exact activateProcess_consistent h fb _

theorem killProcess_consistent (h : Consistent d.windows) (fb : FrameBuffer) (ptr : UInt32) :
    Consistent (killProcess fb d ptr).windows := by
  rw [killProcess]
  split
  · exact h
  · exact restoreForeground_consistent (d := ⟨_, _⟩) (onProcessExit_consistent h fb ptr) fb ptr

/-! ## The mouse -/

theorem pushSlotToTop_windows (w : WindowState) (slot : Nat) :
    (pushSlotToTop w slot).windows = w.windows := by
  rw [pushSlotToTop]
  split
  · rfl
  split
  · split <;> rfl
  · rfl

theorem sameSlots_focus (fb : FrameBuffer) (w : WindowState) (slot : Nat) :
    SameSlots w (focusWindow fb w slot) := by
  cases hv : windowSlotValid w slot with
  | false =>
    rw [focusWindow, hv]
    exact fun _ => ⟨rfl, rfl⟩
  | true =>
    rw [focusWindow_eq fb hv]
    refine (keeps_ensureGeometry fb w).slots.trans ?_
    generalize ensureGeometry fb w = v
    have hraised : SameSlots v { pushSlotToTop v slot with activeSlot := slot } := by
      intro i
      rw [pushSlotToTop_windows]
      exact ⟨rfl, rfl⟩
    simp only
    split
    · split
      · exact hraised.trans (keeps_drawWindows fb _).slots
      · exact hraised
    · exact fun _ => ⟨rfl, rfl⟩

theorem sameSlots_activate (fb : FrameBuffer) (w : WindowState) (proc : UInt32) :
    SameSlots w (activateProcess fb w proc) := by
  rw [activateProcess]
  split
  · exact fun _ => ⟨rfl, rfl⟩
  refine (keeps_prepare fb w).slots.trans ?_
  simp only
  split
  · exact fun _ => ⟨rfl, rfl⟩
  · exact sameSlots_focus fb _ _

theorem raiseWindow_spec (h : Consistent d.windows) (fb : FrameBuffer) (slot : Nat) :
    Consistent (raiseWindow fb d slot).windows ∧
      SameSlots d.windows (raiseWindow fb d slot).windows := by
  simp only [raiseWindow]
  split
  · refine ⟨setForeground_consistent h fb _, ?_⟩
    rw [setForeground]
    split
    · exact fun _ => ⟨rfl, rfl⟩
    · exact sameSlots_activate fb _ _
  · exact ⟨h.focus fb slot, sameSlots_focus fb _ slot⟩

theorem stopBoth_consistent (h : Consistent w) : Consistent (stopResizing (stopDragging w)) :=
  setModes h (modesSound_off rfl rfl)

theorem pressCloseButton_consistent (h : Consistent d.windows) (fb : FrameBuffer) (slot : Nat) :
    Consistent (pressCloseButton fb d slot).windows := by
  simp only [pressCloseButton]
  split
  · exact killProcess_consistent (d := ⟨_, _⟩) (stopBoth_consistent h) fb _
  · exact closeWindowSlot_consistent (stopBoth_consistent h) fb slot

theorem beginResize_consistent (h : Consistent w) (hv : windowSlotValid w slot = true)
    (edges : UInt8) (cursorX cursorY : UInt32) :
    Consistent (beginResize (stopDragging w) slot edges cursorX cursorY) := by
  have hvalid : windowSlotValid (stopDragging w) slot = true := hv
  rw [beginResize, if_pos hvalid]
  refine setModes h ⟨fun hon => absurd hon.1 Bool.false_ne_true,
    fun hon => absurd hon Bool.false_ne_true, fun _ => ?_⟩
  exact validInt_iff.mpr ⟨slot, rfl, hv⟩

theorem startDragging_consistent (h : Consistent w) (hv : validInt w w.activeSlot = true)
    (cursorX cursorY : UInt32) : Consistent (startDragging w cursorX cursorY) :=
  setModes h ⟨fun hon => absurd hon.2 Bool.false_ne_true, fun _ => hv,
    fun hon => absurd hon Bool.false_ne_true⟩

theorem pressLeft_consistent (h : Consistent d.windows) (fb : FrameBuffer)
    (cursorX cursorY : UInt32) : Consistent (pressLeft fb d cursorX cursorY).desktop.windows := by
  rw [pressLeft]
  generalize hitTestWindow fb d.windows cursorX cursorY = hit
  simp only
  split
  swap
  · exact stopBoth_consistent h
  rename_i hhit
  obtain ⟨i, hi, hv⟩ := validInt_iff.mp hhit
  -- the window hit is still there when the scheduler has raised it
  obtain ⟨hraised, hsame⟩ := raiseWindow_spec h fb hit.slot.toNat
  generalize raiseWindow fb d hit.slot.toNat = e at hraised hsame
  split
  · exact pressCloseButton_consistent hraised fb _
  split
  · refine beginResize_consistent hraised ?_ hit.resizeEdges cursorX cursorY
    rw [hsame.valid, hi, Int.toNat_natCast, hv]
  split
  · rename_i hactive
    simp only
    split
    · exact startDragging_consistent hraised hactive cursorX cursorY
    · exact stopBoth_consistent hraised
  · exact hraised

theorem resizeHeld_consistent (h : Consistent w) (fb : FrameBuffer) (leftDown : Bool)
    (cursorX cursorY : UInt32) : Consistent (resizeHeld fb leftDown cursorX cursorY w).2 := by
  rw [resizeHeld]
  split
  · split
    · exact h.keeps (keeps_updateResize fb w cursorX cursorY)
    · exact setModes h ⟨fun hon => absurd hon.2 Bool.false_ne_true, h.modes.drag,
        fun hon => absurd hon Bool.false_ne_true⟩
  · exact h

/-- **The handler of the mouse keeps the invariant**, whichever process it
raises or kills on its way. -/
theorem handleMouseEvent_consistent (h : Consistent d.windows) (fb : FrameBuffer)
    (event : MouseEvent) : Consistent (handleMouseEvent fb d event).2.windows := by
  rw [handleMouseEvent]
  split
  swap
  · exact h
  have hp := h.keeps (keeps_ensureGeometry fb d.windows)
  generalize ensureGeometry fb d.windows = v at hp
  generalize (if event.x < 0 then 0 else UInt32.ofInt event.x) = cursorX
  generalize (if event.y < 0 then 0 else UInt32.ofInt event.y) = cursorY
  generalize (event.buttons &&& mouseButtonLeft != 0) = leftDown
  generalize (event.changed &&& mouseButtonLeft != 0) = leftChanged
  simp only
  generalize hhandled : (if (leftChanged && leftDown) = true then
      pressLeft fb ⟨d.kernel, v⟩ cursorX cursorY
    else if leftChanged = true then releaseLeft ⟨d.kernel, v⟩
    else ⟨false, false, ⟨d.kernel, v⟩⟩) = handled
  have hc : Consistent handled.desktop.windows := by
    rw [← hhandled]
    split
    · exact pressLeft_consistent (d := ⟨d.kernel, v⟩) hp fb cursorX cursorY
    split
    · exact stopBoth_consistent hp
    · exact hp
  split
  · exact hc
  have hresized := resizeHeld_consistent hc fb leftDown cursorX cursorY
  split
  · exact hresized
  split
  · exact hresized.keeps (keeps_updateDrag fb _ cursorX cursorY)
  · exact hresized

/-! ## Runs -/

theorem step_consistent (h : Consistent d.windows) (fb : FrameBuffer) (act : Act) :
    Consistent (step fb d act).windows := by
  cases act with
  | requestNewWindow proc => exact requestNewWindow_consistent h fb proc
  | activateProcess proc => exact activateProcess_consistent h fb proc
  | setActiveWindowOrigin proc x y => exact h.keeps (keeps_setActiveWindowOrigin fb _ proc x y)
  | writeText proc text => exact writeText_consistent h fb proc text
  | onProcessExit proc => exact onProcessExit_consistent h fb proc
  | handleMouseEvent event => exact handleMouseEvent_consistent h fb event
  | windowPutChar proc x y ch color => exact h.keeps (keeps_windowPutChar _ proc x y ch color)
  | windowSetCursor proc row column active =>
    exact h.keeps (keeps_windowSetCursor _ proc row column active)
  | windowPresent proc => exact h.keeps (keeps_windowPresent _ proc)
  | drawWorkspace => exact h.keeps (keeps_drawWorkspace fb _)
  | setForeground proc => exact setForeground_consistent h fb proc
  | restoreForeground owner => exact restoreForeground_consistent h fb owner
  | killProcess proc => exact killProcess_consistent h fb proc
  | kernel next => exact h

theorem resetWindows_unused (w : WindowState) (slot : Nat) :
    windowSlotValid (resetWindows w) slot = false := by
  rw [windowSlotValid]
  by_cases hlt : slot < maxWindows
  · rw [resetWindows, decide_eq_true hlt]
    exact congrArg Window.inUse (if_pos hlt)
  · rw [decide_eq_false hlt, Bool.false_and]

theorem resetWindows_consistent (w : WindowState) : Consistent (resetWindows w) := by
  have hnone := resetWindows_unused w
  have hin : ∀ slot, slot ∈ ([] : List Nat) ↔ windowSlotValid (resetWindows w) slot = true := by
    intro slot
    rw [hnone]
    exact ⟨fun hm => (List.not_mem_nil hm).elim, fun hm => absurd hm Bool.false_ne_true⟩
  refine ⟨rfl, Nat.zero_le _, List.nodup_nil, hin, rfl, length_eq_inUseCount List.nodup_nil hin,
    rfl, ?_, modesSound_off rfl rfl⟩
  exact fun i _ hi => absurd (hnone i ▸ hi) Bool.false_ne_true

theorem init_consistent (fb : FrameBuffer) (w : WindowState) (initialProc : UInt32) :
    Consistent (init fb w initialProc) := by
  have hp := (resetWindows_consistent w).keeps (keeps_prepare fb _)
  simp only [init]
  split
  · exact requestNewWindow_consistent hp fb initialProc
  · exact hp

/-- **In every state reached from `init` the globals of the window manager are
consistent**: over any sequence of its entry points, with any framebuffer, and
with any changes of the scheduler's data in between. -/
theorem window_manager_consistent (fb : FrameBuffer) (kernel : Kernel) (w : WindowState)
    (initialProc : UInt32) (acts : List Act) :
    ∀ t ∈ visited (fun d act => some (step fb d act)) acts ⟨kernel, init fb w initialProc⟩,
      Consistent t.windows := by
  have next : ∀ (d : GuiState) (act : Act) (t : GuiState), Consistent d.windows →
      some (step fb d act) = some t → Consistent t.windows := by
    intro d act t h hs
    obtain rfl := Option.some.inj hs
    exact step_consistent h fb act
  exact inv_visited_all next acts (init_consistent fb w initialProc)

/-- Two windows overlap; a click on the left edge of the lower one brings it to
the top and starts to resize it. -/
def clickLower : List Act :=
  [.requestNewWindow 0x2000, .handleMouseEvent ⟨45, 300, 0, 0, 0, 0, 1, 1, 0⟩]

theorem window_manager_consistent_example :
    ∃ t ∈ visited (fun d act => some (step ⟨true, 1024, 768⟩ d act)) clickLower
        ⟨booted [], init ⟨true, 1024, 768⟩ bootWindows 0x1000⟩,
      stack t.windows = [1, 0] ∧ t.windows.resize.resizeSlot = 0 ∧ Consistent t.windows := by
  have hrun : (clickLower.foldlM (fun d act => some (step ⟨true, 1024, 768⟩ d act))
      ⟨booted [], init ⟨true, 1024, 768⟩ bootWindows 0x1000⟩).any (fun t =>
        stack t.windows == [1, 0] && t.windows.resize.resizeSlot == 0) = true := by
    decide +kernel
  obtain ⟨t, ht, hshown⟩ := (Option.any_eq_true _ _).mp hrun
  simp only [Bool.and_eq_true, beq_iff_eq] at hshown
  have hmem := mem_visited_of_foldlM ht
  exact ⟨t, hmem, hshown.1, hshown.2, window_manager_consistent _ _ _ _ _ t hmem⟩

end ContinuumOS.Gui.Consistency
