import ContinuumOS.Gui.Windows
import Mathlib.Data.List.Perm.Subperm

/-! # Slots, stack and modes

`Consistent` says how the globals of the window manager belong together: the
stack is a list of the slots in use, without repetitions, the two counters are
its length and its top is the active window. Most functions leave all of this
as it is (`Keeps`); focusing a window moves it to the end of the list, closing
erases it. -/
namespace ContinuumOS.Gui.Stacking
open ContinuumOS.Lib.Shift ContinuumOS.Gui.Geometry
open ContinuumOS.Gui.Windows

/-- The entries of `g_z_order` that count, from the bottom. -/
def stack (w : WindowState) : List Nat := w.zOrder.take w.zCount

def inUseCount (w : WindowState) : Nat :=
  ((List.range maxWindows).filter (windowSlotValid w)).length

/-- No process owns two windows. -/
def OwnersDistinct (w : WindowState) : Prop := ∀ i j, windowSlotValid w i = true →
  windowSlotValid w j = true → (w.windows i).owner ≠ 0 →
  (w.windows i).owner = (w.windows j).owner → i = j

/-- At most one mode is on, and its slot is in use. -/
structure ModesSound (w : WindowState) : Prop where
  exclusive : ¬ (w.drag.draggingWindow = true ∧ w.resize.resizingWindow = true)
  drag : w.drag.draggingWindow = true → validInt w w.drag.dragSlot = true
  resize : w.resize.resizingWindow = true → validInt w w.resize.resizeSlot = true

/-- The invariant of the window manager. -/
structure Consistent (w : WindowState) : Prop where
  array : w.zOrder.length = maxWindows
  room : w.zCount ≤ maxWindows
  nodup : (stack w).Nodup
  inUse : ∀ slot, slot ∈ stack w ↔ windowSlotValid w slot = true
  windowCount : w.windowCount = w.zCount
  zCount : w.zCount = inUseCount w
  active : w.activeSlot =
    if w.zCount = 0 then invalidSlot else (w.zOrder.getD (w.zCount - 1) 0 : Nat)
  owners : OwnersDistinct w
  modes : ModesSound w

variable {fb : FrameBuffer} {w w' w'' : WindowState} {slot : Nat}

theorem lt_of_valid (h : windowSlotValid w slot = true) : slot < maxWindows :=
  of_decide_eq_true (Bool.and_eq_true_iff.mp h).1

theorem validInt_iff {slot : Int} :
    validInt w slot = true ↔ ∃ i : Nat, slot = i ∧ windowSlotValid w i = true := by
  rw [validInt, Bool.and_eq_true, decide_eq_true_eq]
  constructor
  · exact fun ⟨h0, hv⟩ => ⟨slot.toNat, (Int.toNat_of_nonneg h0).symm, hv⟩
  · rintro ⟨i, rfl, hv⟩
    exact ⟨Int.natCast_nonneg i, hv⟩

theorem length_eq_inUseCount {l : List Nat} (hl : l.Nodup)
    (h : ∀ slot, slot ∈ l ↔ windowSlotValid w slot = true) : l.length = inUseCount w := by
  refine ((List.perm_ext_iff_of_nodup hl (List.nodup_range.filter _)).mpr fun slot => ?_).length_eq
  rw [h, List.mem_filter, List.mem_range]
  exact ⟨fun hv => ⟨lt_of_valid hv, hv⟩, And.right⟩

/-! ## What most functions leave alone -/

/-- The same slots are in use, by the same processes. -/
def SameSlots (w w' : WindowState) : Prop := ∀ i,
  (w'.windows i).inUse = (w.windows i).inUse ∧ (w'.windows i).owner = (w.windows i).owner

structure Keeps (w w' : WindowState) : Prop where
  slots : SameSlots w w'
  zOrder : w'.zOrder = w.zOrder
  zCount : w'.zCount = w.zCount
  windowCount : w'.windowCount = w.windowCount
  activeSlot : w'.activeSlot = w.activeSlot
  drag : w'.drag = w.drag
  resize : w'.resize = w.resize

theorem SameSlots.valid (h : SameSlots w w') : windowSlotValid w' = windowSlotValid w :=
  funext fun i => by rw [windowSlotValid, windowSlotValid, (h i).1]

theorem SameSlots.validInt (h : SameSlots w w') (slot : Int) :
    validInt w' slot = validInt w slot := by
  rw [Windows.validInt, Windows.validInt, h.valid]

theorem SameSlots.owners (h : SameSlots w w') (ho : OwnersDistinct w) : OwnersDistinct w' := by
  intro i j hi hj h0 heq
  rw [h.valid] at hi hj
  rw [(h i).2] at h0 heq
  rw [(h j).2] at heq
  exact ho i j hi hj h0 heq

theorem SameSlots.trans (h : SameSlots w w') (h' : SameSlots w' w'') : SameSlots w w'' :=
  fun i => ⟨(h' i).1.trans (h i).1, (h' i).2.trans (h i).2⟩

theorem Keeps.refl (w : WindowState) : Keeps w w :=
  ⟨fun _ => ⟨rfl, rfl⟩, rfl, rfl, rfl, rfl, rfl, rfl⟩

theorem Keeps.trans (h : Keeps w w') (h' : Keeps w' w'') : Keeps w w'' :=
  ⟨h.slots.trans h'.slots, h'.zOrder.trans h.zOrder, h'.zCount.trans h.zCount,
    h'.windowCount.trans h.windowCount, h'.activeSlot.trans h.activeSlot, h'.drag.trans h.drag,
    h'.resize.trans h.resize⟩

theorem ModesSound.same (h : ModesSound w) (hs : SameSlots w w') (hd : w'.drag = w.drag)
    (hr : w'.resize = w.resize) : ModesSound w' := by
  refine ⟨?_, ?_, ?_⟩
  · rw [hd, hr]
    exact h.exclusive
  · rw [hd, hs.validInt]
    exact h.drag
  · rw [hr, hs.validInt]
    exact h.resize

theorem Consistent.keeps (h : Consistent w) (hk : Keeps w w') : Consistent w' where
  array := hk.zOrder ▸ h.array
  room := hk.zCount ▸ h.room
  nodup := by
    rw [stack, hk.zOrder, hk.zCount]
    exact h.nodup
  inUse slot := by
    rw [stack, hk.zOrder, hk.zCount, hk.slots.valid]
    exact h.inUse slot
  windowCount := by rw [hk.windowCount, hk.zCount, h.windowCount]
  zCount := by rw [hk.zCount, h.zCount, inUseCount, inUseCount, hk.slots.valid]
  active := by rw [hk.activeSlot, hk.zCount, hk.zOrder, h.active]
  owners := hk.slots.owners h.owners
  modes := h.modes.same hk.slots hk.drag hk.resize

theorem keeps_setWindow (w : WindowState) (slot : Nat) {window : Window}
    (hinUse : window.inUse = (w.windows slot).inUse)
    (howner : window.owner = (w.windows slot).owner) :
    Keeps w (setWindow w slot window) := by
  refine ⟨fun i => ?_, rfl, rfl, rfl, rfl, rfl, rfl⟩
  by_cases hi : i = slot
  · rw [hi, setWindow_self]
    exact ⟨hinUse, howner⟩
  · rw [setWindow_of_ne w window hi]
    exact ⟨rfl, rfl⟩

theorem keeps_ensureGeometry (fb : FrameBuffer) (w : WindowState) :
    Keeps w (ensureGeometry fb w) := by
  rw [ensureGeometry]
  split <;> exact ⟨fun _ => ⟨rfl, rfl⟩, rfl, rfl, rfl, rfl, rfl, rfl⟩

theorem keeps_buildBlankSnapshot (w : WindowState) : Keeps w (buildBlankSnapshot w) := by
  rw [buildBlankSnapshot]
  split <;> exact ⟨fun _ => ⟨rfl, rfl⟩, rfl, rfl, rfl, rfl, rfl, rfl⟩

theorem keeps_prepare (fb : FrameBuffer) (w : WindowState) :
    Keeps w (buildBlankSnapshot (ensureGeometry fb w)) :=
  (keeps_ensureGeometry fb w).trans (keeps_buildBlankSnapshot _)

theorem keeps_renderWindow (w : WindowState) (slot : Nat) : Keeps w (renderWindow w slot) :=
  keeps_setWindow w slot rfl rfl

theorem keeps_renderInactive (w : WindowState) (i : Nat) : Keeps w (renderInactive w i) := by
  simp only [renderInactive]
  split
  · exact .refl w
  · exact keeps_renderWindow w _

theorem keeps_foldl {f : WindowState → Nat → WindowState} (h : ∀ w i, Keeps w (f w i))
    (l : List Nat) : ∀ w, Keeps w (l.foldl f w) := by
  induction l with
  | nil => exact Keeps.refl
  | cons i l ih => exact fun w => (h w i).trans (ih _)

theorem keeps_drawWindows (fb : FrameBuffer) (w : WindowState) : Keeps w (drawWindows fb w) := by
  rw [drawWindows]
  split
  · exact .refl w
  refine (keeps_ensureGeometry fb w).trans ?_
  refine (keeps_foldl keeps_renderInactive (List.range (ensureGeometry fb w).zCount) _).trans ?_
  simp only
  split
  · exact keeps_renderWindow _ _
  · exact .refl _

theorem keeps_drawWorkspace (fb : FrameBuffer) (w : WindowState) :
    Keeps w (drawWorkspace fb w) := by
  rw [drawWorkspace]
  split
  · exact keeps_drawWindows fb w
  · exact .refl w

theorem keeps_windowPresent (w : WindowState) (proc : UInt32) : Keeps w (windowPresent w proc) := by
  rw [windowPresent]
  split
  · exact .refl w
  rw [presentWindowSlot]
  split
  · exact keeps_renderWindow w _
  · exact .refl w

theorem keeps_setActiveWindowOrigin (fb : FrameBuffer) (w : WindowState) (proc : UInt32)
    (x y : Int) : Keeps w (setActiveWindowOrigin fb w proc x y) := by
  rw [setActiveWindowOrigin]
  split
  · exact .refl w
  simp only
  split
  · exact keeps_ensureGeometry fb w
  · rename_i slot _
    refine (keeps_ensureGeometry fb w).trans (.trans ?_ (keeps_drawWindows fb _))
    exact keeps_setWindow _ slot rfl rfl

theorem keeps_windowPutChar (w : WindowState) (proc : UInt32) (x y : Nat) (ch color : UInt8) :
    Keeps w (windowPutChar w proc x y ch color) := by
  rw [windowPutChar]
  split
  · exact .refl w
  rename_i slot _
  split
  · exact .refl w
  simp only
  split
  · exact .refl w
  · exact keeps_setWindow w slot rfl rfl

theorem keeps_windowSetCursor (w : WindowState) (proc : UInt32) (row column : Nat) (active : Bool) :
    Keeps w (windowSetCursor w proc row column active) := by
  rw [windowSetCursor]
  split
  · exact .refl w
  · rename_i slot _
    exact keeps_setWindow w slot rfl rfl

theorem keeps_updateResize (fb : FrameBuffer) (w : WindowState) (cursorX cursorY : UInt32) :
    Keeps w (updateResize fb w cursorX cursorY).2 := by
  simp only [updateResize]
  generalize resizeTarget fb w cursorX cursorY = target
  split
  · split
    · exact .refl w
    · refine .trans ?_ (keeps_drawWindows fb _)
      exact keeps_setWindow w w.resize.resizeSlot.toNat rfl rfl
  · exact .refl w

theorem keeps_updateDrag (fb : FrameBuffer) (w : WindowState) (cursorX cursorY : UInt32) :
    Keeps w (updateDrag fb w cursorX cursorY) := by
  simp only [updateDrag]
  split
  · refine .trans ?_ (keeps_drawWindows fb _)
    exact keeps_setWindow w w.drag.dragSlot.toNat rfl rfl
  · exact .refl w

/-! ## Focus -/

/-- The invariant where `slot` is about to come to the top: its window is in use
but need not be in the stack yet. -/
structure Raisable (w : WindowState) (slot : Nat) : Prop where
  array : w.zOrder.length = maxWindows
  room : w.zCount ≤ maxWindows
  nodup : (stack w).Nodup
  valid : windowSlotValid w slot = true
  inUse : ∀ i, i ∈ stack w ∨ i = slot ↔ windowSlotValid w i = true
  windowCount : w.windowCount = ((stack w).erase slot).length + 1
  owners : OwnersDistinct w
  modes : ModesSound w

theorem length_stack (harray : w.zOrder.length = maxWindows) (hroom : w.zCount ≤ maxWindows) :
    (stack w).length = w.zCount := by
  rw [stack, List.length_take, harray, Nat.min_eq_left hroom]

theorem Consistent.raisable (h : Consistent w) (hv : windowSlotValid w slot = true) :
    Raisable w slot where
  array := h.array
  room := h.room
  nodup := h.nodup
  valid := hv
  inUse i := by
    rw [h.inUse]
    exact ⟨fun hi => hi.elim id fun hi => hi ▸ hv, Or.inl⟩
  windowCount := by
    have hmem := (h.inUse slot).mpr hv
    rw [List.length_erase_of_mem hmem, Nat.sub_add_cancel (List.length_pos_of_mem hmem),
      length_stack h.array h.room, h.windowCount]
  owners := h.owners
  modes := h.modes

theorem Raisable.hasPlace (h : Raisable w slot) (hnot : slot ∉ stack w) :
    w.zCount < maxWindows := by
  have hnodup : (slot :: stack w).Nodup := List.nodup_cons.mpr ⟨hnot, h.nodup⟩
  have hsub : slot :: stack w ⊆ List.range maxWindows := by
    intro i hi
    refine List.mem_range.mpr (lt_of_valid ((h.inUse i).mp ?_))
    exact (List.mem_cons.mp hi).symm
  have hle := (List.subperm_of_subset hnodup hsub).length_le
  rw [List.length_cons, length_stack h.array h.room, List.length_range] at hle
  exact hle

theorem Raisable.push (h : Raisable w slot) : ∃ order,
    pushSlotToTop w slot =
      { w with zOrder := order, zCount := ((stack w).erase slot).length + 1 } ∧
    order.length = maxWindows ∧
    order.take (((stack w).erase slot).length + 1) = (stack w).erase slot ++ [slot] := by
  have hlen := length_stack h.array h.room
  have hle : w.zCount ≤ w.zOrder.length := h.array ▸ h.room
  rw [pushSlotToTop, if_neg (Nat.not_le_of_lt (lt_of_valid h.valid))]
  cases hpos : findStackPosition w slot with
  | none =>
    have hnot : slot ∉ stack w := (find_eq_none hle).mp hpos
    have hplace := h.hasPlace hnot
    rw [List.erase_of_not_mem hnot, hlen]
    refine ⟨w.zOrder.set w.zCount slot, if_pos hplace, by rw [List.length_set, h.array], ?_⟩
    exact take_set_count (h.array ▸ hplace) slot
  | some position =>
    obtain ⟨hlt, hat⟩ := find_getElem hle hpos
    have hmem : slot ∈ stack w := List.mem_of_getElem hat
    have hpos' : 0 < w.zCount := hlen ▸ List.length_pos_of_mem hmem
    have herase : ((stack w).erase slot).length + 1 = w.zCount := by
      rw [List.length_erase_of_mem hmem, hlen, Nat.sub_add_cancel hpos']
    rw [herase]
    refine ⟨_, rfl, by rw [List.length_set, length_shiftDown, h.array], ?_⟩
    have hlast : w.zCount - 1 < (shiftDown 0 w.zOrder position (w.zCount - 1)).length := by
      rw [length_shiftDown]
      omega
    have htake := take_set_count hlast slot
    rw [Nat.sub_add_cancel hpos', take_shiftDown_find hle h.nodup hpos] at htake
    exact htake

/-- **After a focus the slot is the top of a consistent stack.** -/
theorem Raisable.raised (h : Raisable w slot) :
    Consistent { pushSlotToTop w slot with activeSlot := slot } := by
  obtain ⟨order, heq, hlen, htake⟩ := h.push
  rw [heq]
  have hnodup : ((stack w).erase slot ++ [slot]).Nodup :=
    (List.perm_append_singleton slot _).nodup_iff.mpr
      (List.nodup_cons.mpr ⟨h.nodup.not_mem_erase, h.nodup.erase slot⟩)
  have hmem : ∀ i, i ∈ (stack w).erase slot ++ [slot] ↔ windowSlotValid w i = true := by
    intro i
    rw [← h.inUse, List.mem_append, List.mem_singleton]
    by_cases hi : i = slot
    · exact ⟨fun _ => .inr hi, fun _ => .inr hi⟩
    · rw [List.mem_erase_of_ne hi]
  have hcount := length_eq_inUseCount hnodup hmem
  rw [List.length_append, List.length_singleton] at hcount
  rw [← htake] at hnodup hmem
  refine ⟨hlen, ?_, hnodup, hmem, h.windowCount, hcount, ?_, h.owners,
    h.modes.same (fun _ => ⟨rfl, rfl⟩) rfl rfl⟩
  · have hshort := congrArg List.length htake
    rw [List.length_take, List.length_append, List.length_singleton, hlen] at hshort
    exact hshort ▸ Nat.min_le_right _ _
  · simp only
    rw [if_neg (Nat.succ_ne_zero _), Nat.add_sub_cancel, getD_of_take 0 htake]

theorem focusWindow_eq (fb : FrameBuffer) (hv : windowSlotValid w slot = true) :
    focusWindow fb w slot =
      let w := ensureGeometry fb w
      if w.geometryReady then
        let raised := { pushSlotToTop w slot with activeSlot := slot }
        if w.activeSlot ≠ slot then drawWindows fb raised else raised
      else w := by
  have hensure :
      (if w.geometryReady = true then w else ensureGeometry fb w) = ensureGeometry fb w := by
    split
    · rename_i hready
      rw [ensureGeometry, hready]
      rfl
    · rfl
  rw [focusWindow, if_pos hv]
  simp only [hensure]

theorem Raisable.focus (h : Raisable w slot) (fb : FrameBuffer) (hready : w.geometryReady = true) :
    Consistent (focusWindow fb w slot) := by
  have hensure : ensureGeometry fb w = w := by
    rw [ensureGeometry, hready]
    rfl
  rw [focusWindow_eq fb h.valid]
  simp only [hensure, hready, if_true]
  split
  · exact h.raised.keeps (keeps_drawWindows fb _)
  · exact h.raised

theorem Consistent.focus (h : Consistent w) (fb : FrameBuffer) (slot : Nat) :
    Consistent (focusWindow fb w slot) := by
  cases hv : windowSlotValid w slot with
  | false =>
    rw [focusWindow, hv]
    exact h
  | true =>
    have hk := keeps_ensureGeometry fb w
    have hvalid : windowSlotValid (ensureGeometry fb w) slot = true := hk.slots.valid ▸ hv
    have hr := (h.keeps hk).raisable hvalid
    rw [focusWindow_eq fb hv]
    simp only
    split
    · split
      · exact hr.raised.keeps (keeps_drawWindows fb _)
      · exact hr.raised
    · exact h.keeps hk

end ContinuumOS.Gui.Stacking
