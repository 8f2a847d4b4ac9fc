import ContinuumOS.Gui.Picture
import ContinuumOS.Gui.Frames

/-! # Clicks hit what is seen

Windows are drawn from the bottom to the top, the active one last, and are tested
from the top to the bottom, the active one first. A window is drawn in its whole
frame and nowhere else. -/
namespace ContinuumOS.Gui.Clicks
open ContinuumOS.Lib.Layers ContinuumOS.Gui.Geometry
open ContinuumOS.Gui.Framebuffer ContinuumOS.Gui.Pixels ContinuumOS.Gui.Windows
open ContinuumOS.Gui.Stacking ContinuumOS.Gui.Frames ContinuumOS.Gui.Drawing
open ContinuumOS.Gui.Desktop ContinuumOS.Lib.Runs
open ContinuumOS.Gui.Picture (Valid OnScreen shown inked run_shown)
open ContinuumOS.Gui.DoubleBuffer (unset)
open ContinuumOS.Sched.Delivery (Kernel booted)

/-- The window manager is consistent, its windows are legal, and the offsets of the
contents are set when they are used. -/
structure Managed (w : WindowState) : Prop where
  consistent : Consistent w
  windows : ∀ slot, windowSlotValid w slot = true → Snug (w.windows slot)
  geared : Geared w

/-- A position in a frame. -/
def InFrame (window : Window) (p : UInt32 × UInt32) : Prop :=
  (window.frameX.toNat ≤ p.1.toNat ∧ p.1.toNat < window.frameX.toNat + window.frameWidth.toNat) ∧
    window.frameY.toNat ≤ p.2.toNat ∧ p.2.toNat < window.frameY.toNat + window.frameHeight.toNat

instance (window : Window) (p : UInt32 × UInt32) : Decidable (InFrame window p) :=
  inferInstanceAs (Decidable (_ ∧ _))

/-- The window that a call is made for, where the call leaves ink. -/
def slotInk (c : Nat × Call) (p : UInt32 × UInt32) : Option Nat :=
  (inkOf c.2 p).map fun _ => c.1

/-- The window that `draw_windows` paints last. -/
def paintedLast (looks : Looks) (f : Framebuffer) (w : WindowState) (p : UInt32 × UInt32) :
    Option Nat := overlay slotInk (drawWindowsCalls looks f w) p

/-- A window that is in use and has the position in its frame. -/
def slotAt (w : WindowState) (p : UInt32 × UInt32) (slot : Nat) : Option Nat :=
  if windowSlotValid w slot = true ∧ InFrame (w.windows slot) p then some slot else none

section

variable {looks : Looks} {f : Framebuffer} {w : WindowState} {window : Window} {slot : Nat}
  {p : UInt32 × UInt32}

/-! ## What is drawn of a window -/

theorem Within.inFrame (h : Snug window) {call : Call} (hc : Within window call)
    (hink : inkOf call p ≠ none) : InFrame window p := by
  have hright := h.right
  have hbottom := h.bottom
  cases hc with
  | @rect x y width height color hin =>
    obtain ⟨h₁, h₂, h₃, h₄⟩ := hin
    have hp : inRect x y width height p.1 p.2 := by
      by_contra hout
      exact hink (if_neg hout)
    obtain ⟨h₅, h₆, h₇, h₈⟩ := (inRect_iff (by omega) (by omega)).mp hp
    exact ⟨⟨by omega, by omega⟩, by omega, by omega⟩
  | @glyph x y looks ch color hin =>
    obtain ⟨h₁, h₂, h₃, h₄⟩ := hin
    have hp : inRect x y fontWidth fontHeight p.1 p.2 := by
      by_contra hout
      exact hink (if_neg hout)
    obtain ⟨h₅, h₆, h₇, h₈⟩ := (inRect_iff (by omega) (by omega)).mp hp
    exact ⟨⟨by omega, by omega⟩, by omega, by omega⟩

theorem frame_inked (h : Snug window) (havailable : f.available = true)
    (hready : w.geometryReady = true) (active : Bool) (hp : InFrame window p) :
    ∃ call ∈ renderWindowCalls looks f w window active, inkOf call p ≠ none := by
  obtain ⟨hwidth, hheight, hmin, -, hlow, -⟩ := h.sizes
  have hright := h.right
  have hbottom := h.bottom
  have hshown : ¬ (f.available = false ∨ w.geometryReady = false) := by
    rw [havailable, hready]
    decide
  have hsize : ¬ (window.frameWidth = 0 ∨ window.frameHeight = 0) := by
    rintro (hzero | hzero)
    · rw [hzero, UInt32.toNat_zero] at hwidth
      omega
    · rw [hzero, UInt32.toNat_zero] at hheight
      omega
  refine ⟨rect window.frameX window.frameY window.frameWidth window.frameHeight
    (pack f frameBorderColor), ?_, ?_⟩
  · refine List.mem_append_left _ (List.mem_append_right _ ?_)
    rw [drawWindowFrame, if_neg hshown, if_neg hsize]
    exact List.mem_cons_self
  · have hin : inRect window.frameX window.frameY window.frameWidth window.frameHeight p.1 p.2 :=
      (inRect_iff hright hbottom).mpr ⟨hp.1.1, hp.1.2, hp.2.1, hp.2.2⟩
    show (if _ then some _ else none) ≠ none
    rw [if_pos hin]
    exact Option.some_ne_none _

/-- **A window is seen exactly in its frame.** -/
theorem render_overlay (h : Snug window) (hoff : Offsets w) (havailable : f.available = true)
    (hready : w.geometryReady = true) (active : Bool) (slot : Nat) :
    overlay slotInk ((renderWindowCalls looks f w window active).map (slot, ·)) p =
      if InFrame window p then some slot else none := by
  rw [overlay_map]
  split
  · rename_i hp
    refine overlay_const (fun call _ u hu => ?_) ?_
    · obtain ⟨-, -, hslot⟩ := Option.map_eq_some_iff.mp hu
      exact hslot.symm
    · obtain ⟨call, hcall, hink⟩ := frame_inked h havailable hready active hp
      exact ⟨call, hcall, fun hnone => hink (Option.map_eq_none_iff.mp hnone)⟩
  · rename_i hp
    refine overlay_eq_none.mpr fun call hcall => ?_
    rw [slotInk, Option.map_eq_none_iff]
    by_contra hink
    exact hp (Within.inFrame h (renderWindow_within h hoff active call hcall) hink)

/-! ## The order of drawing -/

theorem ensureGeometry_geared {fb : FrameBuffer} (hg : Geared w) (havailable : fb.available = true) :
    ensureGeometry fb w = { w with
      contentOffsetX := frameBorder + contentPaddingX
      contentOffsetY := frameBorder + titleBarHeight, geometryReady := true } := by
  rw [ensureGeometry, havailable, Bool.not_true, Bool.or_false]
  split
  · rename_i hready
    obtain ⟨hX, hY⟩ := hg hready
    rw [← hX, ← hY, ← hready]
  · rfl

theorem findSome?_filter {α β : Type} (q : α → Bool) (g : α → Option β) (l : List α) :
    (l.filter q).findSome? g = l.findSome? fun a => if q a = true then g a else none := by
  have hskip := findSome?_skip (fun a => !q a) g l
  simp only [Bool.not_not] at hskip
  rw [← hskip]
  refine congrArg (List.findSome? · l) (funext fun a => ?_)
  cases q a with
  | true => rfl
  | false => rfl

theorem drawnWindows_reverse (hc : Consistent w) :
    (drawnWindows w).reverse.findSome? (fun d => slotAt w p d.1) =
      (hitOrder w).findSome? (slotAt w p) := by
  rw [drawnWindows, hitOrder, List.reverse_append, List.findSome?_append, List.findSome?_append]
  have hactive : (if validInt w w.activeSlot = true then [(w.activeSlot.toNat, true)]
        else []).reverse.findSome? (fun d => slotAt w p d.1) =
      (if 0 ≤ w.activeSlot then [w.activeSlot.toNat] else []).findSome? (slotAt w p) := by
    by_cases hpos : 0 ≤ w.activeSlot
    · cases hvalid : windowSlotValid w w.activeSlot.toNat with
      | true =>
        rw [if_pos hpos, validInt, decide_eq_true hpos, hvalid]
        rfl
      | false =>
        rw [if_pos hpos, validInt, decide_eq_true hpos, hvalid, List.findSome?_singleton, slotAt,
          hvalid, if_neg fun h : false = true ∧ _ => Bool.false_ne_true h.1]
        rfl
    · rw [if_neg hpos, validInt, decide_eq_false hpos, Bool.false_and]
      rfl
  have hothers : (((List.range w.zCount).map fun i => w.zOrder.getD i 0).filter fun slot =>
        windowSlotValid w slot && (slot : Int) != w.activeSlot).reverse.findSome? (slotAt w p) =
      ((stack w).reverse.filter fun slot : Nat => !decide ((slot : Int) = w.activeSlot)).findSome?
        (slotAt w p) := by
    rw [← stack_eq_map (hc.array ▸ hc.room), ← List.filter_reverse, findSome?_filter,
      findSome?_filter]
    refine congrArg (List.findSome? · _) (funext fun slot => ?_)
    cases hvalid : windowSlotValid w slot with
    | true => rfl
    | false =>
      rw [slotAt, hvalid, if_neg fun h : false = true ∧ _ => Bool.false_ne_true h.1, ite_self,
        ite_self]
  rw [hactive, ← List.map_reverse, List.findSome?_map]
  congr 1

theorem valid_of_drawn {d : Nat × Bool} (hd : d ∈ drawnWindows w) :
    windowSlotValid w d.1 = true := by
  rcases List.mem_append.mp hd with hd | hd
  · obtain ⟨slot, hslot, rfl⟩ := List.mem_map.mp hd
    exact (Bool.and_eq_true_iff.mp (List.mem_filter.mp hslot).2).1
  · split at hd
    · rename_i hvalid
      obtain rfl := List.mem_singleton.mp hd
      exact (Bool.and_eq_true_iff.mp hvalid).2
    · cases hd

theorem paintedLast_eq (hm : Managed w) (havailable : f.available = true) :
    paintedLast looks f w p = (hitOrder w).findSome? (slotAt w p) := by
  have hc := hm.consistent
  rw [paintedLast, drawWindowsCalls]
  by_cases hz : w.zCount = 0
  · have hactive := hc.active
    rw [if_pos hz] at hactive
    rw [if_pos (.inr hz), hitOrder, hactive, stack, hz]
    rfl
  have hshown : ¬ (f.available = false ∨ w.zCount = 0) := not_or.mpr ⟨by
    rw [havailable]
    exact Bool.noConfusion, hz⟩
  rw [if_neg hshown, ensureGeometry_geared hm.geared havailable]
  dsimp only
  rw [overlay_flatMap]
  refine Eq.trans ?_ (drawnWindows_reverse hc)
  show overlay _ (drawnWindows w) p = overlay (fun d p => slotAt w p d.1) (drawnWindows w) p
  refine overlay_congr fun d hd => ?_
  have hvalid := valid_of_drawn hd
  refine (render_overlay (hm.windows d.1 hvalid) ⟨rfl, rfl⟩ havailable rfl d.2 d.1).trans ?_
  refine ite_congr (propext ⟨fun hp => ⟨hvalid, hp⟩, And.right⟩) (fun _ => rfl) fun _ => rfl

theorem drawWindowsCalls_within (hm : Managed w) {c : Nat × Call}
    (hc : c ∈ drawWindowsCalls looks f w) : ∃ window, Snug window ∧ Within window c.2 := by
  rw [drawWindowsCalls] at hc
  split at hc
  · cases hc
  rename_i hshown
  have havailable : f.available = true := Bool.eq_true_of_not_eq_false (not_or.mp hshown).1
  rw [ensureGeometry_geared hm.geared havailable] at hc
  obtain ⟨d, hd, hc⟩ := List.mem_flatMap.mp hc
  obtain ⟨call, hcall, rfl⟩ := List.mem_map.mp hc
  have hs := hm.windows d.1 (valid_of_drawn (w := w) hd)
  exact ⟨w.windows d.1, hs, renderWindow_within hs ⟨rfl, rfl⟩ d.2 call hcall⟩

/-- **What is painted last is what the screen shows**, and where no window is painted
the picture stays. -/
theorem drawWindows_shown (hm : Managed w) (hv : Valid f) (hp : OnScreen f p) :
    shown (f.run ((drawWindowsCalls looks f w).map Prod.snd)) p =
        inked f (overlay inkOf ((drawWindowsCalls looks f w).map Prod.snd) p) (shown f p) ∧
      (overlay inkOf ((drawWindowsCalls looks f w).map Prod.snd) p = none ↔
        paintedLast looks f w p = none) := by
  refine ⟨run_shown (fun call hcall => ?_) hv hp, ?_⟩
  · obtain ⟨c, hc, rfl⟩ := List.mem_map.mp hcall
    exact drawWindowsCalls_within hm hc
  · rw [overlay_map, overlay_eq_none, paintedLast, overlay_eq_none]
    exact forall₂_congr fun c _ => Option.map_eq_none_iff.symm

/-! ## Testing -/

theorem inFrame_iff (h : Snug window) : InFrame window p ↔
    ¬ (p.1 < window.frameX ∨ p.2 < window.frameY) ∧
      ¬ (window.frameWidth ≤ p.1 - window.frameX ∨ window.frameHeight ≤ p.2 - window.frameY) := by
  have hright := h.right
  have hbottom := h.bottom
  rw [InFrame, not_or, not_or, UInt32.not_lt, UInt32.not_lt, UInt32.not_le, UInt32.not_le]
  constructor
  · rintro ⟨⟨h₁, h₂⟩, h₃, h₄⟩
    refine ⟨⟨le_iff.mpr h₁, le_iff.mpr h₃⟩, ?_, ?_⟩
    · rw [lt_iff, UInt32.toNat_sub_of_le _ _ (le_iff.mpr h₁)]
      omega
    · rw [lt_iff, UInt32.toNat_sub_of_le _ _ (le_iff.mpr h₃)]
      omega
  · rintro ⟨⟨h₁, h₃⟩, h₂, h₄⟩
    rw [lt_iff, UInt32.toNat_sub_of_le _ _ h₁] at h₂
    rw [lt_iff, UInt32.toNat_sub_of_le _ _ h₃] at h₄
    have h₁ := le_iff.mp h₁
    have h₃ := le_iff.mp h₃
    exact ⟨⟨h₁, by omega⟩, h₃, by omega⟩

/-- What is hit is the window, and on its close button in the square of the test. -/
theorem testWindow_eq (h : Snug window) :
    (testWindow window slot p.1 p.2).map (fun hit => (hit.slot, hit.onCloseButton)) =
      if InFrame window p then
        some ((slot : Int), onCloseButton window (p.1 - window.frameX) (p.2 - window.frameY))
      else none := by
  rw [testWindow]
  by_cases hp : InFrame window p
  · obtain ⟨hbefore, hbehind⟩ := (inFrame_iff h).mp hp
    rw [if_neg hbefore, if_pos hp]
    dsimp only
    rw [if_neg hbehind]
    split
    · rename_i hclose
      rw [hclose]
      rfl
    rename_i hclose
    rw [Bool.eq_false_of_not_eq_true hclose]
    split
    · rfl
    · rfl
  · rw [if_neg hp]
    by_cases hbefore : p.1 < window.frameX ∨ p.2 < window.frameY
    · rw [if_pos hbefore]
      rfl
    · have hbehind : window.frameWidth ≤ p.1 - window.frameX ∨
          window.frameHeight ≤ p.2 - window.frameY := by
        by_contra hnot
        exact hp ((inFrame_iff h).mpr ⟨hbefore, hnot⟩)
      rw [if_neg hbefore]
      dsimp only
      rw [if_pos hbehind]
      rfl

theorem onCloseButton_iff (looks : Looks) (f : Framebuffer) (h : Snug window)
    (hp : InFrame window p) :
    onCloseButton window (p.1 - window.frameX) (p.2 - window.frameY) = true ↔
      ∃ call ∈ closeSquare looks f window, inkOf call p ≠ none := by
  obtain ⟨hlt, hX, hY⟩ := h.close
  obtain ⟨-, -, hw, -⟩ := h.inside
  obtain ⟨hwidth, hheight, hmin, -, hlow, -⟩ := h.sizes
  obtain ⟨⟨h₁, h₂⟩, h₃, h₄⟩ := hp
  have hright := h.right
  have hbottom := h.bottom
  have hsize : closeButtonSize.toNat = 14 := rfl
  have hone := UInt32.toNat_one
  have hrelX := UInt32.toNat_sub_of_le _ _ (le_iff.mpr h₁)
  have hrelY := UInt32.toNat_sub_of_le _ _ (le_iff.mpr h₃)
  -- both ways, the square goes from 24 pixels before the right border on, 7 below the top
  have hsquare : (∃ call ∈ closeSquare looks f window, inkOf call p ≠ none) ↔
      window.frameX.toNat + (window.frameWidth.toNat - 24) ≤ p.1.toNat ∧
        p.1.toNat < window.frameX.toNat + (window.frameWidth.toNat - 24) + 14 ∧
        window.frameY.toNat + 7 ≤ p.2.toNat ∧ p.2.toNat < window.frameY.toNat + 7 + 14 := by
    have hrow : ∀ row < 14, (inRect (closeX window) (closeY window + UInt32.ofNat row)
        closeButtonSize 1 p.1 p.2 ↔ window.frameX.toNat + (window.frameWidth.toNat - 24) ≤
          p.1.toNat ∧ p.1.toNat < window.frameX.toNat + (window.frameWidth.toNat - 24) + 14 ∧
          p.2.toNat = window.frameY.toNat + 7 + row) := by
      intro row hrow
      have hofNat := @toNat_ofNat_lt row (by omega)
      have hy := @toNat_offset _ (UInt32.ofNat row) _ _ hY (by omega)
      rw [inRect_iff (by omega) (by omega), hX, hy, hsize, hone, hofNat]
      omega
    rw [closeSquare, if_pos hlt]
    constructor
    · rintro ⟨call, hcall, hink⟩
      obtain ⟨row, hmem, rfl⟩ := List.mem_map.mp hcall
      have hlt := List.mem_range.mp hmem
      have hin := (hrow row hlt).mp (by
        by_contra hout
        exact hink (if_neg hout))
      omega
    · rintro ⟨hleft, hend, htop, hlast⟩
      refine ⟨_, List.mem_map.mpr ⟨p.2.toNat - (window.frameY.toNat + 7), List.mem_range.mpr
        (by omega), rfl⟩, ?_⟩
      have hin := (hrow (p.2.toNat - (window.frameY.toNat + 7)) (by omega)).mpr
        ⟨hleft, hend, by omega⟩
      show (if _ then some _ else none) ≠ none
      rw [if_pos hin]
      exact Option.some_ne_none _
  have hborder : frameBorder.toNat = 2 := rfl
  have hmargin : closeButtonMargin.toNat = 8 := rfl
  have hstart : (frameBorder + (inner window.frameWidth - closeButtonMargin -
      closeButtonSize)).toNat = window.frameWidth.toNat - 24 := by
    have hfirst : closeButtonMargin ≤ inner window.frameWidth := by
      rw [le_iff]
      omega
    have hbefore := UInt32.toNat_sub_of_le _ _ hfirst
    have hsecond : closeButtonSize ≤ inner window.frameWidth - closeButtonMargin := by
      rw [le_iff]
      omega
    rw [UInt32.toNat_add, UInt32.toNat_sub_of_le _ _ hsecond, Nat.mod_eq_of_lt (by omega)]
    omega
  rw [hsquare, onCloseButton]
  have hinner : (if 2 * frameBorder < window.frameWidth then window.frameWidth - 2 * frameBorder
      else 0) = inner window.frameWidth := rfl
  rw [hinner, if_pos hlt]
  generalize hfrom : frameBorder + (inner window.frameWidth - closeButtonMargin -
    closeButtonSize) = fromX at hstart
  have htall : closeButtonSize < titleBarHeight := by decide
  rw [if_pos htall]
  generalize hfromY : frameBorder + (titleBarHeight - closeButtonSize) / 2 = fromY
  have hseven : fromY.toNat = 7 := hfromY ▸ rfl
  have hsumX : (fromX + closeButtonSize).toNat = fromX.toNat + 14 := by
    rw [UInt32.toNat_add, hsize, Nat.mod_eq_of_lt (by omega)]
  have hsumY : (fromY + closeButtonSize).toNat = fromY.toNat + 14 := by
    rw [UInt32.toNat_add, hsize, Nat.mod_eq_of_lt (by omega)]
  simp only [Bool.and_eq_true, decide_eq_true_eq, le_iff, lt_iff, hsumX, hsumY, hrelX, hrelY,
    hstart, hseven]
  rw [lt_iff] at hlt
  omega

theorem hitTest_drawn (hm : Managed w) {fb : FrameBuffer} (havailable : fb.available = true) :
    hitTestWindow fb (drawWindows fb w) p.1 p.2 =
      ((hitOrder w).findSome? (testSlot w p.1 p.2)).getD .none := by
  have hc := hm.consistent
  by_cases hz : w.zCount = 0
  · have hactive := hc.active
    rw [if_pos hz] at hactive
    have hdrawn : drawWindows fb w = w := by
      rw [drawWindows, hz, beq_self_eq_true, Bool.or_true]
      rfl
    rw [hdrawn, hitOrder, hactive, stack, hz, hitTestWindow, hz, beq_self_eq_true, Bool.or_true]
    rfl
  have hsame := same_drawWindows fb w
  have hkeeps := keeps_drawWindows fb w
  have hready : (drawWindows fb w).geometryReady = true :=
    drawWindows_ready (.inr ⟨havailable, hz⟩)
  rw [hitTestWindow_eq (hc.keeps hkeeps) havailable hready]
  have horder : hitOrder (drawWindows fb w) = hitOrder w := by
    rw [hitOrder, hitOrder, stack, stack, hkeeps.activeSlot, hkeeps.zOrder, hkeeps.zCount]
  have htest : testSlot (drawWindows fb w) p.1 p.2 = testSlot w p.1 p.2 := by
    funext slot
    have hbare : testWindow (bare ((drawWindows fb w).windows slot)) slot p.1 p.2 =
        testWindow (bare (w.windows slot)) slot p.1 p.2 := by rw [hsame.windows slot]
    rw [testSlot, testSlot, hsame.valid]
    exact ite_congr rfl (fun _ => hbare) fun _ => rfl
  rw [horder, htest]

theorem testSlot_eq (hm : Managed w) (slot : Nat) :
    (testSlot w p.1 p.2 slot).map (fun hit => (hit.slot, hit.onCloseButton)) =
      (slotAt w p slot).map fun slot : Nat => ((slot : Int), onCloseButton (w.windows slot)
        (p.1 - (w.windows slot).frameX) (p.2 - (w.windows slot).frameY)) := by
  rw [testSlot, slotAt]
  cases hvalid : windowSlotValid w slot with
  | true =>
    rw [if_pos rfl, testWindow_eq (hm.windows slot hvalid)]
    by_cases hp : InFrame (w.windows slot) p
    · rw [if_pos hp, if_pos ⟨rfl, hp⟩]
      rfl
    · rw [if_neg hp, if_neg fun h : true = true ∧ _ => hp h.2]
      rfl
  | false =>
    rw [if_neg Bool.false_ne_true, if_neg fun h : false = true ∧ _ => Bool.false_ne_true h.1]
    rfl

/-! ## The invariant -/

theorem managed_of_framed {fb : FrameBuffer} (hr : Roomy fb) (hc : Consistent w)
    (h : Framed fb True w) : Managed w := by
  refine ⟨hc, fun slot hv => ?_, h.offsets trivial⟩
  obtain ⟨hlegal, hwidth, hheight, hright, hbottom⟩ := h.windows slot hv
  have hleft := hr.left
  have htop := hr.top
  exact ⟨hlegal, hwidth, hheight, by omega, by omega⟩

theorem run_managed {fb : FrameBuffer} (hr : Roomy fb) (kernel : Kernel) (hg : Geared w)
    (initialProc : UInt32) {acts : List Act} (ha : ∀ act ∈ acts, Admissible fb act) :
    ∀ t ∈ visited (fun d act => some (step fb d act)) acts ⟨kernel, init fb w initialProc⟩,
      Managed t.windows := by
  intro t ht
  obtain ⟨hc, hframed⟩ := @run_framed fb True hr kernel w (fun _ => hg) initialProc acts ha t ht
  exact managed_of_framed hr hc hframed

/-- **Clicks hit what is seen**: after the windows are drawn, whatever their order and
overlaps, the test of a position gives the window painted last there, or none where
none is painted, and its close button exactly in the square that was filled for it.
The test before the drawing gives the same, where the geometry is known. -/
theorem clicks_hit_what_is_seen (hm : Managed w) (looks : Looks) (f : Framebuffer)
    (p : UInt32 × UInt32) :
    (hitTestWindow (screenOf f) (drawWindows (screenOf f) w) p.1 p.2).slot =
        (paintedLast looks f w p).elim invalidSlot (fun slot => (slot : Int)) ∧
      ((hitTestWindow (screenOf f) (drawWindows (screenOf f) w) p.1 p.2).onCloseButton = true ↔
        ∃ slot, paintedLast looks f w p = some slot ∧
          ∃ call ∈ closeSquare looks f (w.windows slot), inkOf call p ≠ none) ∧
      (w.geometryReady = true → hitTestWindow (screenOf f) w p.1 p.2 =
        hitTestWindow (screenOf f) (drawWindows (screenOf f) w) p.1 p.2) := by
  by_cases havailable : f.available = true
  swap
  · have hoff : f.available = false := Bool.eq_false_of_not_eq_true havailable
    have hmiss : ∀ v, hitTestWindow (screenOf f) v p.1 p.2 = .none := by
      intro v
      rw [hitTestWindow, screenOf, hoff]
      rfl
    have hunseen : paintedLast looks f w p = none := by
      rw [paintedLast, drawWindowsCalls, if_pos (.inl hoff), overlay_nil]
    rw [hmiss, hmiss, hunseen]
    refine ⟨rfl, ⟨fun h => absurd h Bool.false_ne_true, ?_⟩, fun _ => rfl⟩
    rintro ⟨_, h, -⟩
    cases h
  have hscreen : (screenOf f).available = true := havailable
  have hfound : ((hitOrder w).findSome? (testSlot w p.1 p.2)).map
      (fun hit => (hit.slot, hit.onCloseButton)) =
      ((hitOrder w).findSome? (slotAt w p)).map fun slot : Nat => ((slot : Int),
        onCloseButton (w.windows slot) (p.1 - (w.windows slot).frameX)
          (p.2 - (w.windows slot).frameY)) := by
    rw [List.map_findSome?, List.map_findSome?]
    exact congrArg (List.findSome? · _) (funext fun slot => testSlot_eq hm slot)
  rw [hitTest_drawn hm hscreen, paintedLast_eq hm havailable]
  refine ⟨?_, ?_, fun hready => hitTestWindow_eq hm.consistent hscreen hready p.1 p.2⟩
  · cases hslot : (hitOrder w).findSome? (slotAt w p) with
    | none =>
      rw [hslot, Option.map_none, Option.map_eq_none_iff] at hfound
      rw [hfound]
      rfl
    | some slot =>
      rw [hslot, Option.map_some] at hfound
      obtain ⟨hit, hhit, hboth⟩ := Option.map_eq_some_iff.mp hfound
      rw [hhit]
      exact congrArg Prod.fst hboth
  · cases hslot : (hitOrder w).findSome? (slotAt w p) with
    | none =>
      rw [hslot, Option.map_none, Option.map_eq_none_iff] at hfound
      rw [hfound]
      refine ⟨fun h => absurd h Bool.false_ne_true, ?_⟩
      rintro ⟨_, h, -⟩
      cases h
    | some slot =>
      rw [hslot, Option.map_some] at hfound
      obtain ⟨hit, hhit, hboth⟩ := Option.map_eq_some_iff.mp hfound
      obtain ⟨i, -, hat⟩ := List.exists_of_findSome?_eq_some hslot
      rw [slotAt] at hat
      split at hat
      swap
      · cases hat
      rename_i hin
      obtain rfl := Option.some.inj hat
      have hsquare := onCloseButton_iff looks f (hm.windows i hin.1) hin.2
      have hclose : hit.onCloseButton = onCloseButton (w.windows i) (p.1 - (w.windows i).frameX)
          (p.2 - (w.windows i).frameY) := congrArg Prod.snd hboth
      rw [← hclose] at hsquare
      rw [hhit]
      refine hsquare.trans ⟨fun h => ⟨i, rfl, h⟩, ?_⟩
      rintro ⟨j, hj, h⟩
      obtain rfl := Option.some.inj hj
      exact h

end

/-- A mode of 1024 by 768 pixels of four bytes. -/
def largeMode : Framebuffer :=
  { unset with
    info := ⟨1024, 768, 4096, 32, 0xE0000000⟩, available := true, bytesPerPixel := 4
    frameStrideBytes := 3145728 }

/-- Characters are blocks, and processes have no names. -/
def plainLooks : Looks := ⟨fun _ _ => 0xFF, fun _ => ⟨200, 60, 70⟩, fun _ => none⟩

/-- The window of the first process and one of a second process above it. -/
def twoWindows : WindowState :=
  requestNewWindow (screenOf largeMode) (init (screenOf largeMode) bootWindows 0x1000) 0x2000

/-- Where the two windows overlap, the upper one is seen and hit. -/
theorem clicks_hit_what_is_seen_overlapping :
    InFrame (twoWindows.windows 0) (300, 300) ∧ InFrame (twoWindows.windows 1) (300, 300) ∧
      paintedLast plainLooks largeMode twoWindows (300, 300) = some 1 := by
  have hr : Roomy (screenOf largeMode) := ⟨rfl, by decide, by decide, by decide, by decide⟩
  have hm : Managed twoWindows := @run_managed bootWindows _ hr (booted [])
    (fun h => absurd h Bool.false_ne_true) 0x1000 [.requestNewWindow 0x2000]
    (fun act h => by
      obtain rfl := List.mem_singleton.mp h
      trivial) ⟨booted [], twoWindows⟩ (visited_of_step rfl (start_mem_visited _ _))
  have hslot : (hitTestWindow (screenOf largeMode) (drawWindows (screenOf largeMode) twoWindows)
      300 300).slot = 1 := by decide +kernel
  have hpainted := (clicks_hit_what_is_seen hm plainLooks largeMode (300, 300)).1
  rw [hslot] at hpainted
  refine ⟨by decide +kernel, by decide +kernel, ?_⟩
  cases hlast : paintedLast plainLooks largeMode twoWindows (300, 300) with
  | none =>
    rw [hlast] at hpainted
    exact absurd hpainted (by decide)
  | some slot =>
    rw [hlast] at hpainted
    exact congrArg some (Int.natCast_inj.mp hpainted.symm)

end ContinuumOS.Gui.Clicks
