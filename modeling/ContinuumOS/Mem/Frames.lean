import ContinuumOS.Lib.Bitmap
import Mathlib.Algebra.Group.Nat.Defs

/-! # Page frames

`PhysicalMemoryManager` of `src/kernel/memory.cpp`: a bitmap of the machine's
page frames right behind the kernel, and a count of the used ones beside it. In
every state that allocating and freeing can reach, the count is the number of
bits set, and a frame that is handed out is the lowest free one and not part of
the kernel or the bitmap. -/
namespace ContinuumOS.Mem.Frames
open ContinuumOS.Lib.Bitmap

/-- `PAGE_SIZE` -/
def pageSize : Nat := 4096

/-- `bitmap` holds the words from the address of the bitmap on. -/
structure PhysicalMemoryManager where
  bitmap : Nat → BitVec 32
  totalFrames : Nat
  usedFrames : Nat

namespace PhysicalMemoryManager

def setFrame (m : PhysicalMemoryManager) (frame : Nat) : PhysicalMemoryManager :=
  { m with bitmap := setBit m.bitmap frame }

def clearFrame (m : PhysicalMemoryManager) (frame : Nat) : PhysicalMemoryManager :=
  { m with bitmap := clearBit m.bitmap frame }

def testFrame (m : PhysicalMemoryManager) (frame : Nat) : Bool := bit m.bitmap frame

end PhysicalMemoryManager

/-! ## Starting -/

def alignUp (val align : BitVec 32) : BitVec 32 := (val + (align - 1)) &&& ~~~(align - 1)

/-- The number of frames of a machine with `memUpper` KB above the first MB. -/
def framesOf (memUpper : BitVec 32) : Nat := ((memUpper + 1024) * 1024).toNat / pageSize

/-- The number of words of a bitmap. -/
def bitmapSize (totalFrames : Nat) : Nat :=
  if totalFrames % 32 ≠ 0 then totalFrames / 32 + 1 else totalFrames / 32

/-- `next_free_physical` behind the bitmap; `kernelEnd` is the address of
`kernel_end`. -/
def nextFreePhysical (memUpper kernelEnd : BitVec 32) : BitVec 32 :=
  alignUp kernelEnd 4096 + BitVec.ofNat 32 (bitmapSize (framesOf memUpper) * 4)

/-- The bitmap cleared; behind it is memory of unknown contents. -/
def clearedBitmap (memory : Nat → BitVec 32) (size : Nat) : Nat → BitVec 32 :=
  fun i => if i < size then 0 else memory i

/-- One round of the loop over the reserved addresses. -/
def reserveFrame (m : PhysicalMemoryManager) (frame : Nat) : PhysicalMemoryManager :=
  { m.setFrame frame with usedFrames := (m.usedFrames + 1) % 2 ^ 32 }

/-- How many addresses 0, 4096, .. lie below `limit`. -/
def pagesBelow (limit : Nat) : Nat := (limit + (pageSize - 1)) / pageSize

/-- `initialize`; `memory` is what the words of the bitmap held before. -/
def initializeManager (memUpper kernelEnd : BitVec 32) (memory : Nat → BitVec 32) :
    PhysicalMemoryManager :=
  let totalFrames := framesOf memUpper
  let m : PhysicalMemoryManager :=
    ⟨clearedBitmap memory (bitmapSize totalFrames), totalFrames, 0⟩
  (List.range (pagesBelow (nextFreePhysical memUpper kernelEnd).toNat)).foldl reserveFrame m

/-! ## Allocating and freeing -/

/-- `none` stands for `UINT32_MAX`. -/
def firstFree (m : PhysicalMemoryManager) : Option Nat :=
  (List.range (bitmapSize m.totalFrames)).findSome? fun i =>
    if m.bitmap i ≠ 0xFFFFFFFF#32 then
      ((List.range 32).find? fun j => m.bitmap i &&& (1#32 <<< j) == 0#32).bind fun j =>
        if i * 32 + j < m.totalFrames then some (i * 32 + j) else none
    else none

/-- The address of the frame, 0 when there is none. -/
def allocateFrame (m : PhysicalMemoryManager) : Nat × PhysicalMemoryManager :=
  match firstFree m with
  | none => (0, m)
  | some frame => (frame * pageSize % 2 ^ 32, reserveFrame m frame)

def freeFrame (m : PhysicalMemoryManager) (address : Nat) : PhysicalMemoryManager :=
  { m.clearFrame (address / pageSize) with usedFrames := (m.usedFrames + (2 ^ 32 - 1)) % 2 ^ 32 }

def getMemorySize (m : PhysicalMemoryManager) : Nat := m.totalFrames * pageSize % 2 ^ 32

def getFreeFrames (m : PhysicalMemoryManager) : Nat :=
  (m.totalFrames + (2 ^ 32 - m.usedFrames)) % 2 ^ 32

/-- What may happen after `initialize`: frames are allocated, and frames that
were allocated are freed. `held` lists the frames that are out. -/
inductive Runs (start : PhysicalMemoryManager) : PhysicalMemoryManager → List Nat → Prop
  | start : Runs start start []
  | failed {m : PhysicalMemoryManager} {held : List Nat} (h : Runs start m held)
      (hnull : (allocateFrame m).1 = 0) : Runs start (allocateFrame m).2 held
  | allocated {m : PhysicalMemoryManager} {held : List Nat} (h : Runs start m held)
      (hframe : (allocateFrame m).1 ≠ 0) :
      Runs start (allocateFrame m).2 ((allocateFrame m).1 / pageSize :: held)
  | freed {m : PhysicalMemoryManager} {held : List Nat} {frame : Nat} (h : Runs start m held)
      (hheld : frame ∈ held) : Runs start (freeFrame m (frame * pageSize)) (held.erase frame)

/-- The memory of the machine ends below 4 GiB and holds the kernel and the
bitmap, in whole frames. -/
structure Fits (memUpper kernelEnd : BitVec 32) : Prop where
  below : (memUpper.toNat + 1024) * 1024 < 2 ^ 32
  inside : pagesBelow kernelEnd.toNat * pageSize + bitmapSize (framesOf memUpper) * 4 ≤
    framesOf memUpper * pageSize

/-! ## The numbers at the start -/

section

variable {memUpper kernelEnd : BitVec 32}

theorem Fits.framesOf_eq (h : Fits memUpper kernelEnd) :
    framesOf memUpper = (memUpper.toNat + 1024) / 4 ∧ framesOf memUpper < 2 ^ 20 := by
  have hbelow := h.below
  have hbytes : ((memUpper + 1024) * 1024).toNat = (memUpper.toNat + 1024) * 1024 := by
    rw [BitVec.toNat_mul, BitVec.toNat_add]
    change (memUpper.toNat + 1024) % 2 ^ 32 * 1024 % 2 ^ 32 = _
    omega
  rw [framesOf, hbytes, pageSize]
  omega

theorem le_bitmapSize (total : Nat) :
    total ≤ 32 * bitmapSize total ∧ 32 * bitmapSize total < total + 32 := by
  unfold bitmapSize
  split <;> omega

theorem alignUp_page {val : BitVec 32} (h : val.toNat + 4095 < 2 ^ 32) :
    (alignUp val 4096).toNat = pagesBelow val.toNat * pageSize := by
  have hmask : ~~~((4096 : BitVec 32) - 1) = 0xFFFFF000#32 := by decide
  have hsum : (val + ((4096 : BitVec 32) - 1)).toNat = val.toNat + 4095 := by
    rw [BitVec.toNat_add]
    change (val.toNat + 4095) % 2 ^ 32 = _
    omega
  rw [alignUp, hmask, toNat_and_pageMask, hsum, pagesBelow, pageSize]

theorem Fits.nextFreePhysical_eq (h : Fits memUpper kernelEnd) :
    (nextFreePhysical memUpper kernelEnd).toNat =
      pagesBelow kernelEnd.toNat * pageSize + bitmapSize (framesOf memUpper) * 4 := by
  obtain ⟨-, hframes⟩ := h.framesOf_eq
  have hinside := h.inside
  have hsize := le_bitmapSize (framesOf memUpper)
  simp only [pageSize] at hinside ⊢
  have hkernel : kernelEnd.toNat ≤ pagesBelow kernelEnd.toNat * 4096 := by
    simp only [pagesBelow, pageSize]
    omega
  rw [nextFreePhysical, BitVec.toNat_add, alignUp_page (by omega), BitVec.toNat_ofNat, pageSize]
  omega

theorem Fits.reserved (h : Fits memUpper kernelEnd) :
    0 < pagesBelow (nextFreePhysical memUpper kernelEnd).toNat ∧
      pagesBelow (nextFreePhysical memUpper kernelEnd).toNat ≤ framesOf memUpper := by
  obtain ⟨hframes, -⟩ := h.framesOf_eq
  have hinside := h.inside
  have hsize := le_bitmapSize (framesOf memUpper)
  rw [h.nextFreePhysical_eq]
  generalize bitmapSize (framesOf memUpper) = size at *
  simp only [pagesBelow, pageSize] at hinside ⊢
  omega

end

/-! ## The invariant -/

/-- Of `total` frames the first `reserved` ones and the ones in `held` are used;
the bitmap and the count say so. -/
structure Inv (total reserved : Nat) (m : PhysicalMemoryManager) (held : List Nat) : Prop where
  frames : m.totalFrames = total
  bits : ∀ f < 32 * bitmapSize total, bit m.bitmap f = true ↔ f < reserved ∨ f ∈ held
  used : m.usedFrames = (members m.bitmap total).card
  outside : ∀ f ∈ held, reserved ≤ f ∧ f < total
  nodup : held.Nodup

section

variable {total reserved : Nat} {m : PhysicalMemoryManager} {held : List Nat} {frame : Nat}

theorem card_members_le (words : Nat → BitVec 32) (total : Nat) :
    (members words total).card ≤ total := by
  have := Finset.card_filter_le (Finset.range total) fun n => bit words n = true
  rwa [Finset.card_range] at this

theorem Inv.used_reserveFrame (h : Inv total reserved m held) (ht : total < 2 ^ 20)
    (hf : frame < total) (hclear : bit m.bitmap frame = false) :
    (reserveFrame m frame).usedFrames = (members (reserveFrame m frame).bitmap total).card := by
  have hcard := card_members_setBit hf hclear
  have hle := card_members_le m.bitmap total
  change (m.usedFrames + 1) % 2 ^ 32 = (members (setBit m.bitmap frame) total).card
  rw [hcard, h.used]
  omega

theorem bit_reserveFrame (m : PhysicalMemoryManager) (frame f : Nat) :
    bit (reserveFrame m frame).bitmap f = true ↔ f = frame ∨ bit m.bitmap f = true := by
  rw [reserveFrame, PhysicalMemoryManager.setFrame, bit_setBit, Bool.or_eq_true, decide_eq_true_eq]

theorem Inv.reserveNext (h : Inv total reserved m []) (ht : total < 2 ^ 20)
    (hr : reserved < total) : Inv total (reserved + 1) (reserveFrame m reserved) [] := by
  have hsize := le_bitmapSize total
  have hclear : bit m.bitmap reserved = false := by
    rw [← Bool.not_eq_true, h.bits reserved (by omega)]
    simp
  refine ⟨h.frames, fun f hf => ?_, h.used_reserveFrame ht hr hclear, by simp, by simp⟩
  rw [bit_reserveFrame, h.bits f hf]
  simp only [List.not_mem_nil, or_false]
  omega

theorem inv_initializeManager {memUpper kernelEnd : BitVec 32} (h : Fits memUpper kernelEnd)
    (memory : Nat → BitVec 32) : Inv (framesOf memUpper)
      (pagesBelow (nextFreePhysical memUpper kernelEnd).toNat)
      (initializeManager memUpper kernelEnd memory) [] := by
  obtain ⟨-, hframes⟩ := h.framesOf_eq
  have hloop : ∀ n ≤ framesOf memUpper, Inv (framesOf memUpper) n ((List.range n).foldl
      reserveFrame ⟨clearedBitmap memory (bitmapSize (framesOf memUpper)), framesOf memUpper, 0⟩)
      [] := by
    intro n
    induction n with
    | zero =>
      intro _
      have hzero : ∀ f < 32 * bitmapSize (framesOf memUpper),
          bit (clearedBitmap memory (bitmapSize (framesOf memUpper))) f = false := by
        intro f hf
        rw [bit, clearedBitmap, if_pos (by omega)]
        exact BitVec.getLsbD_zero
      have hsize := le_bitmapSize (framesOf memUpper)
      refine ⟨rfl, fun f hf => ?_, ?_, by simp, by simp⟩
      · simp [hzero f hf]
      · refine (Finset.card_eq_zero.mpr (Finset.filter_eq_empty_iff.mpr fun f hf => ?_)).symm
        rw [Finset.mem_range] at hf
        exact Bool.not_eq_true _ ▸ hzero f (by omega)
    | succ n ih =>
      intro hn
      rw [List.range_succ, List.foldl_append]
      exact (ih (by omega)).reserveNext hframes (by omega)
  exact hloop _ h.reserved.2

theorem firstFree_eq (m : PhysicalMemoryManager) :
    firstFree m = firstClear m.bitmap m.totalFrames (bitmapSize m.totalFrames) := rfl

theorem Inv.firstFree_some (h : Inv total reserved m held) (hf : firstFree m = some frame) :
    frame < total ∧ bit m.bitmap frame = false ∧ (∀ g < frame, bit m.bitmap g = true) ∧
      reserved ≤ frame ∧ frame ∉ held := by
  obtain ⟨hlt, hclear, hbelow⟩ := firstClear_some ((firstFree_eq m).symm.trans hf)
  rw [h.frames] at hlt
  have hbits := h.bits frame (by have := le_bitmapSize total; omega)
  rw [hclear] at hbits
  simp only [Bool.false_eq_true, false_iff, not_or] at hbits
  exact ⟨hlt, hclear, hbelow, by omega, hbits.2⟩

theorem Inv.firstFree_none (h : Inv total reserved m held) (hf : firstFree m = none) :
    ∀ f < total, bit m.bitmap f = true := by
  intro f hlt
  have hsize := le_bitmapSize total
  refine firstClear_none ((firstFree_eq m).symm.trans hf) ?_ ?_
  · rw [h.frames]
    exact hlt
  · rw [h.frames]
    omega

theorem Inv.reserveFrame (h : Inv total reserved m held) (ht : total < 2 ^ 20)
    (hf : firstFree m = some frame) :
    Inv total reserved (Frames.reserveFrame m frame) (frame :: held) := by
  obtain ⟨hlt, hclear, -, hres, hnot⟩ := h.firstFree_some hf
  refine ⟨h.frames, fun f hf => ?_, h.used_reserveFrame ht hlt hclear, ?_,
    List.nodup_cons.mpr ⟨hnot, h.nodup⟩⟩
  · rw [bit_reserveFrame, h.bits f hf, List.mem_cons]
    tauto
  · intro f hf
    obtain rfl | hf := List.mem_cons.mp hf
    · exact ⟨hres, hlt⟩
    · exact h.outside f hf

/-- **Allocating.** The address is 0 when every frame is used; otherwise it is
that of the lowest free frame. -/
theorem Inv.allocateFrame (h : Inv total reserved m held) (ht : total < 2 ^ 20)
    (h0 : 0 < reserved) :
    ((Frames.allocateFrame m).1 = 0 ∧ (Frames.allocateFrame m).2 = m ∧ firstFree m = none) ∨
      ∃ frame, firstFree m = some frame ∧ (Frames.allocateFrame m).1 = frame * pageSize ∧
        (Frames.allocateFrame m).1 ≠ 0 ∧
        Inv total reserved (Frames.allocateFrame m).2 (frame :: held) := by
  unfold Frames.allocateFrame
  cases hf : firstFree m with
  | none => exact .inl ⟨rfl, rfl, rfl⟩
  | some frame =>
    obtain ⟨hlt, -, -, hres, -⟩ := h.firstFree_some hf
    have haddr : frame * pageSize % 2 ^ 32 = frame * pageSize := by
      simp only [pageSize]
      omega
    refine .inr ⟨frame, rfl, haddr, ?_, h.reserveFrame ht hf⟩
    change frame * pageSize % 2 ^ 32 ≠ 0
    rw [haddr]
    exact Nat.mul_ne_zero (by omega) (by decide)

theorem Inv.freeFrame (h : Inv total reserved m held) (ht : total < 2 ^ 20)
    (hf : frame ∈ held) :
    Inv total reserved (Frames.freeFrame m (frame * pageSize)) (held.erase frame) := by
  obtain ⟨hres, hlt⟩ := h.outside frame hf
  have hsize := le_bitmapSize total
  have hset : bit m.bitmap frame = true := (h.bits frame (by omega)).mpr (.inr hf)
  have hdiv : frame * pageSize / pageSize = frame := Nat.mul_div_cancel _ (by decide)
  unfold Frames.freeFrame
  rw [hdiv]
  refine ⟨h.frames, fun f hlt => ?_, ?_, fun f hf => h.outside f (List.mem_of_mem_erase hf),
    h.nodup.erase frame⟩
  · change bit (clearBit m.bitmap frame) f = true ↔ _
    rw [bit_clearBit, Bool.and_eq_true, decide_eq_true_eq, h.bits f hlt, h.nodup.mem_erase_iff]
    constructor
    · rintro ⟨hne, hr | hh⟩
      · exact .inl hr
      · exact .inr ⟨hne, hh⟩
    · rintro (hr | ⟨hne, hh⟩)
      · exact ⟨by omega, .inl hr⟩
      · exact ⟨hne, .inr hh⟩
  · have hcard := card_members_clearBit hlt hset
    have hle := card_members_le m.bitmap total
    change (m.usedFrames + (2 ^ 32 - 1)) % 2 ^ 32 = (members (clearBit m.bitmap frame) total).card
    rw [h.used]
    omega

theorem Inv.runs {start : PhysicalMemoryManager} (hs : Inv total reserved start [])
    (ht : total < 2 ^ 20) (h0 : 0 < reserved) (hr : Runs start m held) :
    Inv total reserved m held := by
  induction hr with
  | start => exact hs
  | failed _ hnull ih =>
    obtain ⟨-, hsame, -⟩ | ⟨frame, -, -, hne, -⟩ := ih.allocateFrame ht h0
    · rw [hsame]
      exact ih
    · exact absurd hnull hne
  | allocated _ hframe ih =>
    obtain ⟨hz, -, -⟩ | ⟨frame, -, haddr, -, hinv⟩ := ih.allocateFrame ht h0
    · exact absurd hz hframe
    · rw [haddr, Nat.mul_div_cancel _ (by decide : 0 < pageSize)]
      exact hinv
  | freed _ hheld ih => exact ih.freeFrame ht hheld

theorem Inv.getFreeFrames (h : Inv total reserved m held) (ht : total < 2 ^ 20) :
    getFreeFrames m = ((Finset.range total).filter fun f => m.testFrame f = false).card := by
  have hsplit := Finset.card_filter_add_card_filter_not
    (s := Finset.range total) (p := fun f => bit m.bitmap f = true)
  rw [Finset.card_range] at hsplit
  simp only [Bool.not_eq_true] at hsplit
  have hle := card_members_le m.bitmap total
  rw [Frames.getFreeFrames, h.frames, h.used]
  change (total + (2 ^ 32 - (members m.bitmap total).card)) % 2 ^ 32 = _
  unfold members PhysicalMemoryManager.testFrame at *
  omega

end

/-- **The frame allocator keeps its books.** On every machine below 4 GiB that
holds its kernel and its bitmap, after any allocations and frees of frames that
are out: `used_frames` is the number of bits set and `get_free_frames` the
number of bits clear, no bit past the last frame is set, and `allocate_frame`
fails exactly when every frame is used and else gives the lowest free frame,
which is not out and lies behind the kernel and the bitmap. -/
theorem frame_allocator_invariant {memUpper kernelEnd : BitVec 32} {memory : Nat → BitVec 32}
    (hfits : Fits memUpper kernelEnd) {m : PhysicalMemoryManager} {held : List Nat}
    (hr : Runs (initializeManager memUpper kernelEnd memory) m held) :
    m.totalFrames = framesOf memUpper ∧
    m.usedFrames = ((Finset.range m.totalFrames).filter fun f => m.testFrame f = true).card ∧
    getFreeFrames m = ((Finset.range m.totalFrames).filter fun f => m.testFrame f = false).card ∧
    (∀ f, m.totalFrames ≤ f → f < 32 * bitmapSize m.totalFrames → m.testFrame f = false) ∧
    ((allocateFrame m).1 = 0 ↔ ∀ f < m.totalFrames, m.testFrame f = true) ∧
    ((allocateFrame m).1 ≠ 0 → ∃ f, (allocateFrame m).1 = f * pageSize ∧ f < m.totalFrames ∧
      m.testFrame f = false ∧ (∀ g < f, m.testFrame g = true) ∧ f ∉ held ∧
      (nextFreePhysical memUpper kernelEnd).toNat ≤ f * pageSize) := by
  obtain ⟨-, ht⟩ := hfits.framesOf_eq
  obtain ⟨h0, hle⟩ := hfits.reserved
  have h := (inv_initializeManager hfits memory).runs ht h0 hr
  have hsize := le_bitmapSize (framesOf memUpper)
  rw [h.frames]
  refine ⟨rfl, h.used, h.getFreeFrames ht, fun f hf hlt => ?_, ?_, fun hne => ?_⟩
  · have hbits := h.bits f hlt
    have hnot : ¬ (f < pagesBelow (nextFreePhysical memUpper kernelEnd).toNat ∨ f ∈ held) := by
      rintro (hr | hh)
      · omega
      · have := (h.outside f hh).2
        omega
    exact Bool.eq_false_iff.mpr (mt hbits.mp hnot)
  · obtain ⟨hz, -, hnone⟩ | ⟨frame, hsome, -, hne, -⟩ := h.allocateFrame ht h0
    · exact iff_of_true hz (h.firstFree_none hnone)
    · obtain ⟨hlt, hclear, -⟩ := h.firstFree_some hsome
      refine iff_of_false hne fun hall => ?_
      have hset : bit m.bitmap frame = true := hall frame hlt
      rw [hclear] at hset
      cases hset
  · obtain ⟨hz, -, -⟩ | ⟨frame, hsome, haddr, -, -⟩ := h.allocateFrame ht h0
    · exact absurd hz hne
    · obtain ⟨hlt, hclear, hbelow, hres, hnot⟩ := h.firstFree_some hsome
      refine ⟨frame, haddr, hlt, hclear, hbelow, hnot, ?_⟩
      simp only [pagesBelow, pageSize] at hres ⊢
      omega

theorem fits_example : Fits 15360 0x200000 := ⟨by decide, by decide⟩

/-- 16 MiB with the kernel below 2 MiB. -/
def machine : PhysicalMemoryManager := initializeManager 15360 0x200000 fun _ => 0

/-- The machine after its first allocation. -/
def machineLessOne : PhysicalMemoryManager := (allocateFrame machine).2

/-- Two frames are allocated and the first one is freed: it is the next one again. -/
theorem frame_allocator_invariant_example :
    let m := freeFrame (allocateFrame machineLessOne).2 (513 * pageSize)
    getFreeFrames m = ((Finset.range m.totalFrames).filter fun f => m.testFrame f = false).card ∧
      (allocateFrame m).1 = 513 * pageSize := by
  have hfirst : (allocateFrame machine).1 = 513 * pageSize := by decide +kernel
  have hsecond : (allocateFrame machineLessOne).1 ≠ 0 := by decide +kernel
  have hagain : (allocateFrame (freeFrame (allocateFrame machineLessOne).2
      (513 * pageSize))).1 = 513 * pageSize := by decide +kernel
  have hout : 513 ∈ [(allocateFrame machineLessOne).1 / pageSize,
      (allocateFrame machine).1 / pageSize] := by
    rw [hfirst]
    simp [pageSize]
  have hrun : Runs machine machineLessOne [(allocateFrame machine).1 / pageSize] :=
    .allocated .start (by rw [hfirst]; decide)
  exact ⟨(frame_allocator_invariant fits_example (.freed (.allocated hrun hsecond) hout)).2.2.1,
    hagain⟩

end ContinuumOS.Mem.Frames
