import ContinuumOS.Heap.Layout
import ContinuumOS.Mem.Frames

/-! # Frames and the kernel heap

The frame allocator reserves the kernel and its bitmap; the heap of
`src/kernel/heap.cpp` lies at a fixed address of which the allocator knows
nothing. Frames are handed out upwards from the end of the bitmap, so after
enough calls they come from the heap. -/
namespace ContinuumOS.Mem.Regions
open ContinuumOS.Lib.Bitmap ContinuumOS.Mem.Frames
open ContinuumOS.Heap.Model (kernelHeapStart kernelHeapSize)
open ContinuumOS.Heap.Layout (heapEnd)

/-- The frame at an address, which is not `NULL`, shares bytes with the heap. -/
def OverlapsHeap (address : Nat) : Prop :=
  address ≠ 0 ∧ address < heapEnd ∧ kernelHeapStart < address + pageSize

/-- What a number of `allocate_frame` calls in a row return. -/
def allocateMany : Nat → PhysicalMemoryManager → List Nat
  | 0, _ => []
  | calls + 1, m => (allocateFrame m).1 :: allocateMany calls (allocateFrame m).2

/-- The used frames are the first `used` ones. -/
structure Prefix (total used : Nat) (m : PhysicalMemoryManager) : Prop where
  frames : m.totalFrames = total
  bits : ∀ f < 32 * bitmapSize total, bit m.bitmap f = true ↔ f < used

section

variable {total used : Nat} {m : PhysicalMemoryManager}

theorem Prefix.reserveFrame (h : Prefix total used m) :
    Prefix total (used + 1) (reserveFrame m used) := by
  refine ⟨h.frames, fun f hf => ?_⟩
  rw [bit_reserveFrame, h.bits f hf]
  omega

theorem prefix_initializeManager (memUpper kernelEnd : BitVec 32) (memory : Nat → BitVec 32) :
    Prefix (framesOf memUpper) (pagesBelow (nextFreePhysical memUpper kernelEnd).toNat)
      (initializeManager memUpper kernelEnd memory) := by
  rw [initializeManager]
  generalize pagesBelow (nextFreePhysical memUpper kernelEnd).toNat = n
  induction n with
  | zero =>
    refine ⟨rfl, fun f hf => ?_⟩
    change bit (clearedBitmap memory _) f = true ↔ _
    rw [bit, clearedBitmap, if_pos (by omega)]
    simp
  | succ n ih =>
    simp only [List.range_succ, List.foldl_append]
    exact ih.reserveFrame

theorem Prefix.allocateFrame (h : Prefix total used m) (ht : total ≤ 2 ^ 20) :
    ((allocateFrame m).1 = if used < total then used * pageSize else 0) ∧
      Prefix total (if used < total then used + 1 else used) (Frames.allocateFrame m).2 := by
  have hsize := le_bitmapSize total
  unfold Frames.allocateFrame
  cases hf : firstFree m with
  | none =>
    have hfull : ¬ used < total := by
      intro hlt
      have hset : bit m.bitmap used = true := firstClear_none ((firstFree_eq m).symm.trans hf)
        (by rw [h.frames]; exact hlt) (by rw [h.frames]; omega)
      rw [h.bits used (by omega)] at hset
      omega
    simp only [if_neg hfull, h, and_self]
  | some frame =>
    obtain ⟨hlt, hclear, hbelow⟩ := firstClear_some ((firstFree_eq m).symm.trans hf)
    rw [h.frames] at hlt
    -- the frame is free and those before it are not
    have hge : ¬ frame < used := by
      rw [← h.bits frame (by omega), hclear]
      decide
    have hle : ¬ used < frame := by
      intro hused
      have hset := hbelow used hused
      rw [h.bits used (by omega)] at hset
      omega
    obtain rfl : frame = used := by omega
    have haddr : frame * pageSize % 2 ^ 32 = frame * pageSize := by
      simp only [pageSize]
      omega
    simp only [if_pos hlt, haddr, h.reserveFrame, and_self]

theorem Prefix.iterate (ht : total ≤ 2 ^ 20) (n : Nat) : ∀ {used : Nat} {m : PhysicalMemoryManager},
    Prefix total used m → used + n ≤ total →
      Prefix total (used + n) ((fun m => (Frames.allocateFrame m).2)^[n] m) := by
  induction n with
  | zero => exact fun h _ => h
  | succ n ih =>
    intro used m h hle
    have hnext := (h.allocateFrame ht).2
    rw [if_pos (by omega)] at hnext
    rw [Function.iterate_succ_apply, ← Nat.add_assoc, Nat.add_right_comm]
    exact ih hnext (by omega)

/-- **What the calls return**: the frames from the first free one on, in
order, and `NULL` when there are no more. -/
theorem Prefix.mem_allocateMany (ht : total ≤ 2 ^ 20) {address : Nat} (ha : address ≠ 0)
    (calls : Nat) : ∀ {used : Nat} {m : PhysicalMemoryManager}, Prefix total used m →
      (address ∈ allocateMany calls m ↔
        ∃ f, used ≤ f ∧ f < used + calls ∧ f < total ∧ address = f * pageSize) := by
  induction calls with
  | zero =>
    intro used m _
    simp only [allocateMany, List.not_mem_nil, false_iff]
    rintro ⟨f, h₁, h₂, -⟩
    omega
  | succ calls ih =>
    intro used m h
    obtain ⟨haddr, hnext⟩ := h.allocateFrame ht
    rw [allocateMany, List.mem_cons, ih hnext, haddr]
    by_cases hlt : used < total
    · simp only [if_pos hlt]
      constructor
      · rintro (rfl | ⟨f, h₁, h₂, h₃, h₄⟩)
        · exact ⟨used, by omega, by omega, hlt, rfl⟩
        · exact ⟨f, by omega, by omega, h₃, h₄⟩
      · rintro ⟨f, h₁, h₂, h₃, h₄⟩
        obtain rfl | hne := eq_or_ne f used
        · exact .inl h₄
        · exact .inr ⟨f, by omega, by omega, h₃, h₄⟩
    · simp only [if_neg hlt, ha, false_or]
      constructor
      · rintro ⟨f, h₁, -, h₃, -⟩
        omega
      · rintro ⟨f, h₁, -, h₃, -⟩
        omega

end

/-- The kernel and the bitmap end at the heap or before it. -/
def EndsBeforeHeap (memUpper kernelEnd : BitVec 32) : Prop :=
  pagesBelow kernelEnd.toNat * pageSize + bitmapSize (framesOf memUpper) * 4 ≤ kernelHeapStart

section

variable {memUpper kernelEnd : BitVec 32}

theorem framesOf_le (memUpper : BitVec 32) : framesOf memUpper ≤ 2 ^ 20 := by
  have := ((memUpper + 1024) * 1024).isLt
  rw [framesOf, pageSize]
  omega

theorem EndsBeforeHeap.pagesBelow_le (h : EndsBeforeHeap memUpper kernelEnd) :
    pagesBelow (nextFreePhysical memUpper kernelEnd).toNat ≤ kernelHeapStart / pageSize := by
  unfold EndsBeforeHeap at h
  simp only [kernelHeapStart, pageSize] at h ⊢
  have hkernel : kernelEnd.toNat ≤ pagesBelow kernelEnd.toNat * 4096 := by
    simp only [pagesBelow, pageSize]
    omega
  have hend : (nextFreePhysical memUpper kernelEnd).toNat =
      pagesBelow kernelEnd.toNat * 4096 + bitmapSize (framesOf memUpper) * 4 := by
    rw [nextFreePhysical, BitVec.toNat_add, alignUp_page (by omega), BitVec.toNat_ofNat, pageSize]
    omega
  rw [hend]
  generalize pagesBelow kernelEnd.toNat = pages at *
  simp only [pagesBelow, pageSize]
  omega

theorem mem_allocateMany_initializeManager (memory : Nat → BitVec 32) (calls : Nat)
    {address : Nat} (ha : address ≠ 0) :
    address ∈ allocateMany calls (initializeManager memUpper kernelEnd memory) ↔
      ∃ f, pagesBelow (nextFreePhysical memUpper kernelEnd).toNat ≤ f ∧
        f < pagesBelow (nextFreePhysical memUpper kernelEnd).toNat + calls ∧
        f < framesOf memUpper ∧ address = f * pageSize :=
  (prefix_initializeManager memUpper kernelEnd memory).mem_allocateMany (framesOf_le memUpper) ha
    calls

theorem overlapsHeap_iff (f : Nat) : OverlapsHeap (f * pageSize) ↔
    kernelHeapStart / pageSize ≤ f ∧ f < heapEnd / pageSize := by
  simp only [OverlapsHeap, heapEnd, kernelHeapStart, kernelHeapSize, pageSize]
  omega

/-- **When frames come from the heap.** On every machine whose kernel and bitmap
end before the heap, no frame of a number of `allocate_frame` calls overlaps
the heap exactly when the frames handed out still lie before it, or the
allocator has no frame that far up. -/
theorem frames_avoid_heap_iff (h : EndsBeforeHeap memUpper kernelEnd) (memory : Nat → BitVec 32)
    (calls : Nat) :
    (∀ address ∈ allocateMany calls (initializeManager memUpper kernelEnd memory),
      ¬ OverlapsHeap address) ↔
    pagesBelow (nextFreePhysical memUpper kernelEnd).toNat + calls ≤ kernelHeapStart / pageSize ∨
      framesOf memUpper ≤ kernelHeapStart / pageSize := by
  have hreserved := h.pagesBelow_le
  constructor
  · intro hnone
    by_contra hmany
    rw [not_or] at hmany
    -- the frame of the heap's first byte is among those handed out
    have hfirst : OverlapsHeap (kernelHeapStart / pageSize * pageSize) :=
      (overlapsHeap_iff _).mpr ⟨le_rfl, by decide⟩
    refine hnone _ ?_ hfirst
    rw [mem_allocateMany_initializeManager memory calls hfirst.1]
    exact ⟨_, hreserved, by omega, by omega, rfl⟩
  · intro hfew address hmem hover
    rw [mem_allocateMany_initializeManager memory calls hover.1] at hmem
    obtain ⟨f, h₁, h₂, h₃, rfl⟩ := hmem
    have hge := ((overlapsHeap_iff f).mp hover).1
    omega

end

/-- A machine with 16 MiB whose kernel ends at 2 MiB has 513 reserved frames. -/
theorem endsBeforeHeap_example : EndsBeforeHeap 15360 0x200000 ∧
    pagesBelow (nextFreePhysical 15360 0x200000).toNat = 513 ∧ framesOf 15360 = 4096 := by
  refine ⟨by unfold EndsBeforeHeap; decide, by decide, by decide⟩

/-- The first 1535 frames lie before the heap. -/
theorem frames_avoid_heap_iff_example : EndsBeforeHeap 15360 0x200000 ∧
    ∀ address ∈ allocateMany 1535 (initializeManager 15360 0x200000 fun _ => 0),
      ¬ OverlapsHeap address := by
  obtain ⟨hends, hreserved, -⟩ := endsBeforeHeap_example
  refine ⟨hends, (frames_avoid_heap_iff hends _ 1535).mpr (.inl ?_)⟩
  rw [hreserved]
  decide

/-- The 1536th frame is the first page of the heap. -/
theorem frame_from_heap :
    ¬ ∀ (memUpper kernelEnd : BitVec 32) (memory : Nat → BitVec 32) (calls : Nat),
      2 ^ 24 ≤ (memUpper.toNat + 1024) * 1024 → EndsBeforeHeap memUpper kernelEnd →
      ∀ address ∈ allocateMany calls (initializeManager memUpper kernelEnd memory),
        ¬ OverlapsHeap address := by
  intro h
  obtain ⟨hends, hreserved, hframes⟩ := endsBeforeHeap_example
  have hfirst : OverlapsHeap (2048 * pageSize) := (overlapsHeap_iff _).mpr ⟨by decide, by decide⟩
  refine h 15360 0x200000 (fun _ => 0) 1536 (by decide) hends (2048 * pageSize) ?_ hfirst
  rw [mem_allocateMany_initializeManager _ _ hfirst.1, hreserved, hframes]
  exact ⟨2048, by decide, by decide, by decide, rfl⟩

end ContinuumOS.Mem.Regions
