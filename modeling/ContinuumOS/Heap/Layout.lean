import ContinuumOS.Heap.Model

/-! # How the heap's blocks lie in memory

`Laid m a bs z`: the headers in memory describe the blocks `bs`, which fill the
addresses from `a` to `z` without a gap and are linked in that order; the block
that ends at the end of the heap has `next = NULL`. Splitting, merging and
marking a block are local edits: `Laid.replace` exchanges the blocks of one
stretch and keeps the rest. -/
namespace ContinuumOS.Heap.Layout
open ContinuumOS.Lib.Memory ContinuumOS.Heap.Model

/-- One block: the address of its header, its payload size and its flag. -/
structure Block where
  addr : Nat
  size : Nat
  free : Bool
  deriving DecidableEq, Repr

namespace Block

/-- What `kmalloc` returns for the block. -/
def payload (b : Block) : Nat := b.addr + headerSize

/-- The address behind the block. -/
def fin (b : Block) : Nat := b.addr + headerSize + b.size

end Block

def heapEnd : Nat := kernelHeapStart + kernelHeapSize

/-- The `next` field of a block that ends at `z`. -/
def linkTo (z : Nat) : Nat := if z = heapEnd then 0 else z

def Laid (m : Mem) : Nat → List Block → Nat → Prop
  | a, [], z => a = z
  | a, b :: bs, z => b.addr = a ∧ sizeAt m a = b.size ∧ freeAt m a = b.free ∧
      nextAt m a = linkTo b.fin ∧ Laid m b.fin bs z

theorem laid_append {m : Mem} {xs ys : List Block} : ∀ {a z : Nat},
    Laid m a (xs ++ ys) z ↔ ∃ y, Laid m a xs y ∧ Laid m y ys z := by
  induction xs with
  | nil => intro a z; simp [Laid]
  | cons b xs ih =>
    intro a z
    simp only [List.cons_append, Laid, ih]
    constructor
    · rintro ⟨h₁, h₂, h₃, h₄, y, hx, hy⟩
      exact ⟨y, ⟨h₁, h₂, h₃, h₄, hx⟩, hy⟩
    · rintro ⟨y, ⟨h₁, h₂, h₃, h₄, hx⟩, hy⟩
      exact ⟨h₁, h₂, h₃, h₄, y, hx, hy⟩

theorem Laid.length_le {m : Mem} {bs : List Block} : ∀ {a z : Nat}, Laid m a bs z →
    a + headerSize * bs.length ≤ z := by
  induction bs with
  | nil => intro a z h; exact Nat.le_of_eq h
  | cons b bs ih =>
    rintro a z ⟨rfl, -, -, -, h⟩
    have := ih h
    simp only [Block.fin, headerSize, List.length_cons] at this ⊢
    omega

theorem Laid.le {m : Mem} {bs : List Block} {a z : Nat} (h : Laid m a bs z) : a ≤ z := by
  have := h.length_le
  omega

theorem Laid.mem_bounds {m : Mem} {bs : List Block} : ∀ {a z : Nat}, Laid m a bs z →
    ∀ b ∈ bs, a ≤ b.addr ∧ b.fin ≤ z := by
  induction bs with
  | nil => intro a z _ b hb; cases hb
  | cons c bs ih =>
    rintro a z ⟨rfl, -, -, -, h⟩ b hb
    rcases List.mem_cons.mp hb with rfl | hb
    · exact ⟨Nat.le_refl _, h.le⟩
    · obtain ⟨h₁, h₂⟩ := ih h b hb
      exact ⟨by simp only [Block.fin, headerSize] at h₁; omega, h₂⟩

theorem Laid.congr {m m' : Mem} {bs : List Block} : ∀ {a z : Nat}, Laid m a bs z →
    (∀ b ∈ bs, ∀ x, b.addr ≤ x → x < b.payload → m' x = m x) → Laid m' a bs z := by
  induction bs with
  | nil => intro a z h _; exact h
  | cons c bs ih =>
    rintro a z ⟨rfl, h₁, h₂, h₃, h⟩ hag
    have hc := hag c (by simp)
    simp only [Block.payload, headerSize] at hc
    refine ⟨rfl, ?_, ?_, ?_, ih h fun b hb => hag b (by simp [hb])⟩
    · rw [sizeAt, readWord_congr fun x h₁ h₂ => hc x h₁ (by omega)]; exact h₁
    · rw [freeAt, hc _ (by omega) (by omega)]; exact h₂
    · rw [nextAt, readWord_congr fun x h₁ h₂ => hc x (by omega) (by omega)]; exact h₃

theorem Laid.congr_range {m m' : Mem} {bs : List Block} {a z : Nat} (h : Laid m a bs z)
    (hag : ∀ x, a ≤ x → x < z → m' x = m x) : Laid m' a bs z := by
  refine h.congr fun b hb x h₁ h₂ => hag x ?_ ?_
  · have := (h.mem_bounds b hb).1; omega
  · have := (h.mem_bounds b hb).2
    simp only [Block.fin, Block.payload] at this h₂
    omega

theorem Laid.replace {m m' : Mem} {pre post : List Block} {a lo hi z : Nat} (mid' : List Block)
    (hpre : Laid m a pre lo) (hpost : Laid m hi post z) (hmid : Laid m' lo mid' hi)
    (hag : ∀ x, x < lo ∨ hi ≤ x → m' x = m x) : Laid m' a (pre ++ (mid' ++ post)) z := by
  refine laid_append.mpr ⟨lo, hpre.congr_range fun x _ h => hag x (.inl h), ?_⟩
  exact laid_append.mpr ⟨hi, hmid, hpost.congr_range fun x h _ => hag x (.inr h)⟩

theorem Laid.sorted {m : Mem} {bs : List Block} : ∀ {a z : Nat}, Laid m a bs z →
    bs.Pairwise fun b c => b.fin ≤ c.addr := by
  induction bs with
  | nil => intros; exact .nil
  | cons b bs ih =>
    rintro a z ⟨rfl, -, -, -, h⟩
    exact .cons (fun c hc => (h.mem_bounds c hc).1) (ih h)

theorem Laid.header {m : Mem} {bs : List Block} {a z : Nat} (h : Laid m a bs z) {b : Block}
    (hb : b ∈ bs) :
    sizeAt m b.addr = b.size ∧ freeAt m b.addr = b.free ∧ nextAt m b.addr = linkTo b.fin := by
  obtain ⟨pre, post, rfl⟩ := List.append_of_mem hb
  obtain ⟨y, -, rfl, h₁, h₂, h₃, -⟩ := laid_append.mp h
  exact ⟨h₁, h₂, h₃⟩

theorem laid_singleton {m : Mem} {b : Block} :
    Laid m b.addr [b] b.fin ↔ sizeAt m b.addr = b.size ∧ freeAt m b.addr = b.free ∧
      nextAt m b.addr = linkTo b.fin := by
  simp [Laid]

/-! ## Header fields after an edit -/

section Fields

variable {m : Mem} {a b v : Nat} {f : UInt8}

theorem sizeAt_setSize (h : v < 2 ^ 32) : sizeAt (setSize m a v) a = v := readWord_writeWord_same h

theorem nextAt_setNext (h : v < 2 ^ 32) : nextAt (setNext m a v) a = v := readWord_writeWord_same h

@[simp] theorem freeAt_setFree : freeAt (setFree m a f) a = (f != 0) := by simp [freeAt, setFree]

@[simp] theorem sizeAt_setNext : sizeAt (setNext m a v) a = sizeAt m a :=
  readWord_writeWord_other (by omega)

@[simp] theorem sizeAt_setFree : sizeAt (setFree m a f) a = sizeAt m a :=
  readWord_writeByte_other (by omega)

@[simp] theorem nextAt_setSize : nextAt (setSize m a v) a = nextAt m a :=
  readWord_writeWord_other (by omega)

@[simp] theorem nextAt_setFree : nextAt (setFree m a f) a = nextAt m a :=
  readWord_writeByte_other (by omega)

@[simp] theorem freeAt_setSize : freeAt (setSize m a v) a = freeAt m a := by
  rw [freeAt, setSize, writeWord_outside (by omega)]; rfl

@[simp] theorem freeAt_setNext : freeAt (setNext m a v) a = freeAt m a := by
  rw [freeAt, setNext, writeWord_outside (by omega)]; rfl

theorem setSize_outside {x : Nat} (h : x < a ∨ a + headerSize ≤ x) : setSize m a v x = m x :=
  writeWord_outside (by simp only [headerSize] at h; omega)

theorem setNext_outside {x : Nat} (h : x < a ∨ a + headerSize ≤ x) : setNext m a v x = m x :=
  writeWord_outside (by simp only [headerSize] at h; omega)

theorem setFree_outside {x : Nat} (h : x < a ∨ a + headerSize ≤ x) : setFree m a f x = m x :=
  writeByte_outside (by simp only [headerSize] at h; omega)

theorem header_congr {m' : Mem} (h : ∀ x, a ≤ x → x < a + headerSize → m' x = m x) :
    sizeAt m' a = sizeAt m a ∧ nextAt m' a = nextAt m a ∧ freeAt m' a = freeAt m a := by
  simp only [headerSize] at h
  refine ⟨readWord_congr fun x h₁ h₂ => h x h₁ (by omega),
    readWord_congr fun x h₁ h₂ => h x (by omega) (by omega), ?_⟩
  rw [freeAt, freeAt, h _ (by omega) (by omega)]

end Fields

end ContinuumOS.Heap.Layout
