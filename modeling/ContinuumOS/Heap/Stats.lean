import ContinuumOS.Heap.Runs

/-! # Heap statistics

`get_heap_stats` walks the list once and adds up what it meets. Because the
blocks tile the heap, the three byte counts add up to the heap, and the largest
free block it reports decides which requests `kmalloc` can serve. -/
namespace ContinuumOS.Heap.Stats
open ContinuumOS.Lib.Memory ContinuumOS.Heap.Model ContinuumOS.Heap.Layout
open ContinuumOS.Heap.Invariant ContinuumOS.Heap.Runs

/-- `heap_stats_t` -/
structure HeapStats where
  totalSize : Nat
  usedSize : Nat
  freeSize : Nat
  allocatedBlocks : Nat
  freeBlocks : Nat
  largestFreeBlock : Nat
  overhead : Nat
  deriving DecidableEq, Repr

/-- The body of the loop: count the block `current`. -/
def countBlock (m : Mem) (current : Nat) (stats : HeapStats) : HeapStats :=
  if freeAt m current then
    { stats with
      freeSize := add32 stats.freeSize (sizeAt m current)
      freeBlocks := add32 stats.freeBlocks 1
      largestFreeBlock :=
        if stats.largestFreeBlock < sizeAt m current then sizeAt m current
        else stats.largestFreeBlock }
  else
    { stats with
      usedSize := add32 stats.usedSize (sizeAt m current)
      allocatedBlocks := add32 stats.allocatedBlocks 1 }

/-- The loop from `current` on; `none` if the list does not end. -/
def countBlocks (m : Mem) : Nat → Nat → HeapStats → Option HeapStats
  | 0, _, _ => none
  | rounds + 1, current, stats =>
    if current = 0 then some stats
    else countBlocks m rounds (nextAt m current) (countBlock m current stats)

/-- What the caller's structure holds afterwards; `stats` is what it held before. -/
def getHeapStats (stats : HeapStats) (h : HeapState) : Option HeapStats :=
  if h.freeList = 0 then some stats
  else
    (countBlocks h.mem walkLimit h.freeList ⟨kernelHeapSize, 0, 0, 0, 0, 0, stats.overhead⟩).map
      fun stats =>
        let totalBlocks := add32 stats.allocatedBlocks stats.freeBlocks
        { stats with overhead := totalBlocks * headerSize % 2 ^ 32 }

/-! ## Sums over the blocks -/

/-- The payload bytes of the free blocks, or of those in use. -/
def bytes (free : Bool) (bs : List Block) : Nat :=
  ((bs.filter fun b => b.free == free).map Block.size).sum

/-- The number of free blocks, or of those in use. -/
def blocks (free : Bool) (bs : List Block) : Nat := bs.countP fun b => b.free == free

/-- The size of the largest free block, 0 if there is none. -/
def largest (bs : List Block) : Nat :=
  (bs.filter Block.free).foldr (fun b n => max b.size n) 0

@[simp] theorem bytes_nil {f : Bool} : bytes f [] = 0 := rfl

@[simp] theorem blocks_nil {f : Bool} : blocks f [] = 0 := rfl

@[simp] theorem largest_nil : largest [] = 0 := rfl

theorem bytes_cons (f : Bool) (b : Block) (bs : List Block) :
    bytes f (b :: bs) = (if b.free = f then b.size else 0) + bytes f bs := by
  by_cases h : b.free = f <;> simp [bytes, h]

theorem blocks_cons (f : Bool) (b : Block) (bs : List Block) :
    blocks f (b :: bs) = (if b.free = f then 1 else 0) + blocks f bs := by
  by_cases h : b.free = f <;> simp [blocks, h, Nat.add_comm]

theorem largest_cons (b : Block) (bs : List Block) :
    largest (b :: bs) = if b.free then max b.size (largest bs) else largest bs := by
  by_cases h : b.free <;> simp [largest, h]

theorem le_largest_iff {n : Nat} (hn : 0 < n) {bs : List Block} :
    n ≤ largest bs ↔ ∃ b ∈ bs, b.free = true ∧ n ≤ b.size := by
  induction bs with
  | nil => simpa using Nat.ne_of_gt hn
  | cons b bs ih =>
    rw [largest_cons]
    by_cases hf : b.free = true
    · simp [hf, ih]
    · simp [hf, ih]

theorem blocks_used (bs : List Block) : blocks false bs = (used bs).length := by
  simp [blocks, used, List.countP_eq_length_filter]

theorem laid_total {m : Mem} {bs : List Block} : ∀ {a z : Nat}, Laid m a bs z →
    a + (headerSize * (blocks false bs + blocks true bs) + bytes false bs + bytes true bs) = z := by
  induction bs with
  | nil => intro a z h; exact h
  | cons b bs ih =>
    rintro a z ⟨rfl, -, -, -, h⟩
    have := ih h
    simp only [bytes_cons, blocks_cons, Block.fin, headerSize] at this ⊢
    cases hf : b.free <;> simp <;> omega

/-! ## What the walk finds -/

/-- What is counted after the blocks `bs`. -/
def addBlocks (stats : HeapStats) (bs : List Block) : HeapStats :=
  { stats with
    usedSize := stats.usedSize + bytes false bs
    freeSize := stats.freeSize + bytes true bs
    allocatedBlocks := stats.allocatedBlocks + blocks false bs
    freeBlocks := stats.freeBlocks + blocks true bs
    largestFreeBlock := max stats.largestFreeBlock (largest bs) }

/-- Room for the blocks `bs` in the 32-bit counters. -/
structure Room (stats : HeapStats) (bs : List Block) : Prop where
  used : stats.usedSize + bytes false bs < 2 ^ 32
  free : stats.freeSize + bytes true bs < 2 ^ 32
  allocated : stats.allocatedBlocks + blocks false bs < 2 ^ 32
  unallocated : stats.freeBlocks + blocks true bs < 2 ^ 32

theorem countBlock_add {m : Mem} {b : Block} {bs : List Block} {stats : HeapStats}
    (hsize : sizeAt m b.addr = b.size) (hfree : freeAt m b.addr = b.free)
    (hroom : Room stats (b :: bs)) :
    Room (countBlock m b.addr stats) bs ∧
      addBlocks (countBlock m b.addr stats) bs = addBlocks stats (b :: bs) := by
  obtain ⟨h₁, h₂, h₃, h₄⟩ := hroom
  simp only [bytes_cons, blocks_cons] at h₁ h₂ h₃ h₄
  rw [countBlock, hsize, hfree]
  cases hf : b.free <;> simp only [hf, reduceCtorEq, if_true, if_false, Bool.false_eq_true]
      at h₁ h₂ h₃ h₄ ⊢
  · rw [add32_of_lt (by omega), add32_of_lt (by omega)]
    refine ⟨by constructor <;> dsimp only <;> omega, ?_⟩
    simp [addBlocks, bytes_cons, blocks_cons, largest_cons, hf, Nat.add_assoc]
  · rw [add32_of_lt (by omega), add32_of_lt (by omega)]
    have hmax : (if stats.largestFreeBlock < b.size then b.size else stats.largestFreeBlock) =
        max stats.largestFreeBlock b.size := by
      split <;> omega
    refine ⟨by constructor <;> dsimp only <;> omega, ?_⟩
    simp [addBlocks, bytes_cons, blocks_cons, largest_cons, hf, Nat.add_assoc, hmax, max_assoc]

theorem countBlocks_laid {m : Mem} {bs : List Block} : ∀ {a rounds : Nat} {stats : HeapStats},
    Laid m a bs heapEnd → 0 < a → bs.length < rounds → Room stats bs →
    countBlocks m rounds (linkTo a) stats = some (addBlocks stats bs) := by
  induction bs with
  | nil =>
    intro a rounds stats h _ hr _
    obtain ⟨rounds, rfl⟩ : ∃ k, rounds = k + 1 := ⟨rounds - 1, by simp at hr; omega⟩
    have ha : a = heapEnd := h
    simp [countBlocks, linkTo, ha, addBlocks]
  | cons b bs ih =>
    rintro a rounds stats ⟨rfl, h₁, h₂, h₃, h⟩ ha hr hroom
    obtain ⟨rounds, rfl⟩ : ∃ k, rounds = k + 1 := ⟨rounds - 1, by simp at hr; omega⟩
    have hlink : linkTo b.addr = b.addr := by
      have := h.le
      simp only [Block.fin, headerSize] at this
      rw [linkTo, if_neg (by omega)]
    obtain ⟨hroom', hadd⟩ := countBlock_add h₁ h₂ hroom
    rw [hlink, countBlocks, if_neg (by omega), h₃,
      ih h (by simp only [Block.fin]; omega) (by simpa using hr) hroom', hadd]

/-- **What `get_heap_stats` reports**: the exact counts over the blocks. -/
theorem getHeapStats_spec {h : HeapState} {bs : List Block} (hb : Blocks h bs)
    (old : HeapStats) :
    getHeapStats old h = some
      { totalSize := kernelHeapSize
        usedSize := bytes false bs
        freeSize := bytes true bs
        allocatedBlocks := blocks false bs
        freeBlocks := blocks true bs
        largestFreeBlock := largest bs
        overhead := headerSize * (blocks false bs + blocks true bs) } := by
  have hne : h.freeList ≠ 0 := by rw [hb.first]; decide
  have hfirst : linkTo kernelHeapStart = h.freeList := by rw [hb.first]; decide
  have htotal := laid_total hb.laid
  simp only [heapEnd, kernelHeapStart, kernelHeapSize, headerSize] at htotal
  have hlen := hb.laid.length_le
  simp only [heapEnd, kernelHeapStart, kernelHeapSize, headerSize] at hlen
  rw [getHeapStats, if_neg hne, ← hfirst,
    countBlocks_laid hb.laid (by decide) (by simp only [walkLimit]; omega)
      ⟨by simp; omega, by simp; omega, by simp; omega, by simp; omega⟩]
  have hsum : add32 (blocks false bs) (blocks true bs) = blocks false bs + blocks true bs :=
    add32_of_lt (by omega)
  simp only [Option.map_some, addBlocks, Nat.zero_add, Nat.zero_max, hsum, headerSize]
  rw [Nat.mod_eq_of_lt (by omega), Nat.mul_comm]

/-! ## Predicting `kmalloc` -/

/-- `b` is the free block of at least `size` bytes at the lowest address. -/
structure LowestFit (size : Nat) (bs : List Block) (b : Block) : Prop where
  mem : b ∈ bs
  free : b.free = true
  fits : size ≤ b.size
  lowest : ∀ c ∈ bs, c.free = true → size ≤ c.size → b.addr ≤ c.addr

theorem lowestFit_of_firstFit {m : Mem} {size a z : Nat} {bs pre post : List Block} {b : Block}
    (hl : Laid m a bs z) (h : FirstFit size bs pre b post) : LowestFit size bs b := by
  have hord := addr_ordered hl
  obtain ⟨rfl, hfree, hfits, hsmall⟩ := h
  refine ⟨by simp, hfree, hfits, fun c hc hcf hcs => ?_⟩
  simp only [List.pairwise_append, List.pairwise_cons] at hord
  rcases List.mem_append.mp hc with hpre | hrest
  · have := hsmall c hpre hcf
    omega
  rcases List.mem_cons.mp hrest with rfl | hpost
  · exact Nat.le_refl _
  · exact Nat.le_of_lt (hord.2.1.1 c hpost)

theorem align16_eq {n : Nat} (h : n ≤ 2 ^ 32 - 16) : align16 n = (n + 15) / 16 * 16 := by
  rw [align16, add32_of_lt (by omega)]

theorem kmalloc_predicted {h : HeapState} {bs : List Block} {n : Nat} (hb : Blocks h bs)
    (h1 : 1 ≤ n) (hn : n ≤ 2 ^ 32 - 16) :
    ∃ p h', kmalloc n h = some (p, h') ∧ (p ≠ 0 ↔ (n + 15) / 16 * 16 ≤ largest bs) ∧
      (p ≠ 0 → ∃ b, LowestFit ((n + 15) / 16 * 16) bs b ∧ p = b.payload) := by
  rw [le_largest_iff (by omega), ← align16_eq hn]
  rcases kmalloc_carves hb (by omega : n ≠ 0) with
    ⟨hk, hnone⟩ | ⟨pre, b, post, b₁, rest, h', hfit, hc, hk, -⟩
  · refine ⟨0, h, hk, ?_, fun h0 => absurd rfl h0⟩
    simp only [ne_eq, not_true_eq_false, false_iff]
    rintro ⟨b, hm, hf, hs⟩
    exact Nat.not_lt.mpr hs (hnone b hm hf)
  · have hlow := lowestFit_of_firstFit hb.laid hfit
    have hp : b₁.payload = b.payload := congrArg (· + headerSize) hc.addr
    refine ⟨b₁.payload, h', hk, ?_, fun _ => ⟨b, hlow, hp⟩⟩
    have hne : b₁.payload ≠ 0 := by simp only [Block.payload, headerSize]; omega
    exact iff_of_true hne ⟨b, hlow.mem, hlow.free, hlow.fits⟩

/-- The report of `get_heap_stats` in a state whose list holds the blocks `bs`. -/
structure Predicts (s : Sys) (bs : List Block) (stats : HeapStats) : Prop where
  listed : Listed s.heap.mem s.heap.freeList bs
  total : stats.usedSize + stats.freeSize + stats.overhead = kernelHeapSize
  allocated : stats.allocatedBlocks = s.live.length
  serves : ∀ n, 1 ≤ n → n ≤ 2 ^ 32 - 16 → ∃ p h', kmalloc n s.heap = some (p, h') ∧
    (p ≠ 0 ↔ (n + 15) / 16 * 16 ≤ stats.largestFreeBlock) ∧
    (p ≠ 0 → ∃ b, LowestFit ((n + 15) / 16 * 16) bs b ∧ p = b.payload)

/-- **The statistics are exact and predict `kmalloc`**, in every reachable
state: the byte counts add up to the heap, the blocks in use are as many as the
live pointers, and a request is served exactly when its rounded size is at most
`largest_free_block`, from the lowest free block that is large enough. -/
theorem stats_predict (s : Sys) (hr : Reachable s) (old : HeapStats) :
    ∃ stats bs, getHeapStats old s.heap = some stats ∧ Predicts s bs stats := by
  obtain ⟨bs, hb, hlive⟩ := inv_of_reachable hr
  refine ⟨_, bs, getHeapStats_spec hb old, listed_of_blocks hb, ?_, ?_,
    fun n h1 hn => kmalloc_predicted hb h1 hn⟩
  · have htotal := laid_total hb.laid
    simp only [heapEnd] at htotal
    change bytes false bs + bytes true bs + headerSize * (blocks false bs + blocks true bs) = _
    omega
  · exact (blocks_used bs).trans hlive.length_eq.symm

/-- After a first `kmalloc(24)` one block is in use. -/
theorem stats_predict_first_kmalloc : ∃ s, s.live = [0x0080000C] ∧ Reachable s ∧
    ∃ stats bs, getHeapStats ⟨0, 0, 0, 0, 0, 0, 0⟩ s.heap = some stats ∧ Predicts s bs stats := by
  obtain ⟨s, hlive, hr⟩ := reachable_first_kmalloc
  exact ⟨s, hlive, hr, stats_predict s hr _⟩

end ContinuumOS.Heap.Stats
