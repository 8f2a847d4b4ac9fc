import ContinuumOS.Heap.Layout

/-! # What the heap operations do to the list of blocks

One specification for each of `kmalloc`, `kfree` and `krealloc`, in terms of
the blocks that lie in memory and the pointers in use among them. -/
namespace ContinuumOS.Heap.Invariant
open ContinuumOS.Lib.Memory ContinuumOS.Libc.Memory
open ContinuumOS.Heap.Model ContinuumOS.Heap.Layout

/-- The blocks of the whole heap. -/
structure Blocks (h : HeapState) (bs : List Block) : Prop where
  first : h.freeList = kernelHeapStart
  laid : Laid h.mem kernelHeapStart bs heapEnd

/-- The pointers of the blocks in use. -/
def used (bs : List Block) : List Nat := (bs.filter fun b => !b.free).map Block.payload

theorem used_append (xs ys : List Block) : used (xs ++ ys) = used xs ++ used ys := by simp [used]

theorem used_cons (b : Block) (bs : List Block) :
    used (b :: bs) = if b.free then used bs else b.payload :: used bs := by
  cases h : b.free <;> simp [used, h]

theorem mem_used {bs : List Block} {p : Nat} :
    p ∈ used bs ↔ ∃ b ∈ bs, b.free = false ∧ p = b.payload := by
  simp only [used, List.mem_map, List.mem_filter, Bool.not_eq_true']
  exact ⟨fun ⟨b, ⟨hb, hf⟩, hp⟩ => ⟨b, hb, hf, hp.symm⟩, fun ⟨b, hb, hf, hp⟩ => ⟨b, ⟨hb, hf⟩, hp.symm⟩⟩

theorem add32_of_lt {a b : Nat} (h : a + b < 2 ^ 32) : add32 a b = a + b := Nat.mod_eq_of_lt h

theorem sub32_of_le {a b : Nat} (h : b ≤ a) (ha : a < 2 ^ 32) : sub32 a b = a - b := by
  unfold sub32
  omega

theorem Blocks.bounds {h : HeapState} {bs : List Block} (hb : Blocks h bs) {b : Block}
    (hm : b ∈ bs) : kernelHeapStart ≤ b.addr ∧ b.addr + headerSize + b.size ≤ heapEnd :=
  hb.laid.mem_bounds b hm

theorem block_of_used {bs : List Block} {p : Nat} (h : p ∈ used bs) :
    ∃ pre b post, bs = pre ++ b :: post ∧ b.free = false ∧ p = b.payload := by
  obtain ⟨b, hb, hf, hp⟩ := mem_used.mp h
  obtain ⟨pre, post, rfl⟩ := List.append_of_mem hb
  exact ⟨pre, b, post, rfl, hf, hp⟩

theorem Blocks.header_of_payload {h : HeapState} {bs : List Block} (hb : Blocks h bs) {b : Block}
    (hm : b ∈ bs) : sub32 b.payload headerSize = b.addr ∧ b.payload ≠ 0 := by
  have := hb.bounds hm
  have hend : heapEnd < 2 ^ 25 := by decide
  have hh : headerSize = 12 := rfl
  simp only [Block.payload]
  rw [sub32_of_le (by omega) (by omega)]
  omega

/-! ## Searching -/

/-- `b` is the first free block of at least `size` bytes. -/
structure FirstFit (size : Nat) (bs pre : List Block) (b : Block) (post : List Block) : Prop where
  split : bs = pre ++ b :: post
  free : b.free = true
  fits : size ≤ b.size
  small : ∀ c ∈ pre, c.free = true → c.size < size

/-- The search along laid blocks ends: at the first free block that is large
enough, or at the end of the list. -/
theorem findFit_laid {m : Mem} (size : Nat) {bs : List Block} : ∀ {a rounds : Nat},
    Laid m a bs heapEnd → 0 < a → bs.length < rounds →
    (findFit m size rounds (linkTo a) = some 0 ∧ ∀ b ∈ bs, b.free = true → b.size < size) ∨
    ∃ pre b post, FirstFit size bs pre b post ∧
      findFit m size rounds (linkTo a) = some b.addr := by
  induction bs with
  | nil =>
    intro a rounds h _ hr
    obtain ⟨rounds, rfl⟩ : ∃ k, rounds = k + 1 := ⟨rounds - 1, by simp at hr; omega⟩
    left
    have ha : a = heapEnd := h
    simp [findFit, linkTo, ha]
  | cons b bs ih =>
    rintro a rounds ⟨rfl, h₁, h₂, h₃, h⟩ ha hr
    obtain ⟨rounds, rfl⟩ : ∃ k, rounds = k + 1 := ⟨rounds - 1, by simp at hr; omega⟩
    have hlink : linkTo b.addr = b.addr := by
      have := h.le
      simp only [Block.fin, headerSize] at this
      rw [linkTo, if_neg (by omega)]
    rw [hlink, findFit, if_neg (by omega), h₁, h₂, h₃]
    by_cases hfit : b.free = true ∧ size ≤ b.size
    · right
      refine ⟨[], b, bs, ⟨rfl, hfit.1, hfit.2, by simp⟩, ?_⟩
      simp [hfit.1, hfit.2]
    · rw [if_neg (by simpa using hfit)]
      have hfin : 0 < b.fin := by simp only [Block.fin]; omega
      have hsmall : b.free = true → b.size < size := fun hfree =>
        Nat.lt_of_not_le fun hle => hfit ⟨hfree, hle⟩
      rcases ih h hfin (by simpa using hr) with ⟨hf, hall⟩ | ⟨pre, c, post, hc, hf⟩
      · exact .inl ⟨hf, List.forall_mem_cons.mpr ⟨hsmall, hall⟩⟩
      · exact .inr ⟨b :: pre, c, post, ⟨congrArg (b :: ·) hc.split, hc.free, hc.fits,
          List.forall_mem_cons.mpr ⟨hsmall, hc.small⟩⟩, hf⟩

/-! ## Allocating -/

/-- What is made of the free block `b`: a block in use of at least `size` bytes
at the same address, perhaps followed by a free one. -/
structure Carved (size : Nat) (b b₁ : Block) (rest : List Block) : Prop where
  addr : b₁.addr = b.addr
  inUse : b₁.free = false
  fits : size ≤ b₁.size
  rest : rest = [] ∨ ∃ c, c.free = true ∧ rest = [c]

/-- The block in use that is made of `b`, and the free one behind it if the rest
holds a header and 16 bytes. -/
def carve (size : Nat) (b : Block) : List Block :=
  if size + headerSize + 16 ≤ b.size then
    [⟨b.addr, size, false⟩, ⟨b.addr + headerSize + size, b.size - size - headerSize, true⟩]
  else [{ b with free := false }]

theorem carved_carve {size : Nat} {b : Block} (hsize : size ≤ b.size) :
    ∃ b₁ rest, carve size b = b₁ :: rest ∧ Carved size b b₁ rest := by
  rw [carve]
  split
  · exact ⟨_, _, rfl, rfl, rfl, Nat.le_refl _, .inr ⟨_, rfl, rfl⟩⟩
  · exact ⟨_, _, rfl, rfl, rfl, hsize, .inl rfl⟩

theorem Carved.used_rest {size : Nat} {b b₁ : Block} {rest : List Block}
    (h : Carved size b b₁ rest) : used rest = [] := by
  obtain rfl | ⟨c, hc, rfl⟩ := h.rest
  · rfl
  · simp [used, hc]

theorem Carved.used_perm {size : Nat} {bs pre post rest : List Block} {b b₁ : Block}
    (h : Carved size b b₁ rest) (hfit : FirstFit size bs pre b post) :
    (used (pre ++ (b₁ :: rest ++ post))).Perm (b₁.payload :: used bs) := by
  simp only [hfit.split, used_append, used_cons, hfit.free, h.inUse, h.used_rest,
    List.cons_append, List.nil_append, Bool.false_eq_true, if_false, if_true]
  exact List.perm_middle

theorem FirstFit.keeps {size : Nat} {bs pre post mid : List Block} {b c : Block}
    (h : FirstFit size bs pre b post) (hc : c ∈ bs) (hfree : c.free = false) :
    c ∈ pre ++ (mid ++ post) := by
  rw [h.split] at hc
  rcases List.mem_append.mp hc with hc | hc
  · simp [hc]
  · rcases List.mem_cons.mp hc with rfl | hc
    · rw [h.free] at hfree
      cases hfree
    · simp [hc]

theorem splitBlock_laid {m : Mem} {b : Block} {size : Nat} (hb : Laid m b.addr [b] b.fin)
    (hsize : size ≤ b.size) (hfin : b.fin ≤ heapEnd) :
    Laid (setFree (splitBlock m b.addr size) b.addr 0) b.addr (carve size b) b.fin ∧
      ∀ x, x < b.addr ∨ b.fin ≤ x → setFree (splitBlock m b.addr size) b.addr 0 x = m x := by
  obtain ⟨h₁, h₂, h₃⟩ := laid_singleton.mp hb
  have hend : heapEnd < 2 ^ 25 := by decide
  have hsum : b.addr + headerSize + b.size ≤ heapEnd := hfin
  have hh : headerSize = 12 := rfl
  rw [splitBlock, h₁, add32_of_lt (by omega : size + headerSize < 2 ^ 32), add32_of_lt (by omega),
    add32_of_lt (by omega : b.addr + headerSize < 2 ^ 32), add32_of_lt (by omega),
    sub32_of_le hsize (by omega), carve]
  split
  · rename_i hroom
    rw [sub32_of_le (by omega) (by omega)]
    -- the new block stands behind the first `size` bytes
    let nb := b.addr + headerSize + size
    let v := b.size - size - headerSize
    let m₃ := setFree (setNext (setSize m nb v) nb (nextAt (setSize m nb v) b.addr)) nb 1
    let m₆ := setFree (setNext (setSize m₃ b.addr size) b.addr nb) b.addr 0
    have hold : ∀ x, b.addr ≤ x → x < b.addr + headerSize → setSize m nb v x = m x :=
      fun x _ _ => setSize_outside (by simp only [nb]; omega)
    have hnew : ∀ x, nb ≤ x → x < nb + headerSize → m₆ x = m₃ x := fun x _ _ => by
      simp only [nb] at *
      simp only [m₆]
      rw [setFree_outside (by omega), setNext_outside (by omega), setSize_outside (by omega)]
    obtain ⟨hn₁, hn₂, hn₃⟩ := header_congr hnew
    have hnext : linkTo nb = nb := by
      simp only [linkTo, nb]; rw [if_neg (by omega)]
    have hfinb : Block.fin ⟨nb, v, true⟩ = b.fin := by
      simp only [Block.fin, nb, v]; omega
    refine ⟨⟨rfl, ?_, ?_, ?_, rfl, ?_, ?_, ?_, hfinb⟩, fun x hx => ?_⟩
    · rw [sizeAt_setFree, sizeAt_setNext, sizeAt_setSize (by omega)]
    · simp
    · rw [nextAt_setFree, nextAt_setNext (by omega)]
      exact hnext.symm
    · change sizeAt m₆ nb = v
      rw [hn₁, sizeAt_setFree, sizeAt_setNext, sizeAt_setSize (by simp only [v]; omega)]
    · change freeAt m₆ nb = true
      rw [hn₃]; simp [m₃]
    · change nextAt m₆ nb = linkTo (Block.fin ⟨nb, v, true⟩)
      rw [hn₂, hfinb, ← h₃, nextAt_setFree]
      exact (nextAt_setNext (readWord_lt _ _)).trans (header_congr hold).2.1
    · have hx' : x < b.addr ∨ b.addr + headerSize + b.size ≤ x := hx
      rw [setFree_outside (by omega), setNext_outside (by omega), setSize_outside (by omega),
        setFree_outside (by omega), setNext_outside (by omega), setSize_outside (by omega)]
  · refine ⟨?_, fun x hx => ?_⟩
    · exact ⟨rfl, by rw [sizeAt_setFree]; exact h₁, by simp, by rw [nextAt_setFree]; exact h₃, rfl⟩
    · have hx' : x < b.addr ∨ b.addr + headerSize + b.size ≤ x := hx
      exact setFree_outside (by omega)

theorem align16_spec {n : Nat} (h : n ≤ 2 ^ 32 - 16) : n ≤ align16 n ∧ align16 n ≤ n + 15 := by
  simp only [align16, add32]
  omega

/-- **What `kmalloc` does to the blocks**, for any size but 0: it returns
`NULL` when no free block is large enough, and otherwise carves the first one
that is, without a byte of memory changed elsewhere. -/
theorem kmalloc_carves {h : HeapState} {bs : List Block} {n : Nat} (hb : Blocks h bs)
    (hz : n ≠ 0) :
    (kmalloc n h = some (0, h) ∧ ∀ b ∈ bs, b.free = true → b.size < align16 n) ∨
    ∃ pre b post b₁ rest h', FirstFit (align16 n) bs pre b post ∧
      Carved (align16 n) b b₁ rest ∧ kmalloc n h = some (b₁.payload, h') ∧
      Blocks h' (pre ++ (b₁ :: rest ++ post)) ∧
      (∀ x, x < b.addr ∨ b.fin ≤ x → h'.mem x = h.mem x) ∧ carve (align16 n) b = b₁ :: rest := by
  have hne : h.freeList ≠ 0 := by rw [hb.first]; decide
  have hlen : bs.length < walkLimit := by
    have := hb.laid.length_le
    simp only [headerSize, heapEnd, kernelHeapStart, kernelHeapSize, walkLimit] at this ⊢
    omega
  have hfirst : linkTo kernelHeapStart = h.freeList := by rw [hb.first]; decide
  rw [kmalloc, if_neg hz]
  simp only [if_neg hne]
  rcases findFit_laid (align16 n) hb.laid (by decide) hlen with
    ⟨hf, hall⟩ | ⟨pre, b, post, hfit, hf⟩
  · rw [hfirst] at hf
    exact .inl ⟨by rw [hf]; rfl, hall⟩
  · right
    rw [hfirst] at hf
    obtain rfl := hfit.split
    obtain ⟨hlo, hhi⟩ := hb.bounds (b := b) (by simp)
    obtain ⟨y, hpre, hrest⟩ := laid_append.mp hb.laid
    obtain ⟨rfl, -, -, -, hpost⟩ := id hrest
    have hmid : Laid h.mem b.addr [b] b.fin := laid_singleton.mpr (hb.laid.header (by simp))
    obtain ⟨hl, hag⟩ := splitBlock_laid hmid hfit.fits hhi
    obtain ⟨b₁, rest, hcarve, hc⟩ := carved_carve hfit.fits
    rw [hcarve] at hl
    have hp : add32 b.addr headerSize = b₁.payload := by
      have : heapEnd < 2 ^ 25 := by decide
      have hh : headerSize = 12 := rfl
      rw [add32_of_lt (by omega), Block.payload, hc.addr]
    refine ⟨pre, b, post, b₁, rest,
      { h with mem := setFree (splitBlock h.mem b.addr (align16 n)) b.addr 0 }, hfit, hc, ?_,
      ⟨hb.first, hpre.replace _ hpost hl hag⟩, hag, hcarve⟩
    rw [hf, Option.map_some, if_neg (by simp only [kernelHeapStart] at hlo; omega), hp]

/-- **What `kmalloc` does.** It returns, either `NULL` and no change, or the
payload of what was a free block, now in use and at least as large as asked. -/
theorem kmalloc_spec {h : HeapState} {bs : List Block} {n : Nat} (hb : Blocks h bs)
    (hn : n ≤ 2 ^ 32 - 16) :
    kmalloc n h = some (0, h) ∨
    ∃ p h' bs', kmalloc n h = some (p, h') ∧ Blocks h' bs' ∧ (used bs').Perm (p :: used bs) ∧
      (∀ c ∈ bs, c.free = false → c ∈ bs') ∧
      ∃ b ∈ bs', b.free = false ∧ p = b.payload ∧ n ≤ b.size := by
  by_cases hz : n = 0
  · exact .inl (by rw [kmalloc, if_pos hz])
  rcases kmalloc_carves hb hz with ⟨hk, -⟩ | ⟨pre, b, post, b₁, rest, h', hfit, hc, hk, hb', -⟩
  · exact .inl hk
  · right
    exact ⟨_, h', _, hk, hb', hc.used_perm hfit, fun c hm hf => hfit.keeps hm hf, b₁, by simp,
      hc.inUse, rfl, (align16_spec hn).1.trans hc.fits⟩

/-! ## Freeing -/

theorem setFree_laid {m : Mem} {pre post : List Block} {b : Block} {a z : Nat} {f : UInt8}
    (h : Laid m a (pre ++ b :: post) z) :
    Laid (setFree m b.addr f) a (pre ++ { b with free := f != 0 } :: post) z := by
  obtain ⟨y, hpre, rfl, h₁, h₂, h₃, hpost⟩ := laid_append.mp h
  refine hpre.replace [{ b with free := f != 0 }] hpost ?_ ?_
  · exact ⟨rfl, by rw [sizeAt_setFree]; exact h₁, by simp, by rw [nextAt_setFree]; exact h₃, rfl⟩
  · intro x hx
    simp only [Block.fin] at hx
    exact setFree_outside (by omega)

/-- Merging takes in the block that follows when it is free, and changes nothing
otherwise. -/
theorem mergeNext_laid {m : Mem} {pre post : List Block} {b : Block}
    (h : Laid m kernelHeapStart (pre ++ b :: post) heapEnd) :
    (mergeNext m b.addr = m ∧ ∀ c ∈ post.head?, c.free = false) ∨
    ∃ c post', post = c :: post' ∧ c.free = true ∧
      Laid (mergeNext m b.addr) kernelHeapStart
        (pre ++ { b with size := b.size + (c.size + headerSize) } :: post') heapEnd := by
  obtain ⟨y, hpre, rfl, h₁, h₂, h₃, hpost⟩ := laid_append.mp h
  cases post with
  | nil =>
    left
    have hz : linkTo b.fin = 0 := if_pos hpost
    rw [mergeNext, h₃, hz]
    exact ⟨by simp, nofun⟩
  | cons c post =>
    obtain ⟨hc, hc₁, hc₂, hc₃, hpost⟩ := hpost
    have hend : heapEnd < 2 ^ 25 := by decide
    have hh : headerSize = 12 := rfl
    have hle : b.fin + headerSize + c.size ≤ heapEnd := by
      have := hpost.le
      simp only [Block.fin] at this hc ⊢
      omega
    have hsum : b.addr + headerSize + b.size = b.fin := rfl
    have hz : linkTo b.fin = b.fin := by rw [linkTo, if_neg (by omega)]
    by_cases hfree : c.free = true
    · right
      refine ⟨c, post, rfl, hfree, ?_⟩
      rw [mergeNext, h₃, hz, hc₂, if_pos ⟨by omega, hfree⟩]
      simp only [nextAt_setSize, h₃, hz, h₁, hc₁]
      rw [add32_of_lt (by omega : c.size + headerSize < 2 ^ 32), add32_of_lt (by omega)]
      -- the size of `b` was written, the header of `c` was not
      have hnext : nextAt (setSize m b.addr (b.size + (c.size + headerSize))) b.fin =
          linkTo c.fin :=
        (header_congr fun x _ _ => setSize_outside (by omega)).2.1.trans hc₃
      rw [hnext]
      have hfin : c.fin = b.addr + headerSize + (b.size + (c.size + headerSize)) := by
        simp only [Block.fin] at hc ⊢
        omega
      refine hpre.replace [{ b with size := b.size + (c.size + headerSize) }] hpost ?_ ?_
      · refine ⟨rfl, ?_, ?_, ?_, hfin.symm⟩
        · rw [sizeAt_setNext, sizeAt_setSize (by omega)]
        · rw [freeAt_setNext, freeAt_setSize]; exact h₂
        · have hlt : linkTo c.fin < 2 ^ 32 := by rw [linkTo]; split <;> omega
          rw [nextAt_setNext hlt, hfin]
          rfl
      · intro x hx
        rw [hfin] at hx
        rw [setNext_outside (by omega), setSize_outside (by omega)]
    · left
      rw [mergeNext, h₃, hz, hc₂, if_neg (by simp [hfree])]
      exact ⟨rfl, fun d hd => Option.some.inj hd ▸ Bool.eq_false_iff.mpr hfree⟩

/-- The freed block and those behind it: the next one is taken in when it is free. -/
def freed (b : Block) : List Block → List Block
  | [] => [{ b with free := true }]
  | c :: post =>
    if c.free then { b with size := b.size + (c.size + headerSize), free := true } :: post
    else { b with free := true } :: c :: post

/-- What `kfree` leaves behind the freed block: all of `post`, or `post` without
its first block when that one is free and was taken in. -/
inductive Merged : List Block → List Block → Prop
  | none {post : List Block} (h : ∀ c ∈ post.head?, c.free = false) : Merged post post
  | next {post : List Block} {c : Block} (h : c.free = true) : Merged (c :: post) post

theorem merged_freed (b : Block) (post : List Block) :
    ∃ size post', Merged post post' ∧ freed b post = { b with size, free := true } :: post' := by
  cases post with
  | nil => exact ⟨_, _, .none fun c hc => (Option.some_ne_none c hc.symm).elim, rfl⟩
  | cons c post =>
    rw [freed]
    split
    · rename_i hc
      exact ⟨_, _, .next hc, rfl⟩
    · rename_i hc
      exact ⟨_, _, .none fun d hd => Option.some.inj hd ▸ Bool.eq_false_iff.mpr hc, rfl⟩

theorem Merged.used_eq {post post' : List Block} (h : Merged post post') :
    used post' = used post := by
  cases h with
  | none => rfl
  | next h => rw [used_cons, if_pos h]

theorem kfree_freed {h : HeapState} {pre post : List Block} {b : Block}
    (hb : Blocks h (pre ++ b :: post)) :
    Blocks (kfree b.payload h) (pre ++ freed b post) := by
  obtain ⟨hblock, hne⟩ := hb.header_of_payload (b := b) (by simp)
  have hmark := setFree_laid (f := 1) hb.laid
  rw [kfree, if_neg hne]
  simp only [hblock]
  refine ⟨hb.first, ?_⟩
  rcases mergeNext_laid hmark with ⟨hm, hpost⟩ | ⟨c, post, rfl, hc, hm⟩
  · have hsame : freed b post = { b with free := true } :: post := by
      cases post with
      | nil => rfl
      | cons c post => rw [freed, hpost c rfl, if_neg Bool.false_ne_true]
    rw [hm, hsame]
    exact hmark
  · rw [freed, if_pos hc]
    exact hm

/-- **What `kfree` does to the blocks**: the block of the pointer becomes free
and takes in the block that follows when that one is free. -/
theorem kfree_merges {h : HeapState} {pre post : List Block} {b : Block}
    (hb : Blocks h (pre ++ b :: post)) :
    ∃ size post', Merged post post' ∧
      Blocks (kfree b.payload h) (pre ++ { b with size, free := true } :: post') := by
  obtain ⟨size, post', hm, hfreed⟩ := merged_freed b post
  exact ⟨size, post', hm, hfreed ▸ kfree_freed hb⟩

/-- **What `kfree` does** to a live pointer: that pointer is no longer in use,
the others are. -/
theorem kfree_spec {h : HeapState} {bs : List Block} {p : Nat} (hb : Blocks h bs)
    (hp : p ∈ used bs) : ∃ bs', Blocks (kfree p h) bs' ∧ (p :: used bs').Perm (used bs) := by
  obtain ⟨pre, b, post, rfl, hfree, rfl⟩ := block_of_used hp
  obtain ⟨size, post', hm, hb'⟩ := kfree_merges hb
  refine ⟨_, hb', ?_⟩
  simp only [used_append, used_cons, hfree, hm.used_eq]
  exact List.perm_middle.symm

/-! ## Writing into a payload -/

theorem Blocks.payload_congr {h : HeapState} {bs : List Block} {b : Block} {m : Mem}
    (hb : Blocks h bs) (hm : b ∈ bs)
    (hag : ∀ x, x < b.payload ∨ b.fin ≤ x → m x = h.mem x) : Blocks { h with mem := m } bs := by
  refine ⟨hb.first, hb.laid.congr fun c hc x h₁ h₂ => hag x ?_⟩
  obtain ⟨pre, post, rfl⟩ := List.append_of_mem hm
  have hs := hb.laid.sorted
  simp only [List.pairwise_append, List.pairwise_cons] at hs
  obtain ⟨-, ⟨hpost, -⟩, hpre⟩ := hs
  have hh : headerSize = 12 := rfl
  simp only [Block.payload, Block.fin] at *
  rcases List.mem_append.mp hc with hc | hc
  · have := hpre c hc b (by simp)
    omega
  · rcases List.mem_cons.mp hc with rfl | hc
    · omega
    · have := hpost c hc
      omega

theorem kfree_frame {h : HeapState} {b : Block} (hb : sub32 b.payload headerSize = b.addr)
    {x : Nat} (hx : x < b.addr ∨ b.payload ≤ x) : (kfree b.payload h).mem x = h.mem x := by
  have hout : x < b.addr ∨ b.addr + headerSize ≤ x := hx
  unfold kfree
  split
  · rfl
  simp only [hb, mergeNext]
  split
  · rw [setNext_outside hout, setSize_outside hout, setFree_outside hout]
  · exact setFree_outside hout

/-! ## Reallocating -/

theorem krealloc_eq {h : HeapState} {bs : List Block} {b : Block} {n : Nat} (hb : Blocks h bs)
    (hm : b ∈ bs) (hfree : b.free = false) (h0 : n ≠ 0) :
    krealloc b.payload n h = if n ≤ b.size then some (b.payload, h) else
      (kmalloc n h).map fun r => if r.1 = 0 then (0, r.2) else
        (r.1, kfree b.payload { r.2 with mem := memcpy r.1 b.payload b.size r.2.mem }) := by
  obtain ⟨hblock, hne⟩ := hb.header_of_payload hm
  rw [krealloc, if_neg h0, if_neg hne]
  simp only [hblock, (hb.laid.header hm).1]
  split
  · rfl
  rcases kmalloc_carves hb h0 with ⟨hk, -⟩ | ⟨pre, c, post, c₁, rest, h', hfit, -, hk, hb', -⟩
  · simp [hk]
  · -- the block of the pointer is still there, as large as before
    have hkept := (hb'.laid.header (hfit.keeps hm hfree)).1
    rw [hk, Option.map_some, Option.map_some, hkept]

/-- **What `krealloc` does** to a live pointer and a size that is not 0: it
returns; the pointer stays in use (and `NULL` or the pointer itself comes back),
or a new one takes its place. -/
theorem krealloc_spec {h : HeapState} {bs : List Block} {p n : Nat} (hb : Blocks h bs)
    (hp : p ∈ used bs) (h0 : n ≠ 0) (hn : n ≤ 2 ^ 32 - 16) :
    krealloc p n h = some (p, h) ∨ krealloc p n h = some (0, h) ∨
    ∃ q h' bs', krealloc p n h = some (q, h') ∧ q ≠ 0 ∧ Blocks h' bs' ∧
      (p :: used bs').Perm (q :: used bs) := by
  obtain ⟨b, hmem, hfree, rfl⟩ := mem_used.mp hp
  rw [krealloc_eq hb hmem hfree h0]
  split
  · exact .inl rfl
  rename_i hlarger
  rcases kmalloc_spec hb hn with hk | ⟨q, h', bs', hk, hb', hperm, -, c, hc, hcf, rfl, hcs⟩
  · exact .inr (.inl (by rw [hk]; rfl))
  · have hc0 := (hb'.header_of_payload hc).2
    -- the copy stays inside the new payload, which is larger
    have hcopy : Blocks { h' with mem := memcpy c.payload b.payload b.size h'.mem } bs' :=
      hb'.payload_congr hc fun x hx => memcpy_outside (by
        simp only [Block.fin, Block.payload] at hx ⊢
        omega)
    have hlive : b.payload ∈ used bs' := hperm.symm.subset (.tail _ hp)
    obtain ⟨bs'', hb'', hperm'⟩ := kfree_spec hcopy hlive
    refine .inr (.inr ⟨c.payload, _, bs'', ?_, hc0, hb'', hperm'.trans hperm⟩)
    rw [hk, Option.map_some, if_neg hc0]

end ContinuumOS.Heap.Invariant
