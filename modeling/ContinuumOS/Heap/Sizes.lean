import ContinuumOS.Lib.Runs
import ContinuumOS.Heap.Preserving

/-! # When an allocation is as large as asked

`align16` adds 15 in 32 bits. For the sizes from `2 ^ 32 - 15` on the sum wraps,
the rounded size is 0, and the first free block of any size will do. So the
calls keep their promise exactly as long as such a size is only asked for while
no block is free. -/
namespace ContinuumOS.Heap.Sizes
open ContinuumOS.Lib.Memory ContinuumOS.Lib.Runs
open ContinuumOS.Heap.Model ContinuumOS.Heap.Layout ContinuumOS.Heap.Invariant
open ContinuumOS.Heap.Runs ContinuumOS.Heap.Preserving

/-- A call, with any 32-bit size, or one byte written by a client. -/
inductive Act
  | kmalloc (size : UInt32)
  | kfree (ptr : Nat)
  | krealloc (ptr : Nat) (size : UInt32)
  | write (ptr addr : Nat) (value : UInt8)

/-- A call for memory: the heap before it, its arguments and its result. The
pointer of `kmalloc` is `NULL`. -/
structure Request where
  before : HeapState
  ptr : Nat
  size : Nat
  result : Nat

/-- The heap, and the last call when it was one for memory. -/
structure Log where
  sys : Sys
  last : Option Request

/-- `none` for a pointer that is not live and for a write outside its payload. -/
def step (t : Log) : Act → Option Log
  | .kmalloc size =>
    (kmalloc size.toNat t.sys.heap).map fun (p, h') =>
      ⟨⟨h', if p = 0 then t.sys.live else p :: t.sys.live⟩, some ⟨t.sys.heap, 0, size.toNat, p⟩⟩
  | .kfree ptr =>
    if ptr = 0 ∨ ptr ∈ t.sys.live then
      some ⟨⟨kfree ptr t.sys.heap, t.sys.live.erase ptr⟩, none⟩
    else none
  | .krealloc ptr size =>
    if ptr = 0 ∨ ptr ∈ t.sys.live then
      (krealloc ptr size.toNat t.sys.heap).map fun (q, h') =>
        ⟨⟨h', liveAfterRealloc ptr size.toNat q t.sys.live⟩, some ⟨t.sys.heap, ptr, size.toNat, q⟩⟩
    else none
  | .write ptr addr value =>
    if ptr ∈ t.sys.live ∧ ptr ≤ addr ∧ addr < ptr + payloadSize t.sys.heap.mem ptr then
      some ⟨⟨{ t.sys.heap with mem := writeByte t.sys.heap.mem addr value }, t.sys.live⟩, none⟩
    else none

/-- A fresh heap. -/
def start (m : Mem) : Log := ⟨⟨initHeap m, []⟩, none⟩

/-- No free block has so many bytes, nor has the block that is to grow. -/
def TooLarge (r : Request) : Prop :=
  (∀ bs, Listed r.before.mem r.before.freeList bs → ∀ b ∈ bs, b.free = true → b.size < r.size) ∧
    (r.ptr ≠ 0 → payloadSize r.before.mem r.ptr < r.size)

/-- The block that was returned is as large as asked, and a size that is too
large got `NULL`. -/
def Answered (r : Request) (m : Mem) : Prop :=
  (r.result ≠ 0 → r.size ≤ payloadSize m r.result) ∧ (TooLarge r → r.result = 0)

/-- The last call for memory was answered so. -/
def Honest (t : Log) : Prop := ∀ r, t.last = some r → Answered r t.sys.heap.mem

/-- Every block is in use. -/
def Full (h : HeapState) : Prop := ∀ bs, Listed h.mem h.freeList bs → ∀ b ∈ bs, b.free = false

/-- Rounding the size up wraps. -/
def Wraps (size : UInt32) : Prop := 2 ^ 32 - 16 < size.toNat

/-- A size that wraps is asked for only while every block is in use. -/
def Heeds (t : Log) : Act → Prop
  | .kmalloc size => Wraps size → Full t.sys.heap
  | .krealloc ptr size => ptr = 0 ∨ ptr ∈ t.sys.live → Wraps size → Full t.sys.heap
  | _ => True

/-! ## What one call for memory answers -/

section Answers

variable {h h' : HeapState} {bs : List Block} {b c : Block} {n size : Nat}

theorem answered_null (h : HeapState) (p n : Nat) (m : Mem) : Answered ⟨h, p, n, 0⟩ m :=
  ⟨fun h0 => absurd rfl h0, fun _ => rfl⟩

theorem align16_of_wraps (h₁ : 2 ^ 32 - 16 < n) (h₂ : n < 2 ^ 32) : align16 n = 0 := by
  have hsum : add32 n 15 < 16 := by
    rw [add32]
    omega
  rw [align16, Nat.div_eq_of_lt hsum, Nat.zero_mul]

theorem size_lt (hb : Blocks h bs) (hm : b ∈ bs) : b.size < 2 ^ 25 := by
  have := (hb.bounds hm).2
  have hend : heapEnd < 2 ^ 25 := by decide
  omega

theorem full_iff (hb : Blocks h bs) : Full h ↔ ∀ b ∈ bs, b.free = false := by
  have hl := listed_of_blocks hb
  exact ⟨fun hf => hf bs hl, fun hf cs hcs => listed_unique hl hcs ▸ hf⟩

/-- The free block `c` was taken: its recorded size is now `size`. -/
structure Served (n : Nat) (c : Block) (size : Nat) (h' : HeapState) : Prop where
  free : c.free = true
  enough : align16 n ≤ c.size
  rounded : align16 n ≤ size
  within : size < 2 ^ 25
  recorded : payloadSize h'.mem c.payload = size

theorem kmalloc_served (hb : Blocks h bs) (h0 : n ≠ 0) :
    (kmalloc n h = some (0, h) ∧ ∀ b ∈ bs, b.free = true → b.size < align16 n) ∨
    ∃ c ∈ bs, ∃ size h', kmalloc n h = some (c.payload, h') ∧ Served n c size h' := by
  rcases kmalloc_carves hb h0 with hk | ⟨pre, c, post, c₁, rest, h', hfit, hcarved, hk, hb', -⟩
  · exact .inl hk
  · right
    have haddr : c₁.payload = c.payload := congrArg (· + headerSize) hcarved.addr
    have hm : c₁ ∈ pre ++ (c₁ :: rest ++ post) := by simp
    exact ⟨c, by simp [hfit.split], c₁.size, h', haddr ▸ hk, hfit.free, hfit.fits, hcarved.fits,
      size_lt hb' hm, haddr ▸ payloadSize_payload hb' hm⟩

theorem recorded_afterMove {h₁ : HeapState} (hb : Blocks h bs) (hm : b ∈ bs) (hc : c ∈ bs)
    (hbc : b ≠ c) : payloadSize (afterMove h₁ b c).mem c.payload = payloadSize h₁.mem c.payload := by
  have hap := (eq_or_apart hb.laid hm hc).resolve_left hbc
  have hh : headerSize = 12 := rfl
  have hhead : c.payload - headerSize = c.addr := Nat.add_sub_cancel ..
  have hbyte : ∀ x, c.addr ≤ x → x < c.addr + headerSize →
      (afterMove h₁ b c).mem x = h₁.mem x := by
    intro x hx₁ hx₂
    simp only [Block.fin] at hap
    refine afterMove_frame hb hm ?_ ?_
    · simp only [Block.payload]
      omega
    · simp only [Block.payload]
      omega
  rw [payloadSize, payloadSize, hhead]
  exact (header_congr hbyte).1

theorem krealloc_served (hb : Blocks h bs) (hm : b ∈ bs) (hfree : b.free = false)
    (hlarger : b.size < n) :
    (krealloc b.payload n h = some (0, h) ∧ ∀ b ∈ bs, b.free = true → b.size < align16 n) ∨
    ∃ c ∈ bs, ∃ size h', krealloc b.payload n h = some (c.payload, h') ∧ Served n c size h' := by
  have h0 : n ≠ 0 := by omega
  rw [krealloc_eq hb hm hfree h0, if_neg (by omega)]
  rcases kmalloc_served hb h0 with ⟨hk, hnone⟩ | ⟨c, hc, size, h₁, hk, hs⟩
  · rw [hk, Option.map_some, if_pos rfl]
    exact .inl ⟨rfl, hnone⟩
  · right
    have hbc : b ≠ c := fun he => by
      rw [he, hs.free] at hfree
      cases hfree
    rw [hk, Option.map_some, if_neg (hb.header_of_payload hc).2]
    exact ⟨c, hc, size, afterMove h₁ b c, rfl, hs.free, hs.enough, hs.rounded, hs.within,
      (recorded_afterMove hb hm hc hbc).trans hs.recorded⟩

theorem Served.answered (hb : Blocks h bs) (hc : c ∈ bs) (hs : Served n c size h')
    (hn : n ≤ 2 ^ 32 - 16) (p : Nat) : Answered ⟨h, p, n, c.payload⟩ h'.mem := by
  have hround := (align16_spec hn).1
  refine ⟨fun _ => ?_, fun hlarge => ?_⟩
  · rw [hs.recorded]
    exact hround.trans hs.rounded
  · have hlt := hlarge.1 bs (listed_of_blocks hb) c hc hs.free
    exact absurd (hround.trans hs.enough) (Nat.not_le.mpr hlt)

theorem Served.not_answered (hb : Blocks h bs) (hc : c ∈ bs) (hs : Served n c size h')
    (hn : 2 ^ 32 - 16 < n) (p : Nat) : ¬ Answered ⟨h, p, n, c.payload⟩ h'.mem := by
  intro ha
  have hle : n ≤ payloadSize h'.mem c.payload := ha.1 (hb.header_of_payload hc).2
  rw [hs.recorded] at hle
  have := hs.within
  omega

end Answers

/-! ## Steps -/

section Steps

variable {s : Sys} {n p q : Nat} {h' : HeapState}

/-- Such a size, or a heap that has nothing to give. -/
def Fitting (h : HeapState) (n : Nat) : Prop := n ≤ 2 ^ 32 - 16 ∨ Full h

theorem kmalloc_of_full {h : HeapState} (hi : ∃ bs, Blocks h bs) (hf : Full h) (n : Nat) :
    kmalloc n h = some (0, h) := by
  obtain ⟨bs, hb⟩ := hi
  by_cases h0 : n = 0
  · rw [kmalloc, if_pos h0]
  rcases kmalloc_served hb h0 with ⟨hk, -⟩ | ⟨c, hc, size, h', -, hs⟩
  · exact hk
  · have hused := (full_iff hb).mp hf c hc
    rw [hs.free] at hused
    cases hused

theorem kmalloc_keeps (hi : Inv s) (hn : Fitting s.heap n)
    (hk : kmalloc n s.heap = some (p, h')) :
    Inv ⟨h', if p = 0 then s.live else p :: s.live⟩ ∧ ∀ r, Answered ⟨s.heap, r, n, p⟩ h'.mem := by
  obtain ⟨bs, hb, hlive⟩ := id hi
  rcases hn with hn | hf
  · refine ⟨inv_kmalloc hi hn hk, fun r => ?_⟩
    by_cases h0 : n = 0
    · rw [kmalloc, if_pos h0] at hk
      cases hk
      exact answered_null ..
    rcases kmalloc_served hb h0 with ⟨hk', -⟩ | ⟨c, hc, size, h₁, hk', hs⟩
    · cases hk.symm.trans hk'
      exact answered_null ..
    · cases hk.symm.trans hk'
      exact hs.answered hb hc hn r
  · cases hk.symm.trans (kmalloc_of_full ⟨bs, hb⟩ hf n)
    exact ⟨⟨bs, hb, hlive⟩, fun r => answered_null ..⟩

theorem krealloc_keeps (hi : Inv s) (hp : p = 0 ∨ p ∈ s.live) (hn : Fitting s.heap n)
    (hn32 : n < 2 ^ 32) (hk : krealloc p n s.heap = some (q, h')) :
    Inv ⟨h', liveAfterRealloc p n q s.live⟩ ∧ Answered ⟨s.heap, p, n, q⟩ h'.mem := by
  by_cases h0 : n = 0
  · refine ⟨inv_krealloc hi hp (by omega) hk, ?_⟩
    rw [krealloc, if_pos h0] at hk
    cases hk
    exact answered_null ..
  by_cases hp0 : p = 0
  · -- the call is a `kmalloc`
    rw [krealloc, if_neg h0, if_pos hp0] at hk
    obtain ⟨hi', ha⟩ := kmalloc_keeps hi hn hk
    have hz : 0 ∉ s.live := by
      obtain ⟨bs, hb, hlive⟩ := hi
      exact fun h => zero_not_mem_used (hlive.subset h)
    rw [liveAfterRealloc, if_neg h0, hp0, List.erase_of_not_mem hz]
    exact ⟨hi', ha 0⟩
  obtain ⟨bs, hb, hlive⟩ := id hi
  have hmem := hp.resolve_left hp0
  obtain ⟨b, hm, hfree, rfl⟩ := mem_used.mp (hlive.subset hmem)
  by_cases hlarger : n ≤ b.size
  · -- the block is large enough
    have hlt := size_lt hb hm
    refine ⟨inv_krealloc hi hp (by omega) hk, ?_⟩
    rw [krealloc_eq hb hm hfree h0, if_pos hlarger] at hk
    cases hk
    have hsize : payloadSize s.heap.mem b.payload = b.size := payloadSize_payload hb hm
    refine ⟨fun _ => hlarger.trans hsize.ge, fun hlarge => ?_⟩
    have hsmall : payloadSize s.heap.mem b.payload < n := hlarge.2 hp0
    omega
  rcases hn with hn | hf
  · refine ⟨inv_krealloc hi hp hn hk, ?_⟩
    rcases krealloc_served hb hm hfree (Nat.not_le.mp hlarger) with
      ⟨hk', -⟩ | ⟨c, hc, size, h₁, hk', hs⟩
    · cases hk.symm.trans hk'
      exact answered_null ..
    · cases hk.symm.trans hk'
      exact hs.answered hb hc hn _
  · rw [krealloc_eq hb hm hfree h0, if_neg hlarger, kmalloc_of_full ⟨bs, hb⟩ hf, Option.map_some,
      if_pos rfl] at hk
    cases hk
    rw [liveAfterRealloc, if_neg h0, if_pos rfl]
    exact ⟨hi, answered_null ..⟩

/-- A size that wraps while some block is free: too small a block is returned. -/
theorem kmalloc_fails (hi : Inv s) (hn : ¬ Fitting s.heap n) (hn32 : n < 2 ^ 32) :
    ∃ p h', kmalloc n s.heap = some (p, h') ∧ ∀ r, ¬ Answered ⟨s.heap, r, n, p⟩ h'.mem := by
  obtain ⟨bs, hb, -⟩ := hi
  obtain ⟨hwraps, hfull⟩ := not_or.mp hn
  rw [full_iff hb] at hfull
  rcases kmalloc_served hb (show n ≠ 0 by omega) with ⟨-, hnone⟩ | ⟨c, hc, size, h₁, hk, hs⟩
  · refine absurd (fun b hm => ?_) hfull
    by_contra hf
    have hlt := hnone b hm (by simpa using hf)
    rw [align16_of_wraps (by omega) hn32] at hlt
    omega
  · exact ⟨_, _, hk, hs.not_answered hb hc (by omega)⟩

theorem krealloc_fails (hi : Inv s) (hp : p = 0 ∨ p ∈ s.live) (hn : ¬ Fitting s.heap n)
    (hn32 : n < 2 ^ 32) : ∃ q h', krealloc p n s.heap = some (q, h') ∧
      ¬ Answered ⟨s.heap, p, n, q⟩ h'.mem := by
  have hwraps := (not_or.mp hn).1
  have h0 : n ≠ 0 := by omega
  by_cases hp0 : p = 0
  · obtain ⟨q, h', hk, ha⟩ := kmalloc_fails hi hn hn32
    rw [krealloc, if_neg h0, if_pos hp0]
    exact ⟨q, h', hk, ha p⟩
  obtain ⟨bs, hb, hlive⟩ := hi
  obtain ⟨b, hm, hfree, rfl⟩ := mem_used.mp (hlive.subset (hp.resolve_left hp0))
  have hlt := size_lt hb hm
  have hfull := (full_iff hb).not.mp (not_or.mp hn).2
  rcases krealloc_served hb hm hfree (show b.size < n by omega) with
    ⟨-, hnone⟩ | ⟨c, hc, size, h₁, hk, hs⟩
  · refine absurd (fun d hd => ?_) hfull
    by_contra hf
    have hlt := hnone d hd (by simpa using hf)
    rw [align16_of_wraps (by omega) hn32] at hlt
    omega
  · exact ⟨_, _, hk, hs.not_answered hb hc (by omega) _⟩

end Steps

/-! ## Runs -/

/-- What the steps keep. -/
def Sound (t : Log) : Prop := Inv t.sys ∧ Honest t

theorem fitting_of_heeds {h : HeapState} {size : UInt32} (hn : Wraps size → Full h) :
    Fitting h size.toNat := by
  by_cases hw : Wraps size
  · exact .inr (hn hw)
  · exact .inl (Nat.not_lt.mp hw)

theorem honest_some {s : Sys} {r : Request} (h : Answered r s.heap.mem) : Honest ⟨s, some r⟩ :=
  fun _ hr => Option.some.inj hr ▸ h

theorem honest_none (s : Sys) : Honest ⟨s, none⟩ := fun _ hr => by cases hr

theorem sound_step {t u : Log} {a : Act} (h : Sound t) (ha : Heeds t a) (hs : step t a = some u) :
    Sound u := by
  cases a with
  | kmalloc size =>
    obtain ⟨⟨p, h'⟩, hk, rfl⟩ := Option.map_eq_some_iff.mp hs
    obtain ⟨hi, hans⟩ := kmalloc_keeps h.1 (fitting_of_heeds ha) hk
    exact ⟨hi, honest_some (hans 0)⟩
  | kfree ptr =>
    obtain ⟨hp, hs⟩ := Option.ite_none_right_eq_some.mp hs
    cases hs
    exact ⟨inv_kfree h.1 hp, honest_none _⟩
  | krealloc ptr size =>
    obtain ⟨hp, hs⟩ := Option.ite_none_right_eq_some.mp hs
    obtain ⟨⟨q, h'⟩, hk, rfl⟩ := Option.map_eq_some_iff.mp hs
    obtain ⟨hi, hans⟩ := krealloc_keeps h.1 hp (fitting_of_heeds (ha hp)) size.toNat_lt hk
    exact ⟨hi, honest_some hans⟩
  | write ptr addr value =>
    obtain ⟨hp, hs⟩ := Option.ite_none_right_eq_some.mp hs
    cases hs
    exact ⟨inv_write h.1 hp.1 hp.2.1 hp.2.2, honest_none _⟩

theorem not_honest_of_not_heeds {t : Log} {a : Act} (h : Sound t) (ha : ¬ Heeds t a) :
    ∃ u, step t a = some u ∧ ¬ Honest u := by
  cases a with
  | kfree | write => exact absurd trivial ha
  | kmalloc size =>
    obtain ⟨hwraps, hfull⟩ := Classical.not_imp.mp ha
    have hn : ¬ Fitting t.sys.heap size.toNat := not_or.mpr ⟨Nat.not_le.mpr hwraps, hfull⟩
    obtain ⟨p, h', hk, hans⟩ := kmalloc_fails h.1 hn size.toNat_lt
    refine ⟨_, by rw [step, hk]; rfl, fun hh => hans 0 (hh _ rfl)⟩
  | krealloc ptr size =>
    obtain ⟨hp, ha⟩ := Classical.not_imp.mp ha
    obtain ⟨hwraps, hfull⟩ := Classical.not_imp.mp ha
    have hn : ¬ Fitting t.sys.heap size.toNat := not_or.mpr ⟨Nat.not_le.mpr hwraps, hfull⟩
    obtain ⟨q, h', hk, hans⟩ := krealloc_fails h.1 hp hn size.toNat_lt
    refine ⟨_, by rw [step, if_pos hp, hk]; rfl, fun hh => hans (hh _ rfl)⟩

theorem sizes_rule : Rule step Sound Honest Heeds where
  sound := fun _ h => h.2
  next := fun _ _ _ h ha hs => sound_step h ha hs
  fails := fun _ _ h ha => not_honest_of_not_heeds h ha

/-- **Every allocation of a run is as large as asked exactly when no size that
wraps is asked for while a block is free.** Over every run from `init_heap`,
with all 32-bit sizes. -/
theorem honest_iff (m : Mem) (acts : List Act) :
    (∀ t ∈ visited step acts (start m), Honest t) ↔ Heeded step Heeds acts (start m) :=
  sizes_rule.visited_iff acts ⟨inv_initHeap m, honest_none _⟩

/-- On a fresh heap `kmalloc(0xFFFFFFFF)` returns a block of no bytes. -/
theorem largest_size_gets_empty_block :
    ¬ ∀ m acts, ∀ t ∈ visited step acts (start m), Honest t := by
  intro hall
  let t₀ := start fun _ => 0
  have hrun : ([Act.kmalloc 0xFFFFFFFF].foldlM step t₀).map (fun t =>
      (t.last.map fun r => (r.size, r.result), payloadSize t.sys.heap.mem 0x0080000C)) =
      some (some (0xFFFFFFFF, 0x0080000C), 0) := by decide +kernel
  obtain ⟨t, ht, hres⟩ := Option.map_eq_some_iff.mp hrun
  obtain ⟨hlast, hsize⟩ := Prod.mk.inj hres
  obtain ⟨r, hr, hreq⟩ := Option.map_eq_some_iff.mp hlast
  obtain ⟨hasked, hgot⟩ := Prod.mk.inj hreq
  have hle := (hall _ _ t (mem_visited_of_foldlM ht) r hr).1 (by rw [hgot]; decide)
  rw [hgot, hsize, hasked] at hle
  exact absurd hle (by decide)

end ContinuumOS.Heap.Sizes
