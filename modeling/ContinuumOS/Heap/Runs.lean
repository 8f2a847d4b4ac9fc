import Mathlib.Logic.Relation
import ContinuumOS.Heap.Invariant

/-! # Every run of the heap

A system state is the heap together with the pointers its clients hold. In
every state reached from `init_heap` the blocks tile the heap and the blocks in
use are exactly the live pointers. -/
namespace ContinuumOS.Heap.Runs
open ContinuumOS.Lib.Memory ContinuumOS.Heap.Model ContinuumOS.Heap.Layout
open ContinuumOS.Heap.Invariant

/-- The heap and the pointers handed out and not yet given back. -/
structure Sys where
  heap : HeapState
  live : List Nat

/-- The size of the payload behind a pointer, as its header has it. -/
def payloadSize (m : Mem) (p : Nat) : Nat := sizeAt m (p - headerSize)

/-- The live pointers after `krealloc p n` returned `q`. -/
def liveAfterRealloc (p n q : Nat) (live : List Nat) : List Nat :=
  if n = 0 then live.erase p
  else if q = 0 then live
  else q :: live.erase p

/-- One call, or one byte written by a client inside a payload of its own. -/
inductive Step : Sys → Sys → Prop
  | kmalloc {s : Sys} {n p : Nat} {h' : HeapState} (hn : n ≤ 2 ^ 32 - 16)
      (hk : kmalloc n s.heap = some (p, h')) :
      Step s ⟨h', if p = 0 then s.live else p :: s.live⟩
  | kfree {s : Sys} {p : Nat} (hp : p = 0 ∨ p ∈ s.live) :
      Step s ⟨kfree p s.heap, s.live.erase p⟩
  | krealloc {s : Sys} {p n q : Nat} {h' : HeapState} (hp : p = 0 ∨ p ∈ s.live)
      (hn : n ≤ 2 ^ 32 - 16) (hk : krealloc p n s.heap = some (q, h')) :
      Step s ⟨h', liveAfterRealloc p n q s.live⟩
  | write {s : Sys} {p a : Nat} {v : UInt8} (hp : p ∈ s.live) (h₁ : p ≤ a)
      (h₂ : a < p + payloadSize s.heap.mem p) :
      Step s ⟨{ s.heap with mem := writeByte s.heap.mem a v }, s.live⟩

theorem payloadSize_payload {h : HeapState} {bs : List Block} {b : Block} (hb : Blocks h bs)
    (hm : b ∈ bs) : payloadSize h.mem b.payload = b.size := by
  rw [payloadSize, Block.payload, Nat.add_sub_cancel, (hb.laid.header hm).1]

/-- What the operations keep. -/
def Inv (s : Sys) : Prop := ∃ bs, Blocks s.heap bs ∧ s.live.Perm (used bs)

/-- The one block of the heap that `init_heap` makes. -/
def wholeHeap : Block := ⟨kernelHeapStart, kernelHeapSize - headerSize, true⟩

theorem blocks_initHeap (m : Mem) : Blocks (initHeap m) [wholeHeap] := by
  refine ⟨rfl, rfl, ?_, ?_, ?_, rfl⟩
  · simp only [initHeap, sizeAt_setFree, sizeAt_setNext]
    exact sizeAt_setSize (by decide)
  · simp [initHeap, wholeHeap]
  · simp only [initHeap, nextAt_setFree]
    exact nextAt_setNext (by decide)

theorem inv_initHeap (m : Mem) : Inv ⟨initHeap m, []⟩ :=
  ⟨[wholeHeap], blocks_initHeap m, .refl _⟩

theorem zero_not_mem_used {bs : List Block} : 0 ∉ used bs := by
  intro h0
  obtain ⟨b, hmem, -, hp⟩ := mem_used.mp h0
  simp [Block.payload, headerSize] at hp

theorem inv_kmalloc {s : Sys} {n p : Nat} {h' : HeapState} (hi : Inv s) (hn : n ≤ 2 ^ 32 - 16)
    (hk : kmalloc n s.heap = some (p, h')) :
    Inv ⟨h', if p = 0 then s.live else p :: s.live⟩ := by
  obtain ⟨bs, hb, hlive⟩ := hi
  rcases kmalloc_spec hb hn with hk' | ⟨q, h'', bs', hk', hb', hperm, -⟩
  · obtain ⟨rfl, rfl⟩ := Prod.mk.inj (Option.some.inj (hk.symm.trans hk'))
    exact ⟨bs, hb, by simpa using hlive⟩
  · obtain ⟨rfl, rfl⟩ := Prod.mk.inj (Option.some.inj (hk.symm.trans hk'))
    have hp : p ≠ 0 := fun h0 =>
      zero_not_mem_used (hperm.symm.subset (by rw [h0]; exact .head _))
    refine ⟨bs', hb', ?_⟩
    rw [if_neg hp]
    exact (hlive.cons p).trans hperm.symm

theorem inv_kfree {s : Sys} {p : Nat} (hi : Inv s) (hp : p = 0 ∨ p ∈ s.live) :
    Inv ⟨kfree p s.heap, s.live.erase p⟩ := by
  obtain ⟨bs, hb, hlive⟩ := hi
  by_cases h0 : p = 0
  · subst h0
    have hz : 0 ∉ s.live := fun h => zero_not_mem_used (hlive.subset h)
    refine ⟨bs, ?_, ?_⟩
    · rw [kfree, if_pos rfl]; exact hb
    · rw [List.erase_of_not_mem hz]; exact hlive
  · have hmem : p ∈ s.live := hp.resolve_left h0
    obtain ⟨bs', hb', hperm⟩ := kfree_spec hb (hlive.subset hmem)
    refine ⟨bs', hb', ?_⟩
    have := (hlive.trans hperm.symm).erase p
    rwa [List.erase_cons_head] at this

theorem inv_krealloc {s : Sys} {p n q : Nat} {h' : HeapState} (hi : Inv s)
    (hp : p = 0 ∨ p ∈ s.live) (hn : n ≤ 2 ^ 32 - 16) (hk : krealloc p n s.heap = some (q, h')) :
    Inv ⟨h', liveAfterRealloc p n q s.live⟩ := by
  by_cases hn0 : n = 0
  · rw [krealloc, if_pos hn0] at hk
    obtain ⟨rfl, rfl⟩ := Prod.mk.inj (Option.some.inj hk)
    rw [liveAfterRealloc, if_pos hn0]
    exact inv_kfree hi hp
  rw [liveAfterRealloc, if_neg hn0]
  obtain ⟨bs, hb, hlive⟩ := id hi
  have hz : 0 ∉ s.live := fun h => zero_not_mem_used (hlive.subset h)
  by_cases hp0 : p = 0
  · rw [krealloc, if_neg hn0, if_pos hp0] at hk
    rw [hp0, List.erase_of_not_mem hz]
    exact inv_kmalloc hi hn hk
  · have hmem : p ∈ s.live := hp.resolve_left hp0
    rcases krealloc_spec hb (hlive.subset hmem) hn0 hn with hr | hr | ⟨r, h'', bs', hr, hr0, hb', hperm⟩
    · obtain ⟨rfl, rfl⟩ := Prod.mk.inj (Option.some.inj (hk.symm.trans hr))
      refine ⟨bs, hb, ?_⟩
      rw [if_neg hp0]
      exact (List.perm_cons_erase hmem).symm.trans hlive
    · obtain ⟨rfl, rfl⟩ := Prod.mk.inj (Option.some.inj (hk.symm.trans hr))
      exact ⟨bs, hb, by simpa using hlive⟩
    · obtain ⟨rfl, rfl⟩ := Prod.mk.inj (Option.some.inj (hk.symm.trans hr))
      refine ⟨bs', hb', ?_⟩
      rw [if_neg hr0]
      -- `p :: q :: (live - p)` and `p :: used bs'` are rearrangements of each other
      have h₁ : (p :: q :: s.live.erase p).Perm (q :: s.live) :=
        (List.Perm.swap q p _).trans ((List.perm_cons_erase hmem).symm.cons q)
      exact ((h₁.trans (hlive.cons q)).trans hperm.symm).cons_inv

theorem inv_write {s : Sys} {p a : Nat} {v : UInt8} (hi : Inv s) (hp : p ∈ s.live) (h₁ : p ≤ a)
    (h₂ : a < p + payloadSize s.heap.mem p) :
    Inv ⟨{ s.heap with mem := writeByte s.heap.mem a v }, s.live⟩ := by
  obtain ⟨bs, hb, hlive⟩ := hi
  obtain ⟨b, hmem, -, rfl⟩ := mem_used.mp (hlive.subset hp)
  refine ⟨bs, hb.payload_congr hmem fun x hx => writeByte_outside ?_, hlive⟩
  rw [payloadSize_payload hb hmem] at h₂
  simp only [Block.payload, Block.fin] at *
  omega

theorem inv_step {s s' : Sys} (hi : Inv s) (hs : Step s s') : Inv s' := by
  cases hs with
  | kmalloc hn hk => exact inv_kmalloc hi hn hk
  | kfree hp => exact inv_kfree hi hp
  | krealloc hp hn hk => exact inv_krealloc hi hp hn hk
  | write hp h₁ h₂ => exact inv_write hi hp h₁ h₂

/-- The states reached from `init_heap`, whatever memory held before. -/
def Reachable (s : Sys) : Prop := ∃ m, Relation.ReflTransGen Step ⟨initHeap m, []⟩ s

theorem inv_of_reachable {s : Sys} (h : Reachable s) : Inv s := by
  obtain ⟨m, hr⟩ := h
  induction hr with
  | refl => exact inv_initHeap m
  | tail _ hs ih => exact inv_step ih hs

/-! ## What the invariant says of memory -/

/-- The blocks met on the way from `a` along the `next` fields to `NULL`. -/
def Listed (m : Mem) : Nat → List Block → Prop
  | a, [] => a = 0
  | a, b :: bs => a ≠ 0 ∧ b = ⟨a, sizeAt m a, freeAt m a⟩ ∧ Listed m (nextAt m a) bs

theorem listed_unique {m : Mem} {bs : List Block} : ∀ {a : Nat} {cs : List Block},
    Listed m a bs → Listed m a cs → bs = cs := by
  induction bs with
  | nil =>
    intro a cs h hc
    cases cs with
    | nil => rfl
    | cons c cs => exact absurd h hc.1
  | cons b bs ih =>
    intro a cs h hc
    cases cs with
    | nil => exact absurd hc h.1
    | cons c cs => rw [h.2.1, hc.2.1, ih h.2.2 hc.2.2]

/-- The blocks fill `[a, z)` in this order, without a gap. -/
def Tiles : Nat → Nat → List Block → Prop
  | a, z, [] => a = z
  | a, z, b :: bs => b.addr = a ∧ Tiles b.fin z bs

theorem listed_of_laid {m : Mem} {bs : List Block} : ∀ {a : Nat}, 0 < a → Laid m a bs heapEnd →
    Listed m (linkTo a) bs := by
  induction bs with
  | nil => intro a _ h; exact if_pos h
  | cons b bs ih =>
    rintro a ha ⟨rfl, h₁, h₂, h₃, h⟩
    have hlink : linkTo b.addr = b.addr := by
      have := h.le
      simp only [Block.fin, headerSize] at this
      rw [linkTo, if_neg (by omega)]
    rw [hlink]
    refine ⟨by omega, ?_, ?_⟩
    · rw [h₁, h₂]
    · rw [h₃]
      exact ih (by simp only [Block.fin]; omega) h

theorem listed_of_blocks {h : HeapState} {bs : List Block} (hb : Blocks h bs) :
    Listed h.mem h.freeList bs := by
  rw [hb.first]
  exact listed_of_laid (a := kernelHeapStart) (by decide) hb.laid

theorem tiles_of_laid {m : Mem} {bs : List Block} : ∀ {a z : Nat}, Laid m a bs z → Tiles a z bs := by
  induction bs with
  | nil => intro a z h; exact h
  | cons b bs ih => rintro a z ⟨h, -, -, -, hl⟩; exact ⟨h, ih hl⟩

theorem used_nodup {m : Mem} {bs : List Block} {a z : Nat} (h : Laid m a bs z) :
    (used bs).Nodup := by
  refine List.Pairwise.map _ ?_ ((h.sorted).filter _)
  intro b c hbc heq
  simp only [Block.fin, Block.payload, headerSize] at hbc heq
  omega

theorem addr_ordered {m : Mem} {bs : List Block} {a z : Nat} (h : Laid m a bs z) :
    bs.Pairwise fun b c => b.addr < c.addr :=
  h.sorted.imp fun hbc => by simp only [Block.fin, headerSize] at hbc; omega

theorem eq_or_apart {m : Mem} {bs : List Block} {a z : Nat} (h : Laid m a bs z) {b c : Block}
    (hb : b ∈ bs) (hc : c ∈ bs) : b = c ∨ b.fin ≤ c.addr ∨ c.fin ≤ b.addr := by
  by_cases hbc : b = c
  · exact .inl hbc
  · refine .inr ((List.Pairwise.forall_of_forall_of_flip
      (R := fun b c => b ≠ c → b.fin ≤ c.addr ∨ c.fin ≤ b.addr) ?_ ?_ ?_) hb hc hbc)
    · exact fun _ _ hne => absurd rfl hne
    · exact h.sorted.imp fun hle _ => .inl hle
    · exact h.sorted.imp fun hle _ => .inr hle

/-- The heap of a state, described from the outside. -/
structure WellTiled (s : Sys) (bs : List Block) : Prop where
  listed : Listed s.heap.mem s.heap.freeList bs
  ordered : bs.Pairwise fun b c => b.addr < c.addr
  tiles : Tiles kernelHeapStart (kernelHeapStart + kernelHeapSize) bs
  next : ∀ b ∈ bs, nextAt s.heap.mem b.addr =
    if b.addr + headerSize + b.size = kernelHeapStart + kernelHeapSize then 0
    else b.addr + headerSize + b.size
  live : ∀ p ∈ s.live, ∃! b, b ∈ bs ∧ b.free = false ∧ p = b.payload
  inUse : ∀ b ∈ bs, b.free = false → s.live.count b.payload = 1
  inside : ∀ p ∈ s.live, kernelHeapStart ≤ p ∧
    p + payloadSize s.heap.mem p ≤ kernelHeapStart + kernelHeapSize
  disjoint : s.live.Pairwise fun p q =>
    p + payloadSize s.heap.mem p ≤ q ∨ q + payloadSize s.heap.mem q ≤ p

theorem wellTiled_of_inv {s : Sys} (hi : Inv s) : ∃ bs, WellTiled s bs := by
  obtain ⟨bs, hb, hlive⟩ := hi
  have hnodup : s.live.Nodup := hlive.nodup_iff.mpr (used_nodup hb.laid)
  refine ⟨bs, listed_of_blocks hb, addr_ordered hb.laid, tiles_of_laid hb.laid,
    fun b hm => (hb.laid.header hm).2.2, ?_, ?_, ?_, ?_⟩
  · intro p hp
    obtain ⟨b, hm, hf, rfl⟩ := mem_used.mp (hlive.subset hp)
    refine ⟨b, ⟨hm, hf, rfl⟩, ?_⟩
    rintro c ⟨hc, -, heq⟩
    rcases eq_or_apart hb.laid hc hm with h | h
    · exact h
    · simp only [Block.payload, Block.fin, headerSize] at heq h
      omega
  · intro b hm hf
    exact List.count_eq_one_of_mem hnodup (hlive.symm.subset (mem_used.mpr ⟨b, hm, hf, rfl⟩))
  · intro p hp
    obtain ⟨b, hm, -, rfl⟩ := mem_used.mp (hlive.subset hp)
    obtain ⟨hlo, hhi⟩ := hb.bounds hm
    rw [payloadSize_payload hb hm]
    simp only [Block.payload]
    exact ⟨by omega, hhi⟩
  · refine (List.Pairwise.imp_of_mem ?_ hnodup)
    intro p q hp hq hne
    obtain ⟨b, hm, -, rfl⟩ := mem_used.mp (hlive.subset hp)
    obtain ⟨c, hc, -, rfl⟩ := mem_used.mp (hlive.subset hq)
    rw [payloadSize_payload hb hm, payloadSize_payload hb hc]
    rcases eq_or_apart hb.laid hm hc with h | h
    · exact absurd (congrArg Block.payload h) hne
    · simp only [Block.payload, Block.fin] at h ⊢
      omega

theorem kmalloc_returns {s : Sys} {n : Nat} (hi : Inv s) (hn : n ≤ 2 ^ 32 - 16) :
    (kmalloc n s.heap).isSome := by
  obtain ⟨bs, hb, -⟩ := hi
  rcases kmalloc_spec hb hn with h | ⟨p, h', bs', h, -⟩ <;> rw [h] <;> rfl

theorem krealloc_returns {s : Sys} {p n : Nat} (hi : Inv s) (hp : p = 0 ∨ p ∈ s.live)
    (hn : n ≤ 2 ^ 32 - 16) : (krealloc p n s.heap).isSome := by
  by_cases hn0 : n = 0
  · rw [krealloc, if_pos hn0]; rfl
  by_cases hp0 : p = 0
  · rw [krealloc, if_neg hn0, if_pos hp0]
    exact kmalloc_returns hi hn
  obtain ⟨bs, hb, hlive⟩ := hi
  rcases krealloc_spec hb (hlive.subset (hp.resolve_left hp0)) hn0 hn with
    h | h | ⟨q, h', bs', h, -⟩ <;> rw [h] <;> rfl

/-- **The heap stays tiled over every run.** From `init_heap` on, whatever calls
and client writes follow: the list from `free_list` is address ordered, ends in
`NULL` and tiles the heap; its blocks in use and the live pointers correspond
one to one, so live payloads are disjoint and inside the heap; and every call
returns. -/
theorem heap_stays_tiled (s : Sys) (hr : Reachable s) :
    (∃ bs, WellTiled s bs) ∧
    (∀ n, n ≤ 2 ^ 32 - 16 → (kmalloc n s.heap).isSome) ∧
    ∀ p n, p = 0 ∨ p ∈ s.live → n ≤ 2 ^ 32 - 16 → (krealloc p n s.heap).isSome := by
  have hi := inv_of_reachable hr
  exact ⟨wellTiled_of_inv hi, fun _ hn => kmalloc_returns hi hn,
    fun _ _ hp hn => krealloc_returns hi hp hn⟩

theorem reachable_first_kmalloc : ∃ s, s.live = [0x0080000C] ∧ Reachable s := by
  let h₀ := initHeap fun _ => 0
  have hk : (kmalloc 24 h₀).map Prod.fst = some 0x0080000C := by decide +kernel
  obtain ⟨⟨p, h'⟩, hk', hp⟩ := Option.map_eq_some_iff.mp hk
  have hstep := Step.kmalloc (s := ⟨h₀, []⟩) (n := 24) (by decide) hk'
  rw [show p = 0x0080000C from hp, if_neg (by decide)] at hstep
  exact ⟨⟨h', [0x0080000C]⟩, rfl, fun _ => 0, .single hstep⟩

theorem heap_stays_tiled_first_kmalloc : ∃ s, s.live = [0x0080000C] ∧ Reachable s ∧
    (∃ bs, WellTiled s bs) ∧
    (∀ n, n ≤ 2 ^ 32 - 16 → (kmalloc n s.heap).isSome) ∧
    ∀ p n, p = 0 ∨ p ∈ s.live → n ≤ 2 ^ 32 - 16 → (krealloc p n s.heap).isSome := by
  obtain ⟨s, hlive, hr⟩ := reachable_first_kmalloc
  exact ⟨s, hlive, hr, heap_stays_tiled s hr⟩

end ContinuumOS.Heap.Runs
