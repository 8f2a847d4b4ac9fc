import Mathlib.Data.List.Chain
import ContinuumOS.Lib.Runs
import ContinuumOS.Heap.Runs

/-! # When free blocks are merged

`kfree` takes in the block behind the freed one, never the freed one into the
block before it. So two free blocks come to stand side by side exactly when a
block is freed whose predecessor in the list is free already. As long as that
is avoided, freeing everything gives back the heap of `init_heap`. -/
namespace ContinuumOS.Heap.Coalescing
open ContinuumOS.Lib.Memory ContinuumOS.Lib.Runs ContinuumOS.Heap.Model ContinuumOS.Heap.Layout
open ContinuumOS.Heap.Invariant ContinuumOS.Heap.Runs

/-- A call, or one byte written by a client. -/
inductive Act
  | kmalloc (size : Nat)
  | kfree (ptr : Nat)
  | write (ptr addr : Nat) (value : UInt8)

/-- `none` for a pointer that is not live and for a write outside its payload. -/
def step (s : Sys) : Act → Option Sys
  | .kmalloc size =>
    (kmalloc size s.heap).map fun (p, h') => ⟨h', if p = 0 then s.live else p :: s.live⟩
  | .kfree ptr => if ptr ∈ s.live then some ⟨kfree ptr s.heap, s.live.erase ptr⟩ else none
  | .write ptr addr value =>
    if ptr ∈ s.live ∧ ptr ≤ addr ∧ addr < ptr + payloadSize s.heap.mem ptr then
      some ⟨{ s.heap with mem := writeByte s.heap.mem addr value }, s.live⟩
    else none

/-- Not both free. -/
def Apart (b c : Block) : Prop := ¬ (b.free = true ∧ c.free = true)

/-- `kmalloc` succeeds. -/
def Serves (n : Nat) (h : HeapState) : Prop := ∃ p h', kmalloc n h = some (p, h') ∧ p ≠ 0

/-- No two blocks side by side in the list are both free; and with nothing
allocated the heap is one free block, as good as a fresh heap. -/
def Coalesced (s : Sys) : Prop :=
  ∃ bs, Listed s.heap.mem s.heap.freeList bs ∧ bs.IsChain Apart ∧
    (s.live = [] → bs = [wholeHeap] ∧ ∀ m n, Serves n (initHeap m) → Serves n s.heap)

/-- A block is freed only while the block before it in the list is in use. -/
def Heeds (s : Sys) : Act → Prop
  | .kfree ptr => ptr ∈ s.live → ∀ pre b c post,
      Listed s.heap.mem s.heap.freeList (pre ++ b :: c :: post) → c.payload = ptr → b.free = false
  | _ => True

/-! ## The list of a state -/

theorem serves_iff {h : HeapState} {bs : List Block} {n : Nat} (hb : Blocks h bs) :
    Serves n h ↔ n ≠ 0 ∧ ∃ b ∈ bs, b.free = true ∧ align16 n ≤ b.size := by
  by_cases hz : n = 0
  · simp [Serves, kmalloc, hz]
  rcases kmalloc_carves hb hz with ⟨hk, hnone⟩ | ⟨pre, b, post, b₁, rest, h', hfit, -, hk, -⟩
  · refine iff_of_false ?_ ?_
    · rintro ⟨p, h', hk', hp⟩
      rw [hk] at hk'
      exact hp (Prod.mk.inj (Option.some.inj hk')).1.symm
    · rintro ⟨-, b, hm, hf, hs⟩
      exact Nat.not_lt.mpr hs (hnone b hm hf)
  · refine iff_of_true ⟨_, h', hk, ?_⟩ ⟨hz, b, by simp [hfit.split], hfit.free, hfit.fits⟩
    simp only [Block.payload, headerSize]
    omega

theorem eq_wholeHeap {h : HeapState} {bs : List Block} (hb : Blocks h bs)
    (hchain : bs.IsChain Apart) (hused : used bs = []) : bs = [wholeHeap] := by
  have hfree : ∀ b ∈ bs, b.free = true := by
    intro b hm
    by_contra hf
    have hp := mem_used.mpr ⟨b, hm, Bool.eq_false_iff.mpr hf, rfl⟩
    rw [hused] at hp
    cases hp
  have hlaid := hb.laid
  match bs, hlaid, hchain, hfree with
  | [], hl, _, _ => exact absurd (show kernelHeapStart = heapEnd from hl) (by decide)
  | [b], hl, _, hfree =>
    obtain ⟨haddr, -, -, -, hfin⟩ := hl
    have hsize : b.size = kernelHeapSize - headerSize := by
      have hfin : b.addr + headerSize + b.size = heapEnd := hfin
      simp only [haddr, heapEnd, headerSize, kernelHeapSize] at hfin ⊢
      omega
    rw [wholeHeap, ← hsize, ← haddr, ← hfree b (by simp)]
  | b :: c :: bs, _, hchain, hfree =>
    exact absurd ⟨hfree b (by simp), hfree c (by simp)⟩ (List.isChain_cons_cons.mp hchain).1

/-! ## What a step keeps -/

/-- The blocks of a state whose free blocks are coalesced. -/
structure Held (s : Sys) (bs : List Block) : Prop where
  blocks : Blocks s.heap bs
  live : s.live.Perm (used bs)
  chain : bs.IsChain Apart

theorem Held.coalesced {s : Sys} {bs : List Block} (h : Held s bs) : Coalesced s := by
  refine ⟨bs, listed_of_blocks h.blocks, h.chain, fun hlive => ?_⟩
  have hused : used bs = [] := List.Perm.nil_eq (hlive ▸ h.live) |>.symm
  have hbs := eq_wholeHeap h.blocks h.chain hused
  refine ⟨hbs, fun m n hs => ?_⟩
  rw [serves_iff (blocks_initHeap m)] at hs
  rw [serves_iff h.blocks, hbs]
  exact hs

theorem chain_middle {pre post : List Block} {b : Block} :
    (pre ++ b :: post).IsChain Apart ↔ pre.IsChain Apart ∧ post.IsChain Apart ∧
      (∀ a ∈ pre.getLast?, Apart a b) ∧ ∀ c ∈ post.head?, Apart b c := by
  simp only [List.isChain_append, List.isChain_cons, List.head?_cons, Option.mem_some_iff,
    forall_eq']
  exact ⟨fun ⟨hp, ⟨hc, hq⟩, ha⟩ => ⟨hp, hq, ha, hc⟩, fun ⟨hp, hq, ha, hc⟩ => ⟨hp, ⟨hc, hq⟩, ha⟩⟩

theorem apart_used {b c : Block} (h : b.free = false) : Apart b c ∧ Apart c b := by
  simp [Apart, h]

theorem chain_carved {size : Nat} {bs pre post rest : List Block} {b b₁ : Block}
    (hchain : bs.IsChain Apart) (hfit : FirstFit size bs pre b post)
    (hc : Carved size b b₁ rest) : (pre ++ (b₁ :: rest ++ post)).IsChain Apart := by
  rw [hfit.split, chain_middle] at hchain
  obtain ⟨hpre, hpost, -, hnext⟩ := hchain
  rw [List.cons_append, chain_middle]
  refine ⟨hpre, ?_, fun a _ => (apart_used hc.inUse).2, fun c _ => (apart_used hc.inUse).1⟩
  obtain rfl | ⟨c, hfree, rfl⟩ := hc.rest
  · exact hpost
  · -- what is left of the free block stands before what followed it
    refine List.isChain_cons.mpr ⟨fun d hd hboth => hnext d hd ⟨hfit.free, hboth.2⟩, hpost⟩

theorem held_kmalloc {s : Sys} {bs : List Block} {n p : Nat} {h' : HeapState} (h : Held s bs)
    (hk : kmalloc n s.heap = some (p, h')) :
    ∃ bs', Held ⟨h', if p = 0 then s.live else p :: s.live⟩ bs' := by
  by_cases hz : n = 0
  · rw [kmalloc, if_pos hz] at hk
    obtain ⟨rfl, rfl⟩ := Prod.mk.inj (Option.some.inj hk)
    exact ⟨bs, h.blocks, by simpa using h.live, h.chain⟩
  rcases kmalloc_carves h.blocks hz with
    ⟨hk', -⟩ | ⟨pre, b, post, b₁, rest, h'', hfit, hc, hk', hb', -⟩
  · obtain ⟨rfl, rfl⟩ := Prod.mk.inj (Option.some.inj (hk.symm.trans hk'))
    exact ⟨bs, h.blocks, by simpa using h.live, h.chain⟩
  · obtain ⟨rfl, rfl⟩ := Prod.mk.inj (Option.some.inj (hk.symm.trans hk'))
    have hne : b₁.payload ≠ 0 := by simp only [Block.payload, headerSize]; omega
    refine ⟨_, hb', ?_, chain_carved h.chain hfit hc⟩
    rw [if_neg hne]
    exact (h.live.cons _).trans (hc.used_perm hfit).symm

theorem held_kfree {s : Sys} {pre post : List Block} {b : Block}
    (h : Held s (pre ++ b :: post)) (hb : b.free = false)
    (hbefore : ∀ a ∈ pre.getLast?, a.free = false) :
    ∃ bs', Held ⟨kfree b.payload s.heap, s.live.erase b.payload⟩ bs' := by
  obtain ⟨hpre, hpost, -, -⟩ := chain_middle.mp h.chain
  obtain ⟨size, post', hm, hb'⟩ := kfree_merges h.blocks
  refine ⟨_, hb', ?_, chain_middle.mpr ⟨hpre, ?_, fun a ha => (apart_used (hbefore a ha)).1, ?_⟩⟩
  · have hperm : s.live.Perm (b.payload :: used (pre ++ { b with size, free := true } :: post')) :=
      h.live.trans (by
        simp only [used_append, used_cons, hb, hm.used_eq]
        exact List.perm_middle)
    have := hperm.erase b.payload
    rwa [List.erase_cons_head] at this
  · cases hm with
    | none => exact hpost
    | next => exact hpost.tail
  · cases hm with
    | none hnext => exact fun c hc => (apart_used (hnext c hc)).2
    | next hfree =>
      intro c hc hboth
      exact (List.isChain_cons.mp hpost).1 c hc ⟨hfree, hboth.2⟩

theorem held_write {s : Sys} {bs : List Block} {p a : Nat} {v : UInt8} (h : Held s bs)
    (hp : p ∈ s.live) (h₁ : p ≤ a) (h₂ : a < p + payloadSize s.heap.mem p) :
    Held ⟨{ s.heap with mem := writeByte s.heap.mem a v }, s.live⟩ bs := by
  obtain ⟨b, hmem, -, rfl⟩ := mem_used.mp (h.live.subset hp)
  refine ⟨h.blocks.payload_congr hmem fun x hx => writeByte_outside ?_, h.live, h.chain⟩
  rw [payloadSize_payload h.blocks hmem] at h₂
  simp only [Block.payload, Block.fin] at *
  omega

theorem held_step {s t : Sys} {a : Act} (h : ∃ bs, Held s bs) (ha : Heeds s a)
    (hs : step s a = some t) : ∃ bs, Held t bs := by
  obtain ⟨bs, h⟩ := h
  cases a with
  | kmalloc n =>
    obtain ⟨⟨p, h'⟩, hk, rfl⟩ := Option.map_eq_some_iff.mp hs
    exact held_kmalloc h hk
  | kfree p =>
    rw [step] at hs
    split at hs
    · rename_i hlive
      obtain rfl := Option.some.inj hs
      obtain ⟨pre, b, post, rfl, hfree, rfl⟩ := block_of_used (h.live.subset hlive)
      refine held_kfree h hfree fun a hlast => ?_
      obtain ⟨ys, rfl⟩ := List.getLast?_eq_some_iff.mp hlast
      refine ha hlive ys a b post ?_ rfl
      simpa using listed_of_blocks h.blocks
    · cases hs
  | write p x v =>
    rw [step] at hs
    split at hs
    · rename_i hw
      obtain rfl := Option.some.inj hs
      exact ⟨bs, held_write h hw.1 hw.2.1 hw.2.2⟩
    · cases hs

theorem split_of_not_heeds {s : Sys} {a : Act} (h : ∃ bs, Held s bs) (ha : ¬ Heeds s a) :
    ∃ t, step s a = some t ∧ ¬ Coalesced t := by
  obtain ⟨bs, h⟩ := h
  cases a with
  | kmalloc | write => exact absurd trivial ha
  | kfree p =>
    simp only [Heeds, not_forall] at ha
    obtain ⟨hlive, pre, b, c, post, hl, rfl, hfree⟩ := ha
    obtain rfl := listed_unique (listed_of_blocks h.blocks) hl
    refine ⟨_, if_pos hlive, fun ⟨cs, hcs, hchain, _⟩ => ?_⟩
    have hsplit : pre ++ b :: c :: post = (pre ++ [b]) ++ c :: post := by simp
    obtain ⟨size, post', -, hb'⟩ := kfree_merges (hsplit ▸ h.blocks)
    obtain rfl := listed_unique (listed_of_blocks hb') hcs
    obtain ⟨-, -, hlast, -⟩ := chain_middle.mp hchain
    exact hlast b (by simp) ⟨by simpa using hfree, rfl⟩

theorem coalescing_rule : Rule step (fun s => ∃ bs, Held s bs) Coalesced Heeds where
  sound := fun _ ⟨_, h⟩ => h.coalesced
  next := fun _ _ _ h ha hs => held_step h ha hs
  fails := fun _ _ h ha => split_of_not_heeds h ha

/-- **Free blocks stay coalesced exactly while every freed block has a block in
use before it.** Over every run from `init_heap`. -/
theorem coalesced_iff (m : Mem) (acts : List Act) :
    (∀ t ∈ visited step acts ⟨initHeap m, []⟩, Coalesced t) ↔
      Heeded step Heeds acts ⟨initHeap m, []⟩ :=
  coalescing_rule.visited_iff acts
    ⟨[wholeHeap], blocks_initHeap m, .refl _, List.isChain_singleton _⟩

/-- Two blocks freed in the order of their addresses: nothing is allocated, but
the largest request that a fresh heap serves fails. -/
theorem freed_in_order_stays_split :
    ¬ ∀ m acts, ∀ t ∈ visited step acts ⟨initHeap m, []⟩, Coalesced t := by
  intro hall
  let s₀ : Sys := ⟨initHeap fun _ => 0, []⟩
  let acts : List Act := [.kmalloc 16, .kmalloc 16, .kfree 0x0080000C, .kfree 0x00800028]
  have hrun : (acts.foldlM step s₀).map (fun t => (t.live, (kmalloc 8388592 t.heap).map Prod.fst)) =
      some ([], some 0) := by decide +kernel
  obtain ⟨t, ht, hres⟩ := Option.map_eq_some_iff.mp hrun
  obtain ⟨hlive, hk⟩ := Prod.mk.inj hres
  obtain ⟨bs, -, -, hempty⟩ := hall _ acts t (mem_visited_of_foldlM ht)
  have hfresh : (kmalloc 8388592 s₀.heap).map Prod.fst = some 0x0080000C := by decide +kernel
  obtain ⟨⟨q, h'⟩, hq, hq'⟩ := Option.map_eq_some_iff.mp hfresh
  obtain ⟨p, h'', hp, hne⟩ := (hempty hlive).2 (fun _ => 0) 8388592
    ⟨q, h', hq, by rw [show q = 0x0080000C from hq']; decide⟩
  rw [hp] at hk
  exact hne (Option.some.inj hk)

end ContinuumOS.Heap.Coalescing
