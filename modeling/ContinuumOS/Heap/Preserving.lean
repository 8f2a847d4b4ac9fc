import ContinuumOS.Heap.Runs

/-! # What `krealloc` keeps

The move of `krealloc` writes in two places only: inside the free block that it
takes, and in the header of the block that it gives back. All other blocks lie
apart from both, so their bytes stay, and the copy reads the old payload as it
was before the call. -/
namespace ContinuumOS.Heap.Preserving
open ContinuumOS.Lib.Memory ContinuumOS.Libc.Memory ContinuumOS.Heap.Model
open ContinuumOS.Heap.Layout ContinuumOS.Heap.Invariant ContinuumOS.Heap.Runs

/-- The block behind the pointer has the size and the bytes it had. -/
def Kept (m m' : Mem) (r : Nat) : Prop :=
  payloadSize m' r = payloadSize m r ∧ ∀ i, i < payloadSize m r → m' (r + i) = m (r + i)

/-- What holds after a `krealloc` of the live pointer `p` to `n` bytes that
returned `q`. -/
structure Preserved (s : Sys) (p n q : Nat) (s' : Sys) : Prop where
  /-- The old bytes, as many as fit, and `p` is gone unless it was returned. -/
  moved : q ≠ 0 → q ∈ s'.live ∧ (q ≠ p → p ∉ s'.live) ∧
    ∀ i, i < min (payloadSize s.heap.mem p) n → s'.heap.mem (q + i) = s.heap.mem (p + i)
  failed : q = 0 → p ∈ s'.live ∧ Kept s.heap.mem s'.heap.mem p
  others : ∀ r ∈ s.live, r ≠ p → r ∈ s'.live ∧ Kept s.heap.mem s'.heap.mem r

theorem Kept.refl (m : Mem) (r : Nat) : Kept m m r := ⟨rfl, fun _ _ => rfl⟩

/-! ## The move -/

section Move

variable {h h₁ : HeapState} {bs : List Block} {b c d : Block}

/-- The heap after the copy to the block `c` and the release of `b`. -/
def afterMove (h₁ : HeapState) (b c : Block) : HeapState :=
  kfree b.payload { h₁ with mem := memcpy c.payload b.payload b.size h₁.mem }

theorem afterMove_frame (hb : Blocks h bs) (hm : b ∈ bs) {x : Nat}
    (hcopy : x < c.payload ∨ c.payload + b.size ≤ x) (hheader : x < b.addr ∨ b.payload ≤ x) :
    (afterMove h₁ b c).mem x = h₁.mem x := by
  rw [afterMove, kfree_frame (hb.header_of_payload hm).1 hheader]
  exact memcpy_outside hcopy

variable (hb : Blocks h bs) (hm : b ∈ bs) (hc : c ∈ bs) (hsize : b.size ≤ c.size)
  (hag : ∀ x, x < c.addr ∨ c.fin ≤ x → h₁.mem x = h.mem x)
include hb hm hc hsize hag

theorem kept_of_apart (hd : d ∈ bs) (hdb : d ≠ b) (hdc : d ≠ c) :
    Kept h.mem (afterMove h₁ b c).mem d.payload := by
  have hap := (eq_or_apart hb.laid hd hc).resolve_left hdc
  have hap' := (eq_or_apart hb.laid hd hm).resolve_left hdb
  have hh : headerSize = 12 := rfl
  have hbyte : ∀ x, d.addr ≤ x → x < d.fin → (afterMove h₁ b c).mem x = h.mem x := by
    intro x h₁ h₂
    simp only [Block.fin] at *
    rw [afterMove_frame hb hm (by simp only [Block.payload]; omega)
      (by simp only [Block.payload]; omega)]
    exact hag x (by omega)
  have hd' : d.payload - headerSize = d.addr := Nat.add_sub_cancel ..
  have hsize' : payloadSize (afterMove h₁ b c).mem d.payload = payloadSize h.mem d.payload := by
    rw [payloadSize, payloadSize, hd']
    refine (header_congr fun x h₁ h₂ => hbyte x h₁ ?_).1
    simp only [Block.fin]
    omega
  refine ⟨hsize', fun i hi => hbyte _ ?_ ?_⟩
  · simp only [Block.payload]
    omega
  · rw [payloadSize_payload hb hd] at hi
    simp only [Block.payload, Block.fin]
    omega

theorem copied (hbc : b ≠ c) {i : Nat} (hi : i < b.size) :
    (afterMove h₁ b c).mem (c.payload + i) = h.mem (b.payload + i) := by
  have hap := (eq_or_apart hb.laid hm hc).resolve_left hbc
  have hh : headerSize = 12 := rfl
  simp only [Block.fin] at hap hag
  rw [afterMove, kfree_frame (hb.header_of_payload hm).1 (by simp only [Block.payload]; omega)]
  refine (memcpy_inside (by simp only [Block.payload]; omega) hi).trans (hag _ ?_)
  simp only [Block.payload]
  omega

end Move

/-! ## The call -/

/-- **`krealloc` preserves contents.** In every reachable state, for every live
pointer and every size that can be rounded up: the call returns; what it returns
holds the old bytes, or it is `NULL` and the pointer is as it was; and every
other live block keeps its size and its bytes. -/
theorem krealloc_preserves {s : Sys} (hr : Reachable s) {p n : Nat} (hp : p ∈ s.live) (h1 : 1 ≤ n)
    (hn : n ≤ 2 ^ 32 - 16) : ∃ q h', krealloc p n s.heap = some (q, h') ∧
      Preserved s p n q ⟨h', liveAfterRealloc p n q s.live⟩ ∧
      ∃ bs, WellTiled ⟨h', liveAfterRealloc p n q s.live⟩ bs := by
  have hi := inv_of_reachable hr
  obtain ⟨bs, hb, hlive⟩ := id hi
  have hnodup : s.live.Nodup := hlive.nodup_iff.mpr (used_nodup hb.laid)
  obtain ⟨b, hm, hfree, rfl⟩ := mem_used.mp (hlive.subset hp)
  have hpayload := (hb.header_of_payload hm).2
  have h0 : n ≠ 0 := by omega
  have hcall := krealloc_eq hb hm hfree h0
  suffices hpres : ∃ q h', krealloc b.payload n s.heap = some (q, h') ∧
      Preserved s b.payload n q ⟨h', liveAfterRealloc b.payload n q s.live⟩ by
    obtain ⟨q, h', hk, hpres⟩ := hpres
    exact ⟨q, h', hk, hpres, wellTiled_of_inv (inv_krealloc hi (.inr hp) hn hk)⟩
  split at hcall
  · -- the block is large enough
    have hlive' : liveAfterRealloc b.payload n b.payload s.live =
        b.payload :: s.live.erase b.payload := by
      rw [liveAfterRealloc, if_neg h0, if_neg hpayload]
    refine ⟨_, _, hcall, ⟨fun _ => ⟨?_, fun hne => absurd rfl hne, fun _ _ => rfl⟩,
      fun h => absurd h hpayload, fun r hmem hne => ⟨?_, .refl ..⟩⟩⟩
    · rw [hlive']
      exact .head _
    · rw [hlive']
      exact .tail _ ((List.mem_erase_of_ne hne).mpr hmem)
  rename_i hlarger
  rcases kmalloc_carves hb h0 with ⟨hk, -⟩ | ⟨pre, c, post, c₁, rest, h₁, hfit, hcarved, hk, -, hag, -⟩
  · rw [hk, Option.map_some, if_pos rfl] at hcall
    have hlive' : liveAfterRealloc b.payload n 0 s.live = s.live := by
      rw [liveAfterRealloc, if_neg h0, if_pos rfl]
    refine ⟨_, _, hcall, ⟨fun h => absurd rfl h, fun _ => ⟨?_, .refl ..⟩,
      fun r hmem _ => ⟨?_, .refl ..⟩⟩⟩
    · rw [hlive']
      exact hp
    · rw [hlive']
      exact hmem
  · have hc : c ∈ bs := by simp [hfit.split]
    have hneq : ∀ d ∈ bs, d.free = false → d ≠ c := fun d _ hd he => by
      rw [he, hfit.free] at hd
      cases hd
    have haddr : c₁.payload = c.payload := congrArg (· + headerSize) hcarved.addr
    have hc0 := (hb.header_of_payload hc).2
    have hsize : b.size ≤ c.size := by
      have := (align16_spec hn).1.trans hfit.fits
      omega
    rw [hk, haddr, Option.map_some, if_neg hc0] at hcall
    have hlive' : liveAfterRealloc b.payload n c.payload s.live =
        c.payload :: s.live.erase b.payload := by
      rw [liveAfterRealloc, if_neg h0, if_neg hc0]
    refine ⟨c.payload, afterMove h₁ b c, hcall, ⟨fun _ => ⟨?_, fun hne => ?_, fun i hi => ?_⟩,
      fun h => absurd h hc0, fun r hmem hne => ⟨?_, ?_⟩⟩⟩
    · rw [hlive']
      exact .head _
    · rw [hlive', List.mem_cons, not_or]
      exact ⟨hne.symm, hnodup.not_mem_erase⟩
    · rw [payloadSize_payload hb hm] at hi
      exact copied hb hm hc hsize hag (hneq b hm hfree) (by omega)
    · rw [hlive']
      exact .tail _ ((List.mem_erase_of_ne hne).mpr hmem)
    · obtain ⟨d, hd, hdf, rfl⟩ := mem_used.mp (hlive.subset hmem)
      exact kept_of_apart hb hm hc hsize hag hd (fun he => hne (by rw [he])) (hneq d hd hdf)

/-- The 24 bytes of a first `kmalloc(24)` are kept when it grows to 100. -/
theorem krealloc_preserves_first_kmalloc : ∃ s, s.live = [0x0080000C] ∧ Reachable s ∧
    ∃ q h', krealloc 0x0080000C 100 s.heap = some (q, h') ∧
      Preserved s 0x0080000C 100 q ⟨h', liveAfterRealloc 0x0080000C 100 q s.live⟩ ∧
      ∃ bs, WellTiled ⟨h', liveAfterRealloc 0x0080000C 100 q s.live⟩ bs := by
  obtain ⟨s, hlive, hr⟩ := reachable_first_kmalloc
  have hp : 0x0080000C ∈ s.live := by rw [hlive]; exact .head _
  exact ⟨s, hlive, hr, krealloc_preserves hr hp (by decide) (by decide)⟩

end ContinuumOS.Heap.Preserving
