import ContinuumOS.Ramfs.Holdings
import ContinuumOS.Vfs.OnHeap

/-! # Who owns the blocks of the heap

Every block in use was taken for a node, its array, its buffer or other code, and
what a node points to is its own: a block taken, given back or moved leaves the
bytes of every other owner where they are. -/
namespace ContinuumOS.Vfs.Owners
open ContinuumOS.Lib.Memory ContinuumOS.Heap.Model ContinuumOS.Heap.Layout
open ContinuumOS.Heap.Invariant ContinuumOS.Heap.Runs ContinuumOS.Heap.Placing
open ContinuumOS.Ramfs.Nodes
open ContinuumOS.Vfs.OnHeap ContinuumOS.Vfs.OnHeap.Sys

/-- The blocks in use are those with an owner, and what the nodes hold is theirs. -/
structure Owned (owner : Nat → Option Owner) (arrays : Ptr → Ptr)
    (holds : Ptr → Option (Ptr × Nat)) (bs : List Block) : Prop where
  live : ∀ p, p ∈ used bs ↔ (owner p).isSome = true
  node : ∀ q g, holds q = some g → owner q = some .node
  array : ∀ q g, holds q = some g → arrays q ≠ 0 → owner (arrays q) = some (.array q)
  buffer : ∀ q g, holds q = some g → g.1 ≠ 0 → owner g.1 = some (.buffer q) ∧ HasBlock bs g.1 g.2
  empty : ∀ q g, holds q = some g → g.1 = 0 → g.2 = 0

/-- The bytes that the nodes hold are the same in both memories. -/
def SameBytes (holds : Ptr → Option (Ptr × Nat)) (m m' : Mem) : Prop :=
  ∀ q g, holds q = some g → ∀ i < g.2, m' (g.1 + i) = m (g.1 + i)

/-- No node refers to the block at `p`. -/
def Unheld (arrays : Ptr → Ptr) (holds : Ptr → Option (Ptr × Nat)) (p : Nat) : Prop :=
  ∀ q g, holds q = some g → q ≠ p ∧ arrays q ≠ p ∧ g.1 ≠ p

variable {owner : Nat → Option Owner} {arrays : Ptr → Ptr} {holds : Ptr → Option (Ptr × Nat)}
  {bs bs' : List Block} {h : HeapState} {m m' : Mem} {p q d k n y : Nat} {o o' : Owner}

theorem hasBlock_of_mem_used (hp : p ∈ used bs) : HasBlock bs p 0 := by
  obtain ⟨b, hb, hfree, rfl⟩ := mem_used.mp hp
  exact ⟨b, hb, hfree, rfl, Nat.zero_le _⟩

theorem kept_hasBlock (hkeeps : Keeps bs bs' m m' p) (hd : HasBlock bs d k) (hne : d ≠ p) :
    HasBlock bs' d k ∧ ∀ i < k, m' (d + i) = m (d + i) := by
  obtain ⟨c, hc, hfree, rfl, hk⟩ := hd
  obtain ⟨hc', hbytes⟩ := hkeeps c hc hfree hne
  refine ⟨⟨c, hc', hfree, rfl, hk⟩, fun i hi => hbytes _ (Nat.le_add_right _ _) ?_⟩
  simp only [Block.fin, Block.payload]
  omega

namespace Owned

variable (hf : Owned owner arrays holds bs)
include hf

theorem unowned (hp : p ∉ used bs) : owner p = none := by
  rw [← Option.not_isSome_iff_eq_none]
  exact fun hs => hp ((hf.live p).mpr hs)

theorem null : owner 0 = none := hf.unowned zero_not_mem_used

theorem ne_zero (hp : owner p = some o) : p ≠ 0 := by
  rintro rfl
  rw [hf.null] at hp
  cases hp

theorem hasBlock (hp : owner p = some o) : HasBlock bs p 0 :=
  hasBlock_of_mem_used ((hf.live p).mpr (by rw [hp]; rfl))

theorem unheld_other (hp : owner p = some .other) : Unheld arrays holds p := by
  intro q g hg
  refine ⟨fun he => ?_, fun he => ?_, fun he => ?_⟩
  · have hnode := hf.node q g hg
    rw [he, hp] at hnode
    cases hnode
  · have harray := hf.array q g hg (he ▸ hf.ne_zero hp)
    rw [he, hp] at harray
    cases harray
  · have hbuffer := (hf.buffer q g hg (he ▸ hf.ne_zero hp)).1
    rw [he, hp] at hbuffer
    cases hbuffer

theorem unheld_own (hp : owner p = some .node ∧ p = q ∨ owner p = some (.array q) ∨
    owner p = some (.buffer q)) : Unheld arrays (Function.update holds q none) p := by
  have h0 : p ≠ 0 := by
    rcases hp with ⟨hp, -⟩ | hp | hp
    · exact hf.ne_zero hp
    · exact hf.ne_zero hp
    · exact hf.ne_zero hp
  intro y g hg
  rw [Function.update_apply] at hg
  split at hg
  · cases hg
  rename_i hy
  have hnode := hf.node y g hg
  refine ⟨fun he => ?_, fun he => ?_, fun he => ?_⟩
  · rw [he] at hnode hy
    rw [hnode] at hp
    simp_all
  · have harray := hf.array y g hg (he ▸ h0)
    rw [he] at harray
    rw [harray] at hp
    simp_all
  · have hbuffer := (hf.buffer y g hg (he ▸ h0)).1
    rw [he] at hbuffer
    rw [hbuffer] at hp
    simp_all

theorem sameBytes (hkeeps : Keeps bs bs' m m' p)
    (hp : ∀ q g, holds q = some g → g.1 ≠ 0 → g.1 ≠ p) : SameBytes holds m m' := by
  intro q g hg i hi
  have hne : g.1 ≠ 0 := fun h0 => by
    rw [hf.empty q g hg h0] at hi
    cases hi
  exact (kept_hasBlock hkeeps (hf.buffer q g hg hne).2 (hp q g hg hne)).2 i hi

/-- Blocks change hands: the owners that nodes rely on stay, and so do their blocks. -/
theorem change {owner' : Nat → Option Owner}
    (hlive : ∀ p, p ∈ used bs' ↔ (owner' p).isSome = true)
    (hsame : ∀ p o, owner p = some o → Unheld arrays holds p ∨ owner' p = some o)
    (hblocks : ∀ d k, HasBlock bs d k → Unheld arrays holds d ∨ HasBlock bs' d k) :
    Owned owner' arrays holds bs' where
  live := hlive
  node q g hg := (hsame _ _ (hf.node q g hg)).resolve_left fun hu => (hu q g hg).1 rfl
  array q g hg h0 := (hsame _ _ (hf.array q g hg h0)).resolve_left fun hu => (hu q g hg).2.1 rfl
  buffer q g hg h0 := by
    obtain ⟨howner, hblock⟩ := hf.buffer q g hg h0
    exact ⟨(hsame _ _ howner).resolve_left fun hu => (hu q g hg).2.2 rfl,
      (hblocks _ _ hblock).resolve_left fun hu => (hu q g hg).2.2 rfl⟩
  empty := hf.empty

theorem fresh (hb : Blocks h bs) (hp : (placed n bs).1 ≠ 0) : owner (placed n bs).1 = none := by
  obtain ⟨h', -, hb', -⟩ := kmalloc_placed hb n
  have hnodup := (used_placed hp).nodup_iff.mp (used_nodup hb'.laid)
  exact hf.unowned (List.nodup_cons.mp hnodup).1

/-- **A block is taken.** -/
theorem take (hb : Blocks h bs) (n : Nat) (o : Owner) :
    Owned (taken owner (placed n bs).1 o) arrays holds (placed n bs).2 := by
  obtain ⟨h', -, -, hkeeps, -⟩ := kmalloc_placed hb n
  rw [taken]
  split
  · rename_i hp
    rw [placed_null hp]
    exact hf
  rename_i hp
  have hnew := hf.fresh hb hp
  refine hf.change (fun y => ?_) (fun y o' hy => .inr ?_) fun d k hd => .inr ?_
  · rw [(used_placed hp).mem_iff, List.mem_cons, hf.live, Function.update_apply]
    split
    · rename_i hy
      exact iff_of_true (.inl hy) rfl
    · rename_i hy
      exact or_iff_right hy
  · rw [Function.update_of_ne, hy]
    rintro rfl
    rw [hnew] at hy
    cases hy
  · obtain ⟨c, -, -, rfl, -⟩ := id hd
    exact (kept_hasBlock hkeeps hd (payload_ne_zero c)).1

/-- **A block is given back.** -/
theorem give (hb : Blocks h bs) (hp : owner p = some o) (hu : Unheld arrays holds p) :
    Owned (Function.update owner p none) arrays holds (release p bs) := by
  obtain ⟨-, hkeeps⟩ := kfree_released hb (hf.hasBlock hp)
  have hperm := used_release hb (hf.hasBlock hp)
  have hnodup := List.nodup_cons.mp (hperm.nodup_iff.mpr (used_nodup hb.laid))
  refine hf.change (fun y => ?_) (fun y o' hy => ?_) fun d k hd => ?_
  · rw [Function.update_apply]
    split
    · rename_i hy
      exact iff_of_false (hy ▸ hnodup.1) Bool.false_ne_true
    · rename_i hy
      rw [← hf.live, ← hperm.mem_iff, List.mem_cons]
      exact (or_iff_right hy).symm
  · by_cases hyp : y = p
    · exact .inl (hyp ▸ hu)
    · exact .inr (by rw [Function.update_of_ne hyp, hy])
  · by_cases hdp : d = p
    · exact .inl (hdp ▸ hu)
    · exact .inr (kept_hasBlock hkeeps hd hdp).1

/-- **A block is moved.** -/
theorem move (hb : Blocks h bs) (hp : owner p = some o) (hu : Unheld arrays holds p) (n : Nat)
    (o' : Owner) :
    Owned (moved owner p (resized p n bs).1 o') arrays holds (resized p n bs).2 := by
  obtain ⟨b, hm, hfree, rfl, -⟩ := id (hf.hasBlock hp)
  obtain ⟨-, hr⟩ | ⟨-, -, hr⟩ | ⟨-, hne, hr⟩ := resized_cases hb hm n
  · -- the block stays where it is
    rw [hr, moved, if_neg (payload_ne_zero b), Function.update_idem]
    refine hf.change (fun y => ?_) (fun y o hy => ?_) fun d k hd => .inr hd
    · rw [hf.live, Function.update_apply]
      split
      · rename_i hy
        rw [hy, hp]
        exact iff_of_true rfl rfl
      · rfl
    · by_cases hyp : y = b.payload
      · exact .inl (hyp ▸ hu)
      · exact .inr (by rw [Function.update_of_ne hyp, hy])
  · rw [hr]
    exact hf
  · obtain ⟨h', -, hb', -⟩ := kmalloc_placed hb n
    have hbetween := (hasBlock_between hb (hf.hasBlock hp) hne).2
    have hstep := hf.take hb n o'
    rw [taken, if_neg hne] at hstep
    rw [hr, moved, if_neg hne, Function.update_comm hbetween]
    exact hstep.give hb' (by rw [Function.update_of_ne hbetween, hp]) hu

theorem moved_other (hb : Blocks h bs) (hp : owner p = some o) (n : Nat) (hy : owner y = some o')
    (hne : y ≠ p) {o'' : Owner} : moved owner p (resized p n bs).1 o'' y = some o' := by
  obtain ⟨b, hm, -, rfl, -⟩ := hf.hasBlock hp
  rw [moved]
  split
  · exact hy
  rename_i h0
  rw [Function.update_of_ne, Function.update_of_ne hne, hy]
  rintro rfl
  obtain ⟨-, hr⟩ | ⟨-, -, hr⟩ | ⟨-, hnew, hr⟩ := resized_cases hb hm n
  · rw [hr] at hne
    exact hne rfl
  · rw [hr] at h0
    exact h0 rfl
  · rw [hr, hf.fresh hb hnew] at hy
    cases hy

theorem set (hq : owner q = some .node) (ha : arrays q ≠ 0 → owner (arrays q) = some (.array q))
    (hd : d ≠ 0 → owner d = some (.buffer q) ∧ HasBlock bs d k) (h0 : d = 0 → k = 0) :
    Owned owner arrays (Function.update holds q (some (d, k))) bs := by
  have hcases {y : Ptr} {g : Ptr × Nat} (hg : Function.update holds q (some (d, k)) y = some g) :
      y = q ∧ g = (d, k) ∨ holds y = some g := by
    rw [Function.update_apply] at hg
    split at hg
    · rename_i hy
      exact .inl ⟨hy, (Option.some.inj hg).symm⟩
    · exact .inr hg
  refine ⟨hf.live, fun y g hg => ?_, fun y g hg => ?_, fun y g hg => ?_, fun y g hg => ?_⟩
  · obtain ⟨rfl, -⟩ | hg := hcases hg
    · exact hq
    · exact hf.node y g hg
  · obtain ⟨rfl, -⟩ | hg := hcases hg
    · exact ha
    · exact hf.array y g hg
  · obtain ⟨rfl, rfl⟩ | hg := hcases hg
    · exact hd
    · exact hf.buffer y g hg
  · obtain ⟨rfl, rfl⟩ | hg := hcases hg
    · exact h0
    · exact hf.empty y g hg

theorem unset (q : Ptr) : Owned owner arrays (Function.update holds q none) bs := by
  have hcases {y : Ptr} {g : Ptr × Nat} (hg : Function.update holds q none y = some g) :
      holds y = some g := by
    rw [Function.update_apply] at hg
    split at hg
    · cases hg
    · exact hg
  exact ⟨hf.live, fun y g hg => hf.node y g (hcases hg), fun y g hg => hf.array y g (hcases hg),
    fun y g hg => hf.buffer y g (hcases hg), fun y g hg => hf.empty y g (hcases hg)⟩

theorem point (hq : holds q = none) (a : Ptr) :
    Owned owner (Function.update arrays q a) holds bs := by
  have hne {y : Ptr} {g : Ptr × Nat} (hg : holds y = some g) : y ≠ q := fun he => by
    rw [he, hq] at hg
    cases hg
  refine ⟨hf.live, hf.node, fun y g hg => ?_, hf.buffer, hf.empty⟩
  rw [Function.update_of_ne (hne hg)]
  exact hf.array y g hg

end Owned

end ContinuumOS.Vfs.Owners
