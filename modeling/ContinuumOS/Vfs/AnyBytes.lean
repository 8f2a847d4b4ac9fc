import ContinuumOS.Vfs.Owners

/-! # Calls over any bytes

What lies in the blocks of the heap has no part in what a call does, but for the bytes
that a read returns: over other bytes a call returns the same answer, takes and gives
back the same blocks, and leaves the bytes of the files where they are. The rules
follow the program text. -/
namespace ContinuumOS.Vfs.AnyBytes
open ContinuumOS.Lib.Effect ContinuumOS.Lib.Memory ContinuumOS.Lib.Blindness
open ContinuumOS.Heap.Model ContinuumOS.Heap.Layout ContinuumOS.Heap.Invariant
open ContinuumOS.Heap.Placing ContinuumOS.Ramfs.Nodes ContinuumOS.Ramfs.Holdings
open ContinuumOS.Vfs.Files ContinuumOS.Vfs.Unseen
open ContinuumOS.Vfs.OnHeap ContinuumOS.Vfs.OnHeap.Sys ContinuumOS.Vfs.Owners

/-- The blocks of the heap, and whose they are. -/
structure Fits (s : Sys) (bs : List Block) : Prop where
  blocks : Blocks s.heap bs
  owned : Owned s.owner s.arrays (held s.ramfs) bs

/-- The same system over other bytes. -/
def onBytes (s : Sys) (m : Mem) : Sys := s.overlaid m s.owner

/-- The nodes hold what they held, or nothing yet. -/
def Below (s u : Sys) : Prop :=
  ∀ q g, held u.ramfs q = some g → held s.ramfs q = some g ∨ g.2 = 0

variable {β γ : Type} {s u : Sys} {bs bs' : List Block}

/-- If the call comes back, then it does so over any bytes, with one answer. -/
def Uniform (s : Sys) (bs : List Block) (P : Sys → Option (β × Sys))
    (Q : β → Sys → List Block → Prop) : Prop :=
  Fits s bs → ∀ b u, P s = some (b, u) → ∃ bs', Fits u bs' ∧ Q b u bs' ∧ Below s u ∧
    ∀ m, Blocks ⟨m, s.freeList⟩ bs → ∃ m', P (onBytes s m) = some (b, onBytes u m') ∧
      Blocks ⟨m', u.freeList⟩ bs' ∧ SameBytes (held u.ramfs) m m'

namespace Uniform

variable {P : Sys → Option (β × Sys)} {Q : β → Sys → List Block → Prop}

theorem pure {b : β} (h : Q b s bs) : Uniform s bs (fun s => some (b, s)) Q := by
  intro hf b' u hu
  cases hu
  exact ⟨bs, hf, h, fun _ _ => .inl, fun m hm => ⟨m, rfl, hm, fun _ _ _ _ _ => rfl⟩⟩

theorem bind {K : β → Sys → Option (γ × Sys)} {R : γ → Sys → List Block → Prop}
    (hP : Uniform s bs P Q) (hK : ∀ b u bs', Fits u bs' → Q b u bs' → Uniform u bs' (K b) R) :
    Uniform s bs (fun s => (P s).bind fun r => K r.1 r.2) R := by
  intro hf c w hw
  obtain ⟨⟨b, u⟩, hu, hw⟩ := Option.bind_eq_some_iff.mp hw
  obtain ⟨bs₁, hf₁, hQ, hbelow, hany⟩ := hP hf b u hu
  obtain ⟨bs₂, hf₂, hR, hbelow', hany'⟩ := hK b u bs₁ hf₁ hQ hf₁ c w hw
  refine ⟨bs₂, hf₂, hR, fun q g hg => ?_, fun m hm => ?_⟩
  · obtain hg' | h0 := hbelow' q g hg
    · exact hbelow q g hg'
    · exact .inr h0
  obtain ⟨m₁, hm₁, hblocks, hsame⟩ := hany m hm
  obtain ⟨m₂, hm₂, hblocks', hsame'⟩ := hany' m₁ hblocks
  refine ⟨m₂, ?_, hblocks', fun q g hg i hi => ?_⟩
  · simp only [hm₁, Option.bind_some]
    exact hm₂
  · obtain hg' | h0 := hbelow' q g hg
    · exact (hsame' q g hg i hi).trans (hsame q g hg' i hi)
    · omega

theorem congr {P' : Sys → Option (β × Sys)} (h : Uniform s bs P Q) (hs : P' s = P s)
    (hany : ∀ m, P' (onBytes s m) = P (onBytes s m)) : Uniform s bs P' Q := by
  intro hf b u hu
  obtain ⟨bs', hf', hQ, hbelow, hrest⟩ := h hf b u (hs ▸ hu)
  refine ⟨bs', hf', hQ, hbelow, fun m hm => ?_⟩
  rw [hany]
  exact hrest m hm

theorem imp {R : β → Sys → List Block → Prop} (h : Uniform s bs P Q)
    (himp : ∀ b u bs', Q b u bs' → R b u bs') : Uniform s bs P R := by
  intro hf b u hu
  obtain ⟨bs', hf', hQ, hrest⟩ := h hf b u hu
  exact ⟨bs', hf', himp b u bs' hQ, hrest⟩

theorem look {f : Sys → Option γ} {K : γ → Sys → Option (β × Sys)}
    (hf : ∀ m, f (onBytes s m) = f s) (hK : ∀ c, f s = some c → Uniform s bs (K c) Q) :
    Uniform s bs (fun s => (f s).bind fun c => K c s) Q := by
  intro hfits b u hu
  obtain ⟨c, hc, hu⟩ := Option.bind_eq_some_iff.mp hu
  obtain ⟨bs', hf', hQ, hbelow, hany⟩ := hK c hc hfits b u hu
  refine ⟨bs', hf', hQ, hbelow, fun m hm => ?_⟩
  obtain ⟨m', hm', hrest⟩ := hany m hm
  refine ⟨m', ?_, hrest⟩
  simp only [hf, hc, Option.bind_some]
  exact hm'

end Uniform

/-! ## The heap -/

theorem kmalloc_over (hb : Blocks s.heap bs) (n : Nat) (o : Owner) : ∃ m,
    s.kmalloc n o = some ((placed n bs).1, s.overlaid m (taken s.owner (placed n bs).1 o)) ∧
      Blocks ⟨m, s.freeList⟩ (placed n bs).2 ∧ Keeps bs (placed n bs).2 s.memory m 0 ∧
      ((placed n bs).1 = 0 → m = s.memory) := by
  obtain ⟨h', hk, hb', hkeeps, hnull⟩ := kmalloc_placed hb n
  have hfirst : h'.freeList = s.freeList := hb'.first.trans hb.first.symm
  refine ⟨h'.mem, ?_, by rw [← hfirst]; exact hb', hkeeps, fun h0 => by rw [hnull h0]; rfl⟩
  rw [Sys.kmalloc, hk, Option.map_some, hfirst]
  rfl

theorem kfree_over {p : Nat} {o : Owner} (hf : Fits s bs) (hp : s.owner p = some o) : ∃ m,
    s.kfree p = s.overlaid m (Function.update s.owner p none) ∧
      Blocks ⟨m, s.freeList⟩ (release p bs) ∧ Keeps bs (release p bs) s.memory m p := by
  obtain ⟨hb', hkeeps⟩ := kfree_released hf.blocks (hf.owned.hasBlock hp)
  have hfirst : (Heap.Model.kfree p s.heap).freeList = s.freeList :=
    hb'.first.trans hf.blocks.first.symm
  refine ⟨_, ?_, by rw [← hfirst]; exact hb', hkeeps⟩
  rw [Sys.kfree, hfirst]
  rfl

theorem krealloc_over {p k n : Nat} (hb : Blocks s.heap bs) (hp : HasBlock bs p k) (h0 : n ≠ 0)
    (hn : n ≤ 2 ^ 32 - 16) (o : Owner) : ∃ m,
    s.krealloc p n o = some ((resized p n bs).1, s.overlaid m (moved s.owner p (resized p n bs).1 o)) ∧
      Blocks ⟨m, s.freeList⟩ (resized p n bs).2 ∧ Keeps bs (resized p n bs).2 s.memory m p ∧
      ((resized p n bs).1 = 0 → m = s.memory) ∧
      ((resized p n bs).1 ≠ 0 → HasBlock (resized p n bs).2 (resized p n bs).1 n ∧
        ∀ i < k, m ((resized p n bs).1 + i) = s.memory (p + i)) := by
  obtain ⟨h', hk, hb', hkeeps, hnull, hcopied⟩ := krealloc_resized hb hp h0 hn
  have hfirst : h'.freeList = s.freeList := hb'.first.trans hb.first.symm
  refine ⟨h'.mem, ?_, by rw [← hfirst]; exact hb', hkeeps, fun h0 => by rw [hnull h0]; rfl, hcopied⟩
  rw [Sys.krealloc, hk, Option.map_some, hfirst]
  rfl

namespace Uniform

variable {b : β} {Q : β → Sys → List Block → Prop}

theorem kmalloc (n : Nat) (o : Owner) : Uniform s bs (fun s => s.kmalloc n o)
    fun p u _ => (p ≠ 0 → s.owner p = none) ∧ ∃ m, u = s.overlaid m (taken s.owner p o) := by
  intro hf p u hu
  obtain ⟨m, hk, hb', -⟩ := kmalloc_over hf.blocks n o
  obtain ⟨rfl, rfl⟩ := Prod.mk.inj (Option.some.inj (hk.symm.trans hu))
  refine ⟨_, ⟨hb', hf.owned.take hf.blocks n o⟩, ⟨hf.owned.fresh hf.blocks, m, rfl⟩,
    fun _ _ => .inl, fun m₀ hm₀ => ?_⟩
  obtain ⟨m', hk', hb'', hkeeps, -⟩ := kmalloc_over (s := onBytes s m₀) hm₀ n o
  exact ⟨m', hk', hb'', hf.owned.sameBytes hkeeps fun _ _ _ h0 => h0⟩

theorem kmallocIf (gets : Bool) (n : Nat) (o : Owner) :
    Uniform s bs (fun s => s.kmallocIf gets n o) fun p u _ => (p ≠ 0 → gets = true ∧ s.owner p = none) ∧
      ∃ m, u = s.overlaid m (taken s.owner p o) := by
  cases gets with
  | true => exact (kmalloc n o).imp fun _ _ _ h => ⟨fun hp => ⟨rfl, h.1 hp⟩, h.2⟩
  | false => exact pure ⟨fun h => absurd rfl h, s.memory, rfl⟩

theorem kfree {p : Nat}
    (hp : p = 0 ∨ (∃ o, s.owner p = some o) ∧ Unheld s.arrays (held s.ramfs) p) :
    Uniform s bs (fun s => some ((), s.kfree p)) fun _ u _ =>
      ∃ m, u = s.overlaid m (Function.update s.owner p none) := by
  intro hf _ u hu
  cases hu
  obtain rfl | ⟨⟨o, ho⟩, hu⟩ := hp
  · have hnone : Function.update s.owner 0 none = s.owner := by
      conv_lhs => rw [← hf.owned.null]
      exact Function.update_eq_self 0 s.owner
    have hsame : s.kfree 0 = s := congrArg (s.overlaid s.memory) hnone
    have hsame' (m : Mem) : (onBytes s m).kfree 0 = onBytes s m := congrArg (s.overlaid m) hnone
    rw [hsame]
    refine ⟨bs, hf, ⟨s.memory, congrArg (s.overlaid s.memory) hnone.symm⟩, fun _ _ => .inl,
      fun m hm => ⟨m, congrArg (fun s => some ((), s)) (hsame' m), hm, fun _ _ _ _ _ => rfl⟩⟩
  · obtain ⟨m, hk, hb', -⟩ := kfree_over hf ho
    rw [hk]
    refine ⟨_, ⟨hb', hf.owned.give hf.blocks ho hu⟩, ⟨m, rfl⟩, fun _ _ => .inl, fun m₀ hm₀ => ?_⟩
    obtain ⟨m', hk', hb'', hkeeps⟩ := kfree_over (s := onBytes s m₀) ⟨hm₀, hf.owned⟩ ho
    exact ⟨m', congrArg (fun s => some ((), s)) hk', hb'',
      hf.owned.sameBytes hkeeps fun q g hg _ => (hu q g hg).2.2⟩

theorem krealloc {p n : Nat} {o : Owner} (hp : s.owner p = some o)
    (hu : Unheld s.arrays (held s.ramfs) p) (h0 : n ≠ 0) (hn : n ≤ 2 ^ 32 - 16) (o' : Owner) :
    Uniform s bs (fun s => s.krealloc p n o') fun q u _ => ∃ m,
      u = s.overlaid m (moved s.owner p q o') := by
  intro hf q u hq
  have hblock := hf.owned.hasBlock hp
  obtain ⟨m, hk, hb', -⟩ := krealloc_over hf.blocks hblock h0 hn o'
  obtain ⟨rfl, rfl⟩ := Prod.mk.inj (Option.some.inj (hk.symm.trans hq))
  refine ⟨_, ⟨hb', hf.owned.move hf.blocks hp hu n o'⟩, ⟨m, rfl⟩, fun _ _ => .inl,
    fun m₀ hm₀ => ?_⟩
  obtain ⟨m', hk', hb'', hkeeps, -⟩ := krealloc_over (s := onBytes s m₀) hm₀ hblock h0 hn o'
  exact ⟨m', hk', hb'', hf.owned.sameBytes hkeeps fun q g hg _ => (hu q g hg).2.2⟩

theorem point {a : Alloc} (ha : held s.ramfs a.node = none) (hQ : Q b (s.pointTo a) bs) :
    Uniform s bs (fun s => some (b, s.pointTo a)) Q := by
  intro hf b' u hu
  cases hu
  exact ⟨bs, ⟨hf.blocks, hf.owned.point ha a.array⟩, hQ, fun _ _ => .inl,
    fun m hm => ⟨m, rfl, hm, fun _ _ _ _ _ => rfl⟩⟩

/-! ## The kernel -/

variable {α : Type}

theorem blind (call : Mem → Eff Kernel α) (answer : α → β) (post : α → Sys → Kernel → Sys)
    (hany : ∀ r k, call s.memory s.kernel = some (r, k) → ∀ m,
      call m (overMemory m s.kernel) = some (r, overMemory m k))
    (hpost : ∀ r m k, post r (onBytes s m) (overMemory m k) = onBytes (post r s k) m)
    (hkernel : ∀ r k, (post r s k).heap = ⟨k.stores.memory, s.freeList⟩)
    (h : ∀ r k, call s.memory s.kernel = some (r, k) →
      Owned (post r s k).owner (post r s k).arrays (held (post r s k).ramfs) bs ∧
        Q (answer r) (post r s k) bs ∧ Below s (post r s k)) : Uniform s bs
      (fun s => (call s.memory s.kernel).map fun r => (answer r.1, post r.1 s r.2)) Q := by
  intro hf b u hu
  obtain ⟨⟨r, k⟩, hr, hu⟩ := Option.map_eq_some_iff.mp hu
  obtain ⟨rfl, rfl⟩ := Prod.mk.inj hu
  have hmem : k.stores.memory = s.memory :=
    congrArg (fun r => r.2.stores.memory) (Option.some.inj (hr.symm.trans (hany r k hr s.memory)))
  have hheap := hkernel r k
  rw [hmem] at hheap
  obtain ⟨howned, hQ, hbelow⟩ := h r k hr
  refine ⟨bs, ⟨by rw [hheap]; exact hf.blocks, howned⟩, hQ, hbelow, fun m hm => ⟨m, ?_, ?_,
    fun _ _ _ _ _ => rfl⟩⟩
  · rw [← hpost]
    change (call m (overMemory m s.kernel)).map _ = _
    rw [hany r k hr]
    rfl
  · have hfree : (post r s k).freeList = s.freeList := congrArg HeapState.freeList hheap
    rw [hfree]
    exact hm

theorem run {call : Eff Kernel α} (hblind : Blind overMemory call) {answer : α → β}
    (h : ∀ r k, call s.kernel = some (r, k) → Owned s.owner s.arrays (held k.stores.ramfs) bs ∧
      Q (answer r) { s with kernel := k } bs ∧ Below s { s with kernel := k }) :
    Uniform s bs (fun s => s.run answer call) Q :=
  blind (fun _ => call) answer (fun _ s k => { s with kernel := k })
    (fun _ _ hr m => hblind.run hr m) (fun _ _ _ => rfl) (fun _ _ => rfl) h

end Uniform

end ContinuumOS.Vfs.AnyBytes
