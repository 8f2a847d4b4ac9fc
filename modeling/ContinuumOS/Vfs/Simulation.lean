import ContinuumOS.Vfs.RamfsCalls
import ContinuumOS.Vfs.Writing

/-! # The heap under the calls

A call on the kernel's heap does to the tables and to the tree what the call does whose
`kmalloc` returns what it likes: the heap is one of the allocators that the results
about trees and handles are for. -/
namespace ContinuumOS.Vfs.Simulation
open ContinuumOS.Lib.Effect ContinuumOS.Lib.Memory ContinuumOS.Libc.String
open ContinuumOS.Heap.Model ContinuumOS.Heap.Layout
open ContinuumOS.Ramfs.Nodes ContinuumOS.Ramfs.Runs
open ContinuumOS.Ramfs.Soundness ContinuumOS.Ramfs.Backing
open ContinuumOS.Ramfs.Lookup
open ContinuumOS.Vfs.Adapters ContinuumOS.Vfs.Files ContinuumOS.Vfs.Calls
open ContinuumOS.Vfs.Runs (mallocable)
open ContinuumOS.Vfs.Transfers ContinuumOS.Vfs.Unseen
open ContinuumOS.Vfs.OnHeap ContinuumOS.Vfs.OnHeap.Sys ContinuumOS.Vfs.AnyBytes
open ContinuumOS.Vfs.Quiet ContinuumOS.Vfs.Writing ContinuumOS.Vfs.RamfsCalls

/-- The kernel and the handles, without what the heap keeps. -/
def plain (s : Sys) : Runs.Sys := ⟨s.kernel, s.handles⟩

/-- Other bytes of the memory. -/
def remembering (m : Mem) (s : Runs.Sys) : Runs.Sys := { s with kernel := overMemory m s.kernel }

/-- The calls of the virtual file system. -/
def OfVfs : Act → Prop
  | .init | .sysOpen _ | .sysRead .. | .sysWrite .. | .sysClose _ | .other _ => False
  | _ => True

variable {s t u : Sys} {bs : List Block} {fuel rounds n : Nat} {act : Act} {r : Answer}
  {path : CStr} {m : Mem}

theorem run_plain {α β : Type} {answer : α → β} {b : β} {c : Eff Kernel α}
    (h : s.run answer c = some (b, u)) : (plain s).run c = some (plain u) := by
  obtain ⟨⟨a, k⟩, hk, hr⟩ := Option.map_eq_some_iff.mp h
  cases hr
  change (c s.kernel).map _ = _
  rw [hk]
  rfl

theorem runOn_plain {α : Type} {answer : α → Answer} {c : VfsFile → Eff Kernel (α × VfsFile)}
    (h : s.runOn n answer c = some (r, u)) :
    (plain s).runOn n (fun f => do return (← c f).2) = some (plain u) := by
  unfold Runs.Sys.runOn
  unfold Sys.runOn at h
  cases hn : s.handles[n]? with
  | none =>
    rw [hn] at h
    rw [show (plain s).handles[n]? = none from hn]
    cases h
    rfl
  | some f =>
    rw [hn] at h
    obtain ⟨⟨⟨a, f'⟩, k⟩, hk, hr⟩ := Option.map_eq_some_iff.mp h
    cases hr
    rw [show (plain s).handles[n]? = some f from hn]
    simp only [bind_run]
    change ((c f s.kernel).bind _).map _ = _
    rw [hk]
    rfl

/-- Only bytes of the memory are different to callers. -/
def Alters (s t : Sys) : Prop := ∃ m, plain t = remembering m (plain s)

theorem Alters.refl (s : Sys) : Alters s s := ⟨s.memory, rfl⟩

theorem Alters.trans (h : Alters s t) (h' : Alters t u) : Alters s u := by
  obtain ⟨m, hm⟩ := h
  obtain ⟨m', hm'⟩ := h'
  exact ⟨m', by rw [hm', hm]; rfl⟩

theorem Alters.ramfs (h : Alters s t) : t.ramfs = s.ramfs := by
  obtain ⟨m, hm⟩ := h
  exact congrArg (fun k : Runs.Sys => k.kernel.stores.ramfs) hm

theorem alters_kmalloc {size p : Nat} {o : Owner} (h : s.kmalloc size o = some (p, t)) :
    Alters s t := by
  obtain ⟨q, -, hq⟩ := Option.map_eq_some_iff.mp h
  cases hq
  exact ⟨q.2.mem, rfl⟩

theorem alters_kmallocIf {gets : Bool} {size p : Nat} {o : Owner}
    (h : s.kmallocIf gets size o = some (p, t)) : Alters s t := by
  rw [Sys.kmallocIf] at h
  split at h
  · exact alters_kmalloc h
  · cases h
    exact .refl _

theorem alters_krealloc {size p q : Nat} {o : Owner} (h : s.krealloc p size o = some (q, t)) :
    Alters s t := by
  obtain ⟨q', -, hq⟩ := Option.map_eq_some_iff.mp h
  cases hq
  exact ⟨q'.2.mem, rfl⟩

theorem alters_kfree (s : Sys) (p : Nat) : Alters s (s.kfree p) :=
  ⟨(Heap.Model.kfree p s.heap).mem, rfl⟩

theorem alters_freeNode (s : Sys) (node data : Ptr) : Alters s (s.freeNode node data) :=
  ((alters_kfree s data).trans (alters_kfree _ _)).trans (alters_kfree _ _)

theorem alters_blocksFor {starts : Bool} {type : FSNodeType} {a : Alloc}
    (h : s.blocksFor starts type = some (a, t)) : Alters s t := by
  obtain ⟨⟨node, t₁⟩, h₁, h⟩ := Option.bind_eq_some_iff.mp h
  obtain ⟨⟨second, t₂⟩, h₂, h⟩ := Option.bind_eq_some_iff.mp h
  cases h
  have hsecond : Alters t₁ t₂ := alters_kmallocIf h₂
  exact (alters_kmallocIf h₁).trans hsecond

theorem alters_grow {place : Option (Ptr × FSNode × Nat)} {length q : Nat}
    (h : s.grow place length = some (q, t)) : Alters s t := by
  unfold Sys.grow at h
  split at h
  · cases h
    exact .refl _
  split at h
  · cases h
    exact .refl _
  rw [Sys.growTo] at h
  split at h
  · exact alters_kmalloc h
  · exact alters_krealloc h

theorem mallocable_blocksFor (hf : Fits s bs) {starts : Bool} {type : FSNodeType} {a : Alloc}
    (h : s.blocksFor starts type = some (a, t)) : mallocable t.ramfs a = true := by
  obtain ⟨bs', -, hgranted, -⟩ := blocksFor_uniform hf starts type hf a t h
  rw [mallocable, Bool.or_eq_true, beq_iff_eq, Option.isNone_iff_eq_none, (alters_blocksFor h).ramfs]
  by_cases h0 : a.node = 0
  · exact .inl h0
  · exact .inr (Option.map_eq_none_iff.mp (hgranted.node h0).1)

/-- **A call of the virtual file system on the heap** is a call over some allocator, up to
the bytes of the memory. -/
theorem call_steps (hf : Fits s bs) (hact : OfVfs act) (h : call (fuel + 1) s act = some (r, u)) :
    ∃ m act' t, Runs.step fuel (remembering m (plain s)) act' = some t ∧
      ∃ m', plain u = remembering m' t := by
  have hsame (t : Runs.Sys) : t = remembering t.kernel.stores.memory t := rfl
  cases act with
  | mount mountpoint fsType deviceId ops =>
    exact ⟨s.memory, .mount mountpoint fsType deviceId ops, _, run_plain h, _, hsame _⟩
  | mountFat32 mountpoint deviceId =>
    exact ⟨s.memory, .mountFat32 mountpoint deviceId, _, run_plain h, _, hsame _⟩
  | unmount mountpoint => exact ⟨s.memory, .unmount mountpoint, _, run_plain h, _, hsame _⟩
  | create path =>
    obtain ⟨starts, -, h⟩ := Option.bind_eq_some_iff.mp h
    obtain ⟨⟨a, t⟩, ht, h⟩ := Option.bind_eq_some_iff.mp h
    obtain ⟨m, hm⟩ := alters_blocksFor ht
    refine ⟨m, .create a path, plain u, ?_, _, hsame _⟩
    rw [← hm, Runs.step]
    exact (if_pos (mallocable_blocksFor hf ht)).trans (run_plain h)
  | mkdir path =>
    obtain ⟨starts, -, h⟩ := Option.bind_eq_some_iff.mp h
    obtain ⟨⟨a, t⟩, ht, h⟩ := Option.bind_eq_some_iff.mp h
    obtain ⟨m, hm⟩ := alters_blocksFor ht
    refine ⟨m, .mkdir a path, plain u, ?_, _, hsame _⟩
    rw [← hm, Runs.step]
    exact (if_pos (mallocable_blocksFor hf ht)).trans (run_plain h)
  | remove path =>
    obtain ⟨node, -, h⟩ := Option.bind_eq_some_iff.mp h
    obtain ⟨⟨code, t⟩, ht, h⟩ := Option.bind_eq_some_iff.mp h
    obtain ⟨-, hu⟩ := Prod.mk.inj (Option.some.inj h)
    refine ⟨s.memory, .remove path, plain t, run_plain ht, ?_⟩
    rw [← hu]
    split
    · exact alters_freeNode _ _ _
    · exact Alters.refl t
  | rmdir path =>
    obtain ⟨node, -, h⟩ := Option.bind_eq_some_iff.mp h
    obtain ⟨⟨code, t⟩, ht, h⟩ := Option.bind_eq_some_iff.mp h
    obtain ⟨-, hu⟩ := Prod.mk.inj (Option.some.inj h)
    refine ⟨s.memory, .rmdir path, plain t, run_plain ht, ?_⟩
    rw [← hu]
    split
    · exact alters_freeNode _ _ _
    · exact Alters.refl t
  | openFile path =>
    obtain ⟨⟨⟨code, handle⟩, k⟩, hk, hr⟩ := Option.map_eq_some_iff.mp h
    cases hr
    refine ⟨s.memory, .openFile path, _, ?_, _, hsame _⟩
    change (vfsOpen (fuel + 1) path s.kernel).map _ = _
    rw [hk]
    rfl
  | read n size => exact ⟨s.memory, .read n size, _, runOn_plain h, _, hsame _⟩
  | write n src =>
    obtain ⟨⟨q, t⟩, ht, h⟩ := Option.bind_eq_some_iff.mp h
    obtain ⟨m, hm⟩ := alters_grow ht
    refine ⟨m, .write n ⟨q, t.memory⟩ src, plain u, ?_, _, hsame _⟩
    rw [← hm]
    exact runOn_plain h
  | seek n position => exact ⟨s.memory, .seek n position, _, runOn_plain h, _, hsame _⟩
  | close n =>
    have h' : s.runOn n (fun _ => Answer.nothing) (fun f => do return ((), ← vfsClose f)) =
      some (r, u) := h
    refine ⟨s.memory, .close n, _, ?_, _, hsame _⟩
    have hclose := runOn_plain h'
    have hsnd : (fun f => do return (← (do return ((), ← vfsClose f))).2) = vfsClose := by
      funext f k
      simp only [bind_run]
      cases vfsClose f k <;> rfl
    rw [hsnd] at hclose
    exact hclose
  | _ => exact False.elim hact

/-- What no byte of the memory tells and every step keeps, the calls on the heap keep. -/
theorem call_keeps {P : Runs.Sys → Prop} (hbytes : ∀ m t, P t → P (remembering m t))
    (hstep : ∀ t act t', P t → Runs.step fuel t act = some t' → P t') (hf : Fits s bs)
    (hact : OfVfs act) (h : call (fuel + 1) s act = some (r, u)) (hs : P (plain s)) :
    P (plain u) := by
  obtain ⟨m, act', t, ht, m', hu⟩ := call_steps hf hact h
  rw [hu]
  exact hbytes m' t (hstep _ _ _ (hbytes m _ hs) ht)

/-! ## The tree under all calls -/

/-- What a session asks of the kernel: no second `fs_init`, and descriptors for files. -/
def Mild (s : Sys) : Act → Prop
  | .init => False
  | .sysOpen path => ∀ p ∈ fsFindByPath s.ramfs path, p ≠ 0 →
      (s.ramfs.nodes p).map FSNode.type = some .file
  | act => Tame s act

instance (s : Sys) : DecidablePred (Mild s)
  | .init => .isFalse id
  | .sysOpen path => inferInstanceAs (Decidable (∀ p ∈ fsFindByPath s.ramfs path, p ≠ 0 →
      (s.ramfs.nodes p).map FSNode.type = some .file))
  | .write n src => inferInstanceAs (Decidable (Tame s (.write n src)))
  | .sysWrite fd src => inferInstanceAs (Decidable (Tame s (.sysWrite fd src)))
  | .sysRead fd size => inferInstanceAs (Decidable (Tame s (.sysRead fd size)))
  | .other c => inferInstanceAs (Decidable (s.Legit c))
  | .mount .. | .mountFat32 .. | .unmount _ | .create _ | .mkdir _ | .remove _ | .rmdir _
  | .openFile _ | .read .. | .seek .. | .close _ | .sysClose _ => .isTrue trivial

theorem Mild.tame (h : Mild s act) : Tame s act := by
  cases act with
  | init => exact trivial
  | sysOpen path => exact trivial
  | _ => exact h

theorem rooted_remembering (m : Mem) (t : Runs.Sys) (h : Rooted t) : Rooted (remembering m t) :=
  ⟨h.cwd, h.sound⟩

theorem fsWrite_rewritten {g : Grown} {file offset : Nat} {src : List UInt8} {k k' : Stores}
    {written : Option Nat} (h : fsWrite g file offset src k = some (written, k')) :
    Rewritten k.ramfs k'.ramfs := by
  rw [fsWrite] at h
  simp only [ite_run] at h
  split at h
  · cases h
    exact .inl rfl
  obtain ⟨x, t, hx, h⟩ := bind_eq_some h
  obtain ⟨rfl, hm⟩ := loadNode_spec hx
  simp only [ite_run] at h
  split at h
  · cases h
    exact .inl rfl
  split at h
  · split at h
    · cases h
      exact .inl rfl
    · cases h
      exact .inr ⟨_, x, _, _, hm, rfl⟩
  · cases h
    exact .inl rfl

theorem sysWrite_rewritten {g : Grown} {fd : Nat} {src : List UInt8} {k k' : Stores}
    {written : Option Nat} (h : sysWrite g fd src k = some (written, k')) :
    Rewritten k.ramfs k'.ramfs := by
  rw [sysWrite] at h
  simp only [bind_run, get_run, Option.bind_some] at h
  cases hd : descriptor k.ramfs fd with
  | none =>
    rw [hd] at h
    cases h
    exact .inl rfl
  | some d =>
    rw [hd] at h
    exact fsWrite_rewritten h

theorem ramfs_sysRead (fd size : Nat) : Keeps Stores.ramfs (sysRead fd size) := by
  refine .get_bind fun s => ?_
  cases descriptor s.ramfs fd with
  | none => exact .pure _
  | some d =>
    refine .ite (fun _ => .pure _) fun _ => .bind (fun t x t' hx => ?_) fun x => ?_
    · rw [(loadNode_spec hx).1]
    · exact .ite (fun _ => .pure _) fun _ => .ite (fun _ => .pure _) fun _ =>
        .get_bind fun _ => .pure _

theorem sound_sysOpen (hs : Sound s.ramfs) (hact : Mild s (.sysOpen path)) {fd : Option Nat}
    {k : Stores} (h : sysOpen path s.kernel.stores = some (fd, k)) : Sound k.ramfs := by
  obtain ⟨p, t, hp, h⟩ := bind_eq_some h
  obtain ⟨q, hq, hpair⟩ := Option.map_eq_some_iff.mp hp
  obtain ⟨p', hfind, hq'⟩ := Option.map_eq_some_iff.mp hq
  cases hq'
  cases hpair
  simp only [ite_run] at h
  split at h
  · cases h
    exact hs
  rename_i h0
  obtain ⟨⟨fd', ramfs⟩, hopen, hr⟩ := Option.map_eq_some_iff.mp h
  cases hr
  obtain ⟨c, hc, hreach⟩ := fsFindByPath_spec hs path
  obtain rfl := Option.some.inj (((alike_backedState _).fsFindByPath path ▸ hc).symm.trans hfind)
  obtain ⟨x, hx, htype⟩ := Option.map_eq_some_iff.mp (hact c hfind h0)
  have hinv := inv_fsOpen hs (hreach.resolve_left h0)
    ⟨_, backedState_nodes hx, (backed_type x).trans htype⟩
  have hback : backedState (fsOpen s.ramfs c).2 = (fsOpen (backedState s.ramfs) c).2 := by
    rw [fsOpen, fsOpen, backedState_fdTable]
    split <;> rfl
  rw [Sound, show ramfs = (fsOpen s.ramfs c).2 from congrArg Prod.snd (Option.some.inj hopen).symm,
    hback]
  exact hinv

theorem sound_sysClose (hs : Sound s.ramfs) (fd : Nat) : Sound (fsClose s.ramfs fd) := by
  have hback : backedState (fsClose s.ramfs fd) = fsClose (backedState s.ramfs) fd := by
    rw [fsClose, fsClose, backedState_fdTable]
    split
    · split <;> rfl
    · rfl
  rw [Sound, hback]
  exact inv_fsClose hs fd

theorem alters_client {c : Client} (h : s.client c = some t) : Alters s t := by
  cases c with
  | kfree p =>
    cases h
    exact alters_kfree s p
  | store p i v =>
    cases h
    exact ⟨_, rfl⟩
  | kmalloc size =>
    obtain ⟨⟨q, w⟩, hq, rfl⟩ := Option.map_eq_some_iff.mp h
    exact alters_kmalloc hq
  | krealloc p size =>
    obtain ⟨⟨q, w⟩, hq, rfl⟩ := Option.map_eq_some_iff.mp h
    exact alters_krealloc hq

theorem Alters.rooted (h : Alters s t) (hs : Rooted (plain s)) : Rooted (plain t) := by
  obtain ⟨m, hm⟩ := h
  rw [hm]
  exact rooted_remembering m _ hs

theorem rooted_stores {α β : Type} {answer : α → β} {b : β} {c : Fs α} (hs : Rooted (plain s))
    (h : s.run answer (onStores c) = some (b, u))
    (hc : ∀ a k, c s.kernel.stores = some (a, k) → Sound k.ramfs) : Rooted (plain u) := by
  obtain ⟨⟨a, k⟩, hk, hr⟩ := Option.map_eq_some_iff.mp h
  obtain ⟨hvfs, hstores⟩ := onStores_spec hk
  cases hr
  exact ⟨by rw [plain]; exact hvfs ▸ hs.cwd, hc _ _ hstores⟩

/-- **Every call keeps the directories those of a tree**, and the working directory. -/
theorem call_rooted (hf : Fits s bs) (hact : Mild s act)
    (h : call (fuel + 1) s act = some (r, u)) (hs : Rooted (plain s)) : Rooted (plain u) := by
  have hvfs : OfVfs act → Rooted (plain u) := fun hof =>
    call_keeps rooted_remembering (fun _ _ _ ht h => ht.step h) hf hof h hs
  cases act with
  | init => exact False.elim hact
  | sysOpen path => exact rooted_stores hs h fun fd k hk => sound_sysOpen hs.sound hact hk
  | sysRead fd size =>
    refine rooted_stores hs h fun bytes k hk => ?_
    rw [ramfs_sysRead fd size _ _ _ hk]
    exact hs.sound
  | sysWrite fd src =>
    obtain ⟨⟨q, t⟩, ht, h⟩ := Option.bind_eq_some_iff.mp h
    have hs' := (alters_grow ht).rooted hs
    refine rooted_stores hs' h fun written k hk => ?_
    exact (rewritten_keeps (sysWrite_rewritten hk) hs'.sound).1
  | sysClose fd =>
    have h' : s.run (fun _ => Answer.nothing) (onStores (Transfers.sysClose fd)) = some (r, u) := h
    refine rooted_stores hs h' fun a k hk => ?_
    obtain ⟨-, rfl⟩ := Prod.mk.inj (Option.some.inj hk)
    exact sound_sysClose hs.sound fd
  | other c =>
    obtain ⟨t, ht, hr⟩ := Option.map_eq_some_iff.mp h
    cases hr
    exact (alters_client ht).rooted hs
  | _ => exact hvfs trivial

end ContinuumOS.Vfs.Simulation
