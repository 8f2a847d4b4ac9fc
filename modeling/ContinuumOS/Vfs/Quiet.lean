import ContinuumOS.Vfs.AnyBytes
import ContinuumOS.Vfs.Runs

/-! # Calls that read and write no RAM file

Every call but the reads and writes of RAM files, and the stores of other code, does
the same over any bytes: those that make or free nodes, those on handles and tables,
and what other code takes from the heap and gives back. -/
namespace ContinuumOS.Vfs.Quiet
open ContinuumOS.Lib.Effect ContinuumOS.Lib.Memory ContinuumOS.Lib.Blindness
open ContinuumOS.Libc.String ContinuumOS.Heap.Model ContinuumOS.Heap.Layout
open ContinuumOS.Heap.Placing ContinuumOS.Ramfs.Nodes ContinuumOS.Ramfs.Holdings
open ContinuumOS.Vfs.Path ContinuumOS.Vfs.Adapters ContinuumOS.Vfs.Files ContinuumOS.Vfs.Calls
open ContinuumOS.Vfs.Transfers ContinuumOS.Vfs.Unseen
open ContinuumOS.Vfs.OnHeap ContinuumOS.Vfs.OnHeap.Sys
open ContinuumOS.Vfs.AnyBytes

/-- The nodes hold what they held, or are new. -/
def Grows (s u : Sys) : Prop :=
  ∀ q g, held u.ramfs q = some g → held s.ramfs q = some g ∨ held s.ramfs q = none

variable {s u : Sys} {bs bs' : List Block} {a : Alloc} {type : FSNodeType} {rounds n : Nat}
  {path relative : CStr}

theorem grows_of_held (h : held u.ramfs = held s.ramfs) : Grows s u := fun _ _ hg => .inl (h ▸ hg)

/-! ## New nodes -/

/-- The blocks of a new node are its own. -/
structure Granted (s : Sys) (a : Alloc) (u : Sys) : Prop where
  kernel : ∃ m, u.kernel = overMemory m s.kernel
  array : u.arrays a.node = a.array
  node : a.node ≠ 0 → held s.ramfs a.node = none ∧ u.owner a.node = some .node
  arrayOwner : a.node ≠ 0 → a.array ≠ 0 → u.owner a.array = some (.array a.node)
  dataOwner : a.node ≠ 0 → a.data ≠ 0 → u.owner a.data = some (.buffer a.node)

theorem taken_self {owner : Nat → Option Owner} {p : Nat} {o : Owner} (hp : p ≠ 0) :
    taken owner p o p = some o := by
  rw [taken, if_neg hp, Function.update_self]

theorem taken_of_some {owner : Nat → Option Owner} {p q : Nat} {o o' : Owner}
    (hp : p ≠ 0 → owner p = none) (hq : owner q = some o') : taken owner p o q = some o' := by
  rw [taken]
  split
  · exact hq
  · rename_i h0
    rw [Function.update_of_ne, hq]
    rintro rfl
    rw [hp h0] at hq
    cases hq

theorem allocated_node (node second : Ptr) (type : FSNodeType) :
    (allocated node second type).node = node := by
  cases type <;> rfl

theorem blocksFor_uniform (hf : Fits s bs) (starts : Bool) (type : FSNodeType) :
    Uniform s bs (fun s => s.blocksFor starts type) fun a u _ => Granted s a u := by
  refine Uniform.bind (K := fun node s =>
    (s.kmallocIf (node ≠ 0) (secondSize type) (secondOwner node type)).bind fun r =>
      some (allocated node r.1 type, r.2.pointTo (allocated node r.1 type)))
    (Uniform.kmallocIf starts sizeofFSNode .node) ?_
  rintro node u bs₁ hf₁ ⟨hfresh, m, rfl⟩
  have hnone : held s.ramfs node = none := by
    rw [Option.eq_none_iff_forall_not_mem]
    intro g hg
    have howner := hf.owned.node _ _ hg
    rw [(hfresh (hf.owned.ne_zero howner)).2] at howner
    cases howner
  refine Uniform.bind (K := fun second s =>
    some (allocated node second type, s.pointTo (allocated node second type)))
    (Uniform.kmallocIf _ (secondSize type) (secondOwner node type)) ?_
  rintro second u bs₂ - ⟨hfresh', m', rfl⟩
  refine Uniform.point (by rw [allocated_node]; exact hnone) ⟨⟨m', rfl⟩, Function.update_self _ _ _,
    fun h0 => ?_, fun h0 h1 => ?_, fun h0 h1 => ?_⟩
  · rw [allocated_node] at h0 ⊢
    exact ⟨hnone, taken_of_some (fun hs => (hfresh' hs).2) (taken_self h0)⟩
  · rw [allocated_node]
    cases type with
    | file => exact absurd rfl h1
    | directory => exact taken_self h1
  · rw [allocated_node]
    cases type with
    | file => exact taken_self h1
    | directory => exact absurd rfl h1

/-- A call that makes the node, if it does, out of the blocks. -/
def Makes {α : Type} (a : Alloc) (call : Eff Kernel α) : Prop := ∀ k r k', call k = some (r, k') →
  held k'.stores.ramfs = held k.stores.ramfs ∨ a.node ≠ 0 ∧ ∃ d, (d = 0 ∨ d = a.data) ∧
    held k'.stores.ramfs = Function.update (held k.stores.ramfs) a.node (some (d, 0))

theorem made_uniform {α β : Type} {answer : α → β} {call : Eff Kernel α} {bs₁ : List Block}
    (hblind : Blind overMemory call) (hmakes : Makes a call) (hf : Fits u bs₁)
    (h : Granted s a u) : Uniform u bs₁ (fun u => u.run answer call) fun _ w _ => Grows s w := by
  obtain ⟨m, hkernel⟩ := h.kernel
  have hu : held u.ramfs = held s.ramfs := congrArg (fun k => held k.stores.ramfs) hkernel
  refine Uniform.run hblind fun r k hr => ?_
  obtain hk | ⟨h0, d, hd, hk⟩ := hmakes _ r k hr
  · have hsame : held k.stores.ramfs = held u.ramfs := hk
    exact ⟨hsame ▸ hf.owned, grows_of_held (hsame.trans hu), fun q g hg => .inl (hsame ▸ hg)⟩
  have hset : held k.stores.ramfs = Function.update (held u.ramfs) a.node (some (d, 0)) := hk
  obtain ⟨hnone, hnode⟩ := h.node h0
  refine ⟨?_, fun q g hg => ?_, fun q g hg => ?_⟩
  · rw [hset]
    refine hf.owned.set hnode (fun ha => ?_) (fun hd0 => ?_) fun _ => rfl
    · rw [h.array] at ha ⊢
      exact h.arrayOwner h0 ha
    · obtain rfl := hd.resolve_left hd0
      have howner := h.dataOwner h0 hd0
      exact ⟨howner, hf.owned.hasBlock howner⟩
  · change held k.stores.ramfs q = some g at hg
    rw [hset, Function.update_apply] at hg
    split at hg
    · rename_i hq
      exact .inr (hq ▸ hnone)
    · exact .inl (hu ▸ hg)
  · change held k.stores.ramfs q = some g at hg
    rw [hset, Function.update_apply] at hg
    split at hg
    · cases hg
      exact .inr rfl
    · exact .inl hg

theorem make_uniform {call : Alloc → Eff Kernel Code} (hf : Fits s bs)
    (hblind : ∀ a, Blind overMemory (call a)) (hmakes : ∀ a, Makes a (call a)) (path : CStr) :
    Uniform s bs (fun s => s.make rounds type call path) fun _ u _ => Grows s u := by
  refine Uniform.look (f := fun s => s.allocates rounds path)
    (K := fun starts s => (s.blocksFor starts type).bind fun r => r.2.run Answer.code (call r.1))
    (fun _ => rfl) fun starts _ => ?_
  refine Uniform.bind (K := fun a s => s.run Answer.code (call a))
    (blocksFor_uniform hf starts type) ?_
  exact fun a u bs' hf' hgranted => made_uniform (hblind a) (hmakes a) hf' hgranted

theorem makes_vfsCreate (rounds : Nat) (path : CStr) (a : Alloc) :
    Makes a (vfsCreate rounds a path) := by
  intro k r k' h
  obtain rfl | ⟨i, ops, relative, -, -, hop⟩ := onPath_cases h
  · exact .inl rfl
  cases ops with
  | ramfs =>
    have hrun := Runs.onRamfs_run (f := fun s => fsTouch s a relative)
      (g := fun node => .ofBool (node ≠ 0)) hop
    obtain ⟨⟨node, fs⟩, htouch, rfl⟩ := Option.map_eq_some_iff.mp hrun
    obtain hsame | ⟨h0, hset⟩ := held_fsTouch htouch
    · exact .inl hsame
    · exact .inr ⟨h0, _, .inr rfl, hset⟩
  | fat32 => exact .inl (congrArg held (Runs.onFat32_run _ _ _ _ hop))

theorem makes_vfsMkdir (rounds : Nat) (path : CStr) (a : Alloc) :
    Makes a (vfsMkdir rounds a path) := by
  intro k r k' h
  obtain rfl | ⟨i, ops, relative, -, -, hop⟩ := onPath_cases h
  · exact .inl rfl
  cases ops with
  | ramfs =>
    have hrun := Runs.onRamfs_run (f := fun s => fsMkdir s a relative)
      (g := fun node => .ofBool (node ≠ 0)) hop
    obtain ⟨⟨node, fs⟩, hmkdir, rfl⟩ := Option.map_eq_some_iff.mp hrun
    obtain hsame | ⟨h0, hset⟩ := held_fsMkdir hmkdir
    · exact .inl hsame
    · exact .inr ⟨h0, 0, .inl rfl, hset⟩
  | fat32 => exact .inl (congrArg held (Runs.onFat32_run _ _ _ _ hop))

theorem init_uniform (hf : Fits s bs) :
    Uniform s bs (fun s => s.init) fun _ u _ => Grows s u := by
  refine Uniform.bind (P := fun s => s.blocksFor true .directory)
    (K := fun a s => if a.node = 0 then none
      else s.run (fun _ => Answer.nothing) (onStores (onRamfs fun s =>
        some ((), { (fsCreateNode s a rootStr .directory).2 with root := a.node }))))
    (blocksFor_uniform hf true .directory) fun a u bs' hf' hgranted => ?_
  by_cases h0 : a.node = 0
  · simp only [if_pos h0]
    exact nofun
  · simp only [if_neg h0]
    refine made_uniform (blind_onStores (blind_onRamfs _)) (fun k r k' h => ?_) hf' hgranted
    cases h
    exact .inr ⟨h0, 0, .inl rfl, held_fsCreateNode h0 _ _⟩

/-! ## Nodes that are freed -/

theorem freeNode_uniform {β : Type} {b : β} {w : Sys} {p data : Ptr} (hw : Fits w bs')
    (hp : w.owner p = some .node) (ha : w.arrays p ≠ 0 → w.owner (w.arrays p) = some (.array p))
    (hd : data ≠ 0 → w.owner data = some (.buffer p)) (hnone : held w.ramfs p = none) :
    Uniform w bs' (fun s => some (b, s.freeNode p data)) fun _ u _ =>
      held u.ramfs = held w.ramfs := by
  have hsame : Function.update (held w.ramfs) p none = held w.ramfs := by
    rw [← hnone, Function.update_eq_self]
  refine Uniform.congr (P := fun s => (some ((), s.kfree data)).bind fun r =>
    (some ((), r.2.kfree (w.arrays p))).bind fun r => (some ((), r.2.kfree p)).bind fun r =>
      some (b, r.2)) ?_ rfl fun _ => rfl
  refine Uniform.bind (K := fun _ s => (some ((), s.kfree (w.arrays p))).bind fun r =>
    (some ((), r.2.kfree p)).bind fun r => some (b, r.2)) (Uniform.kfree ?_) ?_
  · by_cases h0 : data = 0
    · exact .inl h0
    · exact .inr ⟨⟨_, hd h0⟩, hsame ▸ hw.owned.unheld_own (.inr (.inr (hd h0)))⟩
  rintro - u bs₁ hu ⟨m, rfl⟩
  have hpd : p ≠ data := fun he => by
    have howner := hd (he ▸ hw.owned.ne_zero hp)
    rw [← he, hp] at howner
    cases howner
  have hp₁ : Function.update w.owner data none p = some .node := by
    rw [Function.update_of_ne hpd, hp]
  have ha₁ (h0 : w.arrays p ≠ 0) :
      Function.update w.owner data none (w.arrays p) = some (.array p) := by
    rw [Function.update_of_ne, ha h0]
    intro he
    have howner := hd (he ▸ h0)
    rw [← he, ha h0] at howner
    cases howner
  refine Uniform.bind (K := fun _ s => (some ((), s.kfree p)).bind fun r => some (b, r.2))
    (Uniform.kfree ?_) ?_
  · by_cases h0 : w.arrays p = 0
    · exact .inl h0
    · exact .inr ⟨⟨_, ha₁ h0⟩, hsame ▸ hu.owned.unheld_own (.inr (.inl (ha₁ h0)))⟩
  rintro - u bs₂ hu₂ ⟨m', rfl⟩
  have hp₂ : Function.update (Function.update w.owner data none) (w.arrays p) none p =
      some .node := by
    rw [Function.update_of_ne, hp₁]
    intro he
    have howner := ha₁ (he ▸ hw.owned.ne_zero hp)
    rw [← he, hp₁] at howner
    cases howner
  refine Uniform.bind (K := fun _ s => some (b, s)) (Uniform.kfree ?_) ?_
  · exact .inr ⟨⟨_, hp₂⟩, hsame ▸ hu₂.owned.unheld_own (.inl ⟨hp₂, rfl⟩)⟩
  rintro - u bs₃ - ⟨m'', rfl⟩
  exact Uniform.pure rfl

/-- A call on a path that frees a node of the RAM file system, if it frees any. -/
structure Removes (operation : Ops → CStr → Fs Code) : Prop where
  ramfs : ∀ relative t code t', operation .ramfs relative t = some (code, t') →
    ∃ r, Frees t.ramfs relative r t'.ramfs ∧ code = .ofBool (decide (r = 0))
  fat32 : ∀ relative, Keeps Stores.ramfs (operation .fat32 relative)
  blind : ∀ ops relative, Blind setMemory (operation ops relative)

theorem removes_remove (rounds : Nat) : Removes (Ops.remove rounds) where
  ramfs relative t code t' h := by
    obtain ⟨⟨r, u⟩, hr, h⟩ := Option.bind_eq_some_iff.mp h
    obtain ⟨⟨r', fs⟩, hremove, hu⟩ := Option.map_eq_some_iff.mp hr
    cases hu
    cases h
    exact ⟨r', frees_fsRemove hremove, rfl⟩
  fat32 relative := Runs.onFat32_run _
  blind := blind_remove rounds

theorem removes_rmdir (rounds : Nat) : Removes (Ops.rmdir rounds) where
  ramfs relative t code t' h := by
    obtain ⟨⟨r, u⟩, hr, h⟩ := Option.bind_eq_some_iff.mp h
    obtain ⟨⟨r', fs⟩, hrmdir, hu⟩ := Option.map_eq_some_iff.mp hr
    cases hu
    cases h
    exact ⟨r', frees_fsRmdir hrmdir, rfl⟩
  fat32 relative := Runs.onFat32_run _
  blind := blind_rmdir rounds

theorem ramPath_resolves (h : s.ramPath rounds path = some (some relative)) :
    ∃ i, Resolves rounds s.kernel.vfs path i .ramfs relative := by
  rw [ramPath] at h
  split at h
  · cases h
  rename_i hinit
  obtain ⟨found, hfound, hr⟩ := Option.map_eq_some_iff.mp h
  cases found with
  | none => cases hr
  | some found =>
    obtain ⟨hops, hrel⟩ := Option.ite_none_right_eq_some.mp hr
    cases hrel
    exact ⟨found.1, not_not.mp hinit, hfound, hops⟩

theorem ramPath_of_resolves {i : Nat} (h : Resolves rounds s.kernel.vfs path i .ramfs relative) :
    s.ramPath rounds path = some (some relative) := by
  rw [ramPath, if_neg (not_not.mpr h.initialized), h.slot, Option.map_some]
  simp only [h.ops, if_true]

theorem removes_held {operation : Ops → CStr → Fs Code} (ho : Removes operation) {node : Ptr}
    {code : Code} {k : Kernel} (hnode : s.doomed rounds path = some node)
    (h : onPath rounds operation path s.kernel = some (code, k)) :
    if node ≠ 0 ∧ code = .success then (∃ x, s.ramfs.nodes node = some x) ∧
      held k.stores.ramfs = Function.update (held s.ramfs) node none
    else held k.stores.ramfs = held s.ramfs := by
  obtain ⟨found, hfound, hnode⟩ := Option.bind_eq_some_iff.mp hnode
  cases found with
  | none =>
    cases hnode
    rw [if_neg fun hc => hc.1 rfl]
    obtain rfl | ⟨i, ops, relative, hres, -, hop⟩ := onPath_cases h
    · rfl
    cases ops with
    | ramfs =>
      rw [ramPath_of_resolves hres] at hfound
      cases hfound
    | fat32 => exact congrArg held (ho.fat32 _ _ _ _ hop)
  | some relative =>
    obtain ⟨i, hres⟩ := ramPath_resolves hfound
    rw [onPath, bind_run, vfsLookup_ok hres] at h
    obtain ⟨-, hop⟩ := onStores_spec h
    obtain ⟨r, ⟨hr, hsame⟩ | ⟨rfl, p, x, hp, h0, hx, hheld⟩, rfl⟩ := ho.ramfs _ _ _ _ hop
    · have hfails : Code.ofBool (decide (r = 0)) ≠ .success := by
        rw [decide_eq_false hr]
        decide
      rw [if_neg fun hc => hfails hc.2]
      exact congrArg held hsame
    · obtain rfl := Option.some.inj (hp.symm.trans hnode)
      rw [if_pos ⟨h0, rfl⟩]
      exact ⟨⟨x, hx⟩, hheld⟩

theorem removal_uniform {operation : Ops → CStr → Fs Code} (hf : Fits s bs)
    (ho : Removes operation) (path : CStr) : Uniform s bs
      (fun s => s.removal rounds (onPath rounds operation path) path) fun _ u _ => Grows s u := by
  refine Uniform.look (f := fun s => s.doomed rounds path)
    (K := fun node s => (s.run id (onPath rounds operation path)).bind fun r =>
      some (Answer.code r.1, if node ≠ 0 ∧ r.1 = .success
        then r.2.freeNode node (((s.ramfs.nodes node).map FSNode.data).getD 0) else r.2))
    (fun _ => rfl) fun node hnode => ?_
  refine Uniform.congr (P := fun t => (t.run id (onPath rounds operation path)).bind fun r =>
    some (Answer.code r.1, if node ≠ 0 ∧ r.1 = .success
      then r.2.freeNode node (((s.ramfs.nodes node).map FSNode.data).getD 0) else r.2))
    ?_ rfl fun _ => rfl
  refine Uniform.bind (K := fun code t => some (Answer.code code, if node ≠ 0 ∧ code = .success
    then t.freeNode node (((s.ramfs.nodes node).map FSNode.data).getD 0) else t))
    (Q := fun code u _ => u.owner = s.owner ∧ u.arrays = s.arrays ∧
      if node ≠ 0 ∧ code = .success then (∃ x, s.ramfs.nodes node = some x) ∧
        held u.ramfs = Function.update (held s.ramfs) node none
      else held u.ramfs = held s.ramfs) (Uniform.run (blind_onPath ho.blind rounds path) ?_) ?_
  · intro code k hk
    have hheld := removes_held ho hnode hk
    refine ⟨?_, ⟨rfl, rfl, hheld⟩, fun q g hg => .inl ?_⟩
    · split at hheld
      · exact hheld.2 ▸ hf.owned.unset node
      · exact hheld ▸ hf.owned
    · change held k.stores.ramfs q = some g at hg
      split at hheld
      · rw [hheld.2, Function.update_apply] at hg
        exact (Option.ite_none_left_eq_some.mp hg).2
      · exact hheld ▸ hg
  · rintro code u bs₁ hu ⟨howner, harrays, hheld⟩
    by_cases hfree : node ≠ 0 ∧ code = .success
    · rw [if_pos hfree] at hheld
      obtain ⟨⟨x, hx⟩, hheld⟩ := hheld
      have hg := held_of_node hx
      simp only [if_pos hfree, hx, Option.map_some, Option.getD_some]
      refine (freeNode_uniform hu ?_ ?_ ?_ ?_).imp fun _ w _ hw q g hq => ?_
      · rw [howner]
        exact hf.owned.node _ _ hg
      · rw [howner, harrays]
        exact hf.owned.array _ _ hg
      · rw [howner]
        exact fun h0 => (hf.owned.buffer _ _ hg h0).1
      · rw [hheld, Function.update_self]
      · rw [hw, hheld, Function.update_apply] at hq
        exact .inl (Option.ite_none_left_eq_some.mp hq).2
    · rw [if_neg hfree] at hheld
      simp only [if_neg hfree]
      exact Uniform.pure (grows_of_held hheld)

/-! ## Handles, descriptors and other code -/

theorem runOn_uniform {α : Type} (answer : α → Answer)
    (call : Mem → VfsFile → Eff Kernel (α × VfsFile)) (hf : Fits s bs)
    (hany : ∀ f, s.handles[n]? = some f → ∀ r k, call s.memory f s.kernel = some (r, k) →
      k.stores.ramfs = s.ramfs ∧ ∀ m, call m f (overMemory m s.kernel) = some (r, overMemory m k)) :
    Uniform s bs (fun s => s.runOn n answer (call s.memory)) fun _ u _ => Grows s u := by
  cases hn : s.handles[n]? with
  | none =>
    refine Uniform.congr (P := fun s => some (Answer.nothing, s))
      (Uniform.pure (grows_of_held rfl)) ?_ fun m => ?_
    · rw [runOn, hn]
    · have hn' : (onBytes s m).handles[n]? = none := hn
      rw [runOn, hn']
  | some f =>
    refine Uniform.congr (P := fun s => (call s.memory f s.kernel).map fun r =>
      (answer r.1.1, { s with kernel := r.2, handles := s.handles.set n r.1.2 })) ?_ ?_ fun m => ?_
    · refine Uniform.blind (fun m => call m f) (fun r => answer r.1)
        (fun r s k => { s with kernel := k, handles := s.handles.set n r.2 })
        (fun r k hr => (hany f hn r k hr).2) (fun _ _ _ => rfl) (fun _ _ => rfl) fun r k hr => ?_
      have hheld : held k.stores.ramfs = held s.ramfs := congrArg held (hany f hn r k hr).1
      exact ⟨hheld ▸ hf.owned, grows_of_held hheld, fun q g hg => .inl (hheld ▸ hg)⟩
    · rw [runOn, hn]
    · have hn' : (onBytes s m).handles[n]? = some f := hn
      rw [runOn, hn']

theorem openFile_uniform (hf : Fits s bs) (rounds : Nat) (path : CStr) :
    Uniform s bs (fun s => call rounds s (.openFile path)) fun _ u _ => Grows s u := by
  refine Uniform.blind (fun _ => vfsOpen rounds path) (fun r => Answer.code r.1)
    (fun r s k => { s with kernel := k, handles := s.handles ++ r.2.toList })
    (fun r k hr m => (blind_vfsOpen rounds path).run hr m) (fun _ _ _ => rfl) (fun _ _ => rfl)
    fun r k hr => ?_
  have hheld : held k.stores.ramfs = held s.ramfs := congrArg held (vfsOpen_cases hr).1
  exact ⟨hheld ▸ hf.owned, grows_of_held hheld, fun q g hg => .inl (hheld ▸ hg)⟩

theorem held_onRamfs {α : Type} {f : FsState → Option (α × FsState)}
    (hf : ∀ t r t', f t = some (r, t') → held t' = held t) :
    Keeps (fun t : Stores => held t.ramfs) (onRamfs f) := by
  intro t r t' h
  obtain ⟨⟨r', fs⟩, hr, ht⟩ := Option.map_eq_some_iff.mp h
  obtain ⟨-, rfl⟩ := Prod.mk.inj ht
  exact hf _ _ _ hr

theorem held_sysOpen (path : CStr) :
    Keeps (fun t : Stores => held t.ramfs) (Transfers.sysOpen path) := by
  refine .bind (held_onRamfs fun t r t' h => ?_) fun node => .ite (fun _ => .pure _) fun _ =>
    held_onRamfs fun t r t' h => ?_
  · obtain ⟨p, -, hp⟩ := Option.map_eq_some_iff.mp h
    cases hp
    rfl
  · have ht := congrArg Prod.snd (Option.some.inj h)
    rw [fsOpen] at ht
    split at ht
    · exact (congrArg held ht).symm
    · exact (congrArg held ht).symm

theorem held_sysClose (fd : Nat) :
    Keeps (fun t : Stores => held t.ramfs) (Transfers.sysClose fd) := by
  refine held_onRamfs fun t r t' h => ?_
  have ht := congrArg Prod.snd (Option.some.inj h)
  rw [← show fsClose t fd = t' from ht, fsClose]
  split
  · split <;> rfl
  · rfl

theorem tables_uniform {α β : Type} {call : Eff Kernel α} {answer : α → β} (hf : Fits s bs)
    (hblind : Blind overMemory call)
    (hheld : ∀ r k, call s.kernel = some (r, k) → held k.stores.ramfs = held s.ramfs) :
    Uniform s bs (fun s => s.run answer call) fun _ u _ => Grows s u := by
  refine Uniform.run hblind fun r k hr => ?_
  have hsame := hheld r k hr
  exact ⟨hsame ▸ hf.owned, grows_of_held hsame, fun q g hg => .inl (hsame ▸ hg)⟩

theorem handlePlace_of_leads {f : VfsFile} {x : FSNode} (hn : s.handles[n]? = some f)
    (hl : Leads s.kernel f x) : s.handlePlace n = some (f.fsHandle, x, f.position) := by
  rw [handlePlace, hn]
  change (s.ramfs.nodes f.fsHandle).bind _ = _
  rw [show s.ramfs.nodes f.fsHandle = some x from hl.node]
  exact if_pos ⟨hl.reached, hl.notNull⟩

theorem handlePlace_none {f : VfsFile} (h : s.handlePlace n = none) (hn : s.handles[n]? = some f)
    (x : FSNode) : ¬ Leads s.kernel f x := by
  intro hl
  rw [handlePlace_of_leads hn hl] at h
  cases h

theorem descriptorPlace_none {fd : Nat} (h : s.descriptorPlace fd = none) (d : FileDescriptor)
    (x : FSNode) (hd : descriptor s.ramfs fd = some d) (h0 : d.node ≠ 0)
    (hx : s.ramfs.nodes d.node = some x) : x.type ≠ .file := by
  intro htype
  have hplace : s.descriptorPlace fd = some (d.node, x, d.offset) := by
    rw [descriptorPlace, hd]
    change (s.ramfs.nodes d.node).bind _ = _
    rw [hx]
    exact if_pos ⟨h0, htype⟩
  rw [hplace] at h
  cases h

theorem onDescriptor_uniform {α : Type} (answer : Option α → Answer) {fd : Nat}
    (rest : Mem → FileDescriptor → FSNode → Fs (Option α)) (hf : Fits s bs)
    (hno : s.descriptorPlace fd = none) : Uniform s bs
      (fun s => s.run answer (onStores (onDescriptor fd (rest s.memory)))) fun _ u _ =>
        Grows s u := by
  refine Uniform.blind (fun m => onStores (onDescriptor fd (rest m))) answer
    (fun _ s k => { s with kernel := k }) (fun r k hr m => ?_) (fun _ _ _ => rfl)
    (fun _ _ => rfl) fun r k hr => ?_
  · obtain ⟨⟨r', t⟩, ht, hr⟩ := Option.map_eq_some_iff.mp hr
    cases hr
    obtain ⟨rfl, hany⟩ := onDescriptor_any (rest m) (descriptorPlace_none hno) ht
    change (onDescriptor fd (rest m) (setMemory m s.kernel.stores)).map _ = _
    rw [hany]
    rfl
  · obtain ⟨⟨r', t⟩, ht, hr⟩ := Option.map_eq_some_iff.mp hr
    cases hr
    obtain ⟨rfl, -⟩ := onDescriptor_any (rest s.memory) (descriptorPlace_none hno) ht
    exact ⟨hf.owned, grows_of_held rfl, fun _ _ => .inl⟩

theorem client_uniform (hf : Fits s bs) {c : Client} (hc : s.Legit c)
    (hstore : ∀ p i v, c ≠ .store p i v) :
    Uniform s bs (fun s => call rounds s (.other c)) fun _ u _ => Grows s u := by
  cases c with
  | kmalloc n =>
    refine Uniform.congr (P := fun s => (s.kmalloc n .other).bind fun r => some (.nothing, r.2))
      (Uniform.bind (K := fun _ s => some (Answer.nothing, s)) (Uniform.kmalloc n .other) ?_) ?_ ?_
    · rintro p u bs₁ - ⟨-, m, rfl⟩
      exact Uniform.pure (grows_of_held rfl)
    · change ((s.kmalloc n .other).map Prod.snd).map _ = _
      cases s.kmalloc n .other <;> rfl
    · intro m
      change (((onBytes s m).kmalloc n .other).map Prod.snd).map _ = _
      cases (onBytes s m).kmalloc n .other <;> rfl
  | kfree p =>
    refine Uniform.congr (P := fun s => (some ((), s.kfree p)).bind fun r => some (.nothing, r.2))
      (Uniform.bind (K := fun _ s => some (Answer.nothing, s)) (Uniform.kfree ?_) ?_) rfl
      fun _ => rfl
    · exact .inr ⟨⟨_, hc⟩, hf.owned.unheld_other hc⟩
    · rintro - u bs₁ - ⟨m, rfl⟩
      exact Uniform.pure (grows_of_held rfl)
  | krealloc p n =>
    obtain ⟨hp, h0, hn⟩ := hc
    refine Uniform.congr (P := fun s => (s.krealloc p n .other).bind fun r => some (.nothing, r.2))
      (Uniform.bind (K := fun _ s => some (Answer.nothing, s))
        (Uniform.krealloc hp (hf.owned.unheld_other hp) h0 hn .other) ?_) ?_ ?_
    · rintro q u bs₁ - ⟨m, rfl⟩
      exact Uniform.pure (grows_of_held rfl)
    · change ((s.krealloc p n .other).map Prod.snd).map _ = _
      cases s.krealloc p n .other <;> rfl
    · intro m
      change (((onBytes s m).krealloc p n .other).map Prod.snd).map _ = _
      cases (onBytes s m).krealloc p n .other <;> rfl
  | store p i v => exact absurd rfl (hstore p i v)

/-- Calls that read and write no RAM file, and no stores. -/
def Still (s : Sys) : Act → Prop
  | .other (.store ..) => False
  | .other c => s.Legit c
  | act => s.place act = none

theorem write_nowhere {act : Act} (h : s.place act = none) (length : Nat)
    (call : Grown → Sys → Option (Answer × Sys)) : s.write act length call = call ⟨0, s.memory⟩ s := by
  rw [Sys.write, h]
  rfl

theorem place_over (s : Sys) (m : Mem) (o : Nat → Option Owner) (act : Act) :
    (s.overlaid m o).place act = s.place act := by
  cases act <;> rfl

theorem write_uniform {act : Act} (h : s.place act = none) (length : Nat)
    (call : Grown → Sys → Option (Answer × Sys)) {Q : Answer → Sys → List Block → Prop}
    (hcall : Uniform s bs (fun s => call ⟨0, s.memory⟩ s) Q) :
    Uniform s bs (fun s => s.write act length call) Q :=
  hcall.congr (write_nowhere h length call) fun m =>
    write_nowhere ((place_over s m s.owner act).trans h) length call

/-- **Calls that read and write no RAM file do the same over any bytes.** -/
theorem still_uniform (hf : Fits s bs) {act : Act} (h : Still s act) :
    Uniform s bs (fun s => call rounds s act) fun _ u _ => Grows s u := by
  cases act with
  | init => exact init_uniform hf
  | mount mountpoint fsType deviceId ops =>
    exact tables_uniform hf (blind_onVfs _) fun r k hr => by cases hr; rfl
  | mountFat32 mountpoint deviceId =>
    have hkeeps : Keeps (fun k : Kernel => k.stores.ramfs) (fat32VfsMount mountpoint deviceId) := by
      refine .bind (fun k r k' hr => ?_) fun _ => .ite (fun _ k r k' hr => ?_) fun _ => .pure _
      · exact onFat32_ramfs _ _ _ _ (onStores_spec hr).2
      · cases hr
        rfl
    exact tables_uniform hf (blind_fat32VfsMount _ _) fun r k hr => congrArg held (hkeeps _ _ _ hr)
  | unmount mountpoint =>
    refine tables_uniform hf (blind_vfsUnmount _) fun r k hr => ?_
    obtain ⟨-, rfl⟩ | ⟨-, hram, -⟩ := vfsUnmount_cases hr
    · rfl
    · exact congrArg held hram
  | create path =>
    exact make_uniform hf (fun a => blind_onPath (blind_create a) rounds path)
      (makes_vfsCreate rounds path) path
  | mkdir path =>
    exact make_uniform hf (fun a => blind_onPath (blind_mkdir a) rounds path)
      (makes_vfsMkdir rounds path) path
  | remove path => exact removal_uniform hf (removes_remove rounds) path
  | rmdir path => exact removal_uniform hf (removes_rmdir rounds) path
  | openFile path => exact openFile_uniform hf rounds path
  | read n size =>
    exact runOn_uniform .bytes (fun _ f => vfsRead f size) hf fun f hn r k hr =>
      vfsRead_any (handlePlace_none h hn) hr
  | write n src =>
    refine write_uniform h src.length (fun g s => s.runOn n .count fun f => vfsWrite g f src)
      (runOn_uniform .count (fun m f => vfsWrite ⟨0, m⟩ f src) hf fun f hn r k hr => ?_)
    obtain ⟨hram, hany⟩ := vfsWrite_any (handlePlace_none h hn) hr
    exact ⟨hram, fun m => hany ⟨0, m⟩ m⟩
  | seek n position =>
    refine runOn_uniform .code (fun _ f => vfsSeek f position) hf fun f hn r k hr => ⟨?_, fun m =>
      (blind_vfsSeek f position).run hr m⟩
    exact congrArg Prod.snd (vfsSeek_cases hr).1
  | close n =>
    have hblind (f : VfsFile) : Blind overMemory (do return ((), ← vfsClose f)) :=
      .bind (blind_vfsClose f) fun _ => .pure _
    refine runOn_uniform (fun _ => .nothing) (fun _ f => do return ((), ← vfsClose f)) hf
      fun f hn r k hr => ⟨?_, fun m => (hblind f).run hr m⟩
    obtain ⟨f', t, ht, hr⟩ := bind_eq_some hr
    cases hr
    obtain ⟨k', hclose, hram, -⟩ := vfsClose_spec f s.kernel
    obtain ⟨-, rfl⟩ := Prod.mk.inj (Option.some.inj (hclose.symm.trans ht))
    exact hram
  | sysOpen path =>
    refine tables_uniform hf (blind_onStores (blind_sysOpen path)) fun r k hr => ?_
    exact held_sysOpen path _ _ _ (onStores_spec hr).2
  | sysRead fd size =>
    obtain ⟨rest, hrest⟩ := sysRead_onDescriptor fd size
    have huniform := onDescriptor_uniform .bytes (fun _ => rest) hf h
    rw [← hrest] at huniform
    exact huniform
  | sysWrite fd src =>
    obtain ⟨rest, hrest⟩ := sysWrite_onDescriptor fd src
    have huniform := onDescriptor_uniform .count (fun m => rest ⟨0, m⟩) hf h
    simp only [← hrest] at huniform
    exact write_uniform h src.length (fun g s => s.run .count (onStores (sysWrite g fd src))) huniform
  | sysClose fd =>
    have hblind := blind_onStores (blind_sysClose fd)
    change Uniform s bs (fun s => s.run (fun _ => Answer.nothing) _) _
    exact tables_uniform hf hblind fun r k hr => held_sysClose fd _ _ _ (onStores_spec hr).2
  | other c =>
    cases c with
    | store p i v => exact False.elim h
    | kmalloc n => exact client_uniform hf h nofun
    | kfree p => exact client_uniform hf h nofun
    | krealloc p n => exact client_uniform hf h nofun

end ContinuumOS.Vfs.Quiet
