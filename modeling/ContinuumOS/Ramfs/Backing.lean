import ContinuumOS.Ramfs.Likeness

/-! # Directories without an array

`fs_create_node` keeps a directory whose array of children `kmalloc` did not
give. Nothing can be listed there, and a call that adds a child faults. Give
such directories an array (`backed`): a call that comes back does the same
with the arrays as without them. -/
namespace ContinuumOS.Ramfs.Backing
open ContinuumOS.Libc.String
open ContinuumOS.Ramfs.Nodes ContinuumOS.Ramfs.Likeness

variable {s s' t : FsState} {p q : Ptr} {n x : FSNode}

/-- An empty directory without an array gets one. -/
def backed (n : FSNode) : FSNode :=
  if n.type = .directory ∧ n.children = none ∧ n.childCount = 0 then
    { n with children := some (List.replicate maxChildren 0) }
  else n

def backedState (s : FsState) : FsState := { s with nodes := Option.map backed ∘ s.nodes }

@[simp] theorem backedState_fdTable (s : FsState) : (backedState s).fdTable = s.fdTable := rfl

theorem backed_of_array {slots : List Ptr} (h : n.children = some slots) : backed n = n :=
  if_neg fun hb => by rw [h] at hb; cases hb.2.1

theorem backed_listed (n : FSNode) : (backed n).listed = n.listed := by
  unfold backed
  split
  · rename_i h
    rw [FSNode.listed, FSNode.listed, h.2.2, List.take_zero, List.take_zero]
  · rfl

theorem backed_eq (n : FSNode) : ∃ children, backed n = { n with children } := by
  unfold backed
  split
  · exact ⟨_, rfl⟩
  · exact ⟨_, rfl⟩

@[simp] theorem backed_name (n : FSNode) : (backed n).name = n.name := by
  obtain ⟨_, h⟩ := backed_eq n
  rw [h]

@[simp] theorem backed_type (n : FSNode) : (backed n).type = n.type := by
  obtain ⟨_, h⟩ := backed_eq n
  rw [h]

@[simp] theorem backed_parent (n : FSNode) : (backed n).parent = n.parent := by
  obtain ⟨_, h⟩ := backed_eq n
  rw [h]

@[simp] theorem backed_childCount (n : FSNode) : (backed n).childCount = n.childCount := by
  obtain ⟨_, h⟩ := backed_eq n
  rw [h]

theorem backed_look (n : FSNode) : look (backed n) = look n := by
  rw [look, look, backed_listed, backed_name, backed_type, backed_parent]

theorem backed_adopt (n : FSNode) (p : Ptr) :
    backed { n with parent := p } = { backed n with parent := p } := by
  unfold backed
  split <;> rfl

theorem backed_rewrite (n : FSNode) (data size : Nat) :
    backed { n with data, size } = { backed n with data, size } := by
  unfold backed
  split <;> rfl

theorem backedState_nodes (h : s.nodes p = some n) : (backedState s).nodes p = some (backed n) :=
  congrArg (Option.map backed) h

theorem backedState_store (s : FsState) (p : Ptr) (n : FSNode) :
    backedState (s.store p n) = (backedState s).store p (backed n) :=
  congrArg (FsState.mk s.root · s.fdTable) (Function.comp_update _ _ _ _)

theorem backedState_release (s : FsState) (p : Ptr) :
    backedState (s.release p) = (backedState s).release p :=
  congrArg (FsState.mk s.root · s.fdTable) (Function.comp_update _ _ _ _)

theorem alike_backedState (s : FsState) : Alike s (backedState s) := by
  refine ⟨rfl, fun p => ?_⟩
  change ((s.nodes p).map backed).map look = _
  rw [Option.map_map]
  exact congrArg (fun f => (s.nodes p).map f) (funext backed_look)

/-! ## The calls with and without the arrays -/

theorem fsAddChild_backed {parent child : Ptr} (h : fsAddChild s parent child = some s') :
    fsAddChild (backedState s) parent child = some (backedState s') := by
  rw [fsAddChild] at h ⊢
  split at h
  · rename_i hnull
    cases h
    rw [if_pos hnull]
  rename_i hnull
  obtain ⟨x, hx, h⟩ := Option.bind_eq_some_iff.mp h
  rw [if_neg hnull, backedState_nodes hx]
  simp only [Option.bind_eq_bind, Option.bind_some, backed_type, backed_childCount]
  split at h
  · rename_i htype
    cases h
    rw [if_pos htype]
  rename_i htype
  split at h
  · rename_i hfull
    cases h
    rw [if_neg htype, if_pos hfull]
  rename_i hroom
  obtain ⟨slots, hslots, h⟩ := Option.bind_eq_some_iff.mp h
  obtain ⟨c, hc, h⟩ := Option.bind_eq_some_iff.mp h
  cases h
  have hgrown : backed { x with
      children := some (slots.set x.childCount child), childCount := x.childCount + 1 } =
      { x with children := some (slots.set x.childCount child)
               childCount := x.childCount + 1 } := backed_of_array rfl
  have hnode := backedState_nodes hc
  rw [backedState_store, hgrown] at hnode
  rw [if_neg htype, if_neg hroom, backed_of_array hslots, hslots, Option.bind_some, hnode,
    Option.bind_some, backedState_store, backedState_store, backed_adopt c parent, hgrown]

/-- The same answers of `kmalloc`, but with an array. -/
def withArray (a : Alloc) : Alloc := { a with array := 1 }

theorem fsCreateNode_backed (s : FsState) (a : Alloc) (name : CStr) (type : FSNodeType) :
    fsCreateNode (backedState s) (withArray a) name type =
      ((fsCreateNode s a name type).1, backedState (fsCreateNode s a name type).2) := by
  rw [fsCreateNode, fsCreateNode]
  by_cases hnull : a.node = 0
  · rw [if_pos hnull, if_pos (show (withArray a).node = 0 from hnull)]
  rw [if_neg hnull, if_neg (show (withArray a).node ≠ 0 from hnull), backedState_store]
  refine congrArg (fun n => (a.node, (backedState s).store a.node n)) ?_
  cases type with
  | file => rfl
  | directory =>
    by_cases harray : a.array = 0
    · rw [harray]
      rfl
    · have harray : FSNodeType.directory = FSNodeType.directory ∧ a.array ≠ 0 := ⟨rfl, harray⟩
      have harray' : FSNodeType.directory = FSNodeType.directory ∧ (withArray a).array ≠ 0 :=
        ⟨rfl, Nat.one_ne_zero⟩
      rw [backed_of_array (if_pos harray), if_pos harray, if_pos harray']

theorem fsMkdir_backed {a : Alloc} {path : CStr} {r : Ptr} (h : fsMkdir s a path = some (r, s')) :
    fsMkdir (backedState s) (withArray a) path = some (r, backedState s') := by
  rw [fsMkdir] at h ⊢
  obtain ⟨⟨parentPath, name⟩, hsplit, h⟩ := Option.bind_eq_some_iff.mp h
  obtain ⟨p, hfind, h⟩ := Option.bind_eq_some_iff.mp h
  rw [hsplit]
  simp only [Option.bind_eq_bind, Option.bind_some, (alike_backedState s).fsFindByPath, hfind]
  split at h
  · rename_i hnull
    cases h
    rw [if_pos hnull]
  rename_i hnull
  obtain ⟨x, hx, h⟩ := Option.bind_eq_some_iff.mp h
  rw [if_neg hnull, backedState_nodes hx, Option.bind_some, backed_type]
  split at h
  · rename_i htype
    cases h
    rw [if_pos htype]
  rename_i htype
  rw [if_neg htype, fsCreateNode_backed]
  generalize fsCreateNode s a name .directory = made at h ⊢
  obtain ⟨t, ht, h⟩ := Option.bind_eq_some_iff.mp h
  cases h
  exact congrArg (Option.bind · _) (fsAddChild_backed ht)

theorem fsTouch_backed {a : Alloc} {path : CStr} {r : Ptr} (h : fsTouch s a path = some (r, s')) :
    fsTouch (backedState s) (withArray a) path = some (r, backedState s') := by
  rw [fsTouch] at h ⊢
  obtain ⟨⟨parentPath, name⟩, hsplit, h⟩ := Option.bind_eq_some_iff.mp h
  obtain ⟨p, hfind, h⟩ := Option.bind_eq_some_iff.mp h
  rw [hsplit]
  simp only [Option.bind_eq_bind, Option.bind_some, (alike_backedState s).fsFindByPath, hfind]
  split at h
  · rename_i hnull
    cases h
    rw [if_pos hnull]
  rename_i hnull
  obtain ⟨x, hx, h⟩ := Option.bind_eq_some_iff.mp h
  rw [if_neg hnull, backedState_nodes hx, Option.bind_some, backed_type]
  split at h
  · rename_i htype
    cases h
    rw [if_pos htype]
  rename_i htype
  rw [if_neg htype, fsCreateNode_backed]
  generalize fsCreateNode s a name .file = made at h ⊢
  simp only at h ⊢
  split at h
  · rename_i hfail
    cases h
    rw [if_pos hfail]
  rename_i hnode
  obtain ⟨f, hf, h⟩ := Option.bind_eq_some_iff.mp h
  obtain ⟨t, ht, h⟩ := Option.bind_eq_some_iff.mp h
  cases h
  have hstored := fsAddChild_backed ht
  rw [backedState_store, backed_rewrite] at hstored
  rw [if_neg hnode, backedState_nodes hf, Option.bind_some]
  exact congrArg (Option.bind · _) hstored

theorem removeEach_backed {remove : FsState → Ptr → Option FsState} {child : Ptr}
    (hremove : ∀ s s' c, remove s c = some s' → remove (backedState s) c = some (backedState s'))
    (rounds : Nat) : ∀ (j : Nat) {s s' : FsState}, removeEach remove child rounds j s = some s' →
      removeEach remove child rounds j (backedState s) = some (backedState s') := by
  induction rounds with
  | zero =>
    intro j s s' h
    cases h
    rfl
  | succ rounds ih =>
    intro j s s' h
    rw [removeEach] at h ⊢
    obtain ⟨c, hc, h⟩ := Option.bind_eq_some_iff.mp h
    rw [backedState_nodes hc]
    simp only [Option.bind_eq_bind, Option.bind_some, backed_childCount, backed_listed]
    split at h
    · rename_i hlt
      obtain ⟨t, ht, h⟩ := Option.bind_eq_some_iff.mp h
      rw [if_pos hlt, hremove _ _ _ ht, Option.bind_some]
      exact ih (j + 1) h
    · rename_i hge
      cases h
      rw [if_neg hge]

theorem shiftOut_backed {parent i : Nat} (h : (do
      let p ← s.nodes parent
      let slots ← p.children
      some (s.store parent { p with
        children := some (shiftLeft slots i (p.childCount - 1))
        childCount := p.childCount - 1 })) = some s') : (do
      let p ← (backedState s).nodes parent
      let slots ← p.children
      some ((backedState s).store parent { p with
        children := some (shiftLeft slots i (p.childCount - 1))
        childCount := p.childCount - 1 })) = some (backedState s') := by
  obtain ⟨y, hy, h⟩ := Option.bind_eq_some_iff.mp h
  obtain ⟨slots, hslots, h⟩ := Option.bind_eq_some_iff.mp h
  cases h
  simp only [backedState_nodes hy, Option.bind_eq_bind, Option.bind_some, backed_of_array hslots,
    hslots, backedState_store]
  exact congrArg (fun n => some ((backedState s).store parent n)) (backed_of_array rfl).symm

theorem fsRemoveChild_backed (fuel : Nat) : ∀ {s s' : FsState} {parent child : Ptr},
    fsRemoveChild fuel s parent child = some s' →
      fsRemoveChild fuel (backedState s) parent child = some (backedState s') := by
  induction fuel with
  | zero => exact fun h => nomatch h
  | succ fuel ih =>
    intro s s' parent child h
    rw [fsRemoveChild] at h ⊢
    split at h
    · rename_i hnull
      cases h
      rw [if_pos hnull]
    rename_i hnull
    obtain ⟨x, hx, h⟩ := Option.bind_eq_some_iff.mp h
    rw [if_neg hnull, backedState_nodes hx]
    simp only [Option.bind_eq_bind, Option.bind_some, backed_type, backed_listed]
    split at h
    · rename_i htype
      cases h
      rw [if_pos htype]
    rename_i htype
    rw [if_neg htype]
    cases hplace : x.listed.idxOf? child with
    | none =>
      rw [hplace] at h
      cases h
      rfl
    | some i =>
      rw [hplace] at h
      obtain ⟨c, hc, h⟩ := Option.bind_eq_some_iff.mp h
      simp only [backedState_nodes hc, Option.bind_some, backed_type, backed_childCount]
      split at h
      · rename_i hdir
        obtain ⟨t, ht, h⟩ := Option.bind_eq_some_iff.mp h
        rw [if_pos hdir, removeEach_backed (fun _ _ _ hr => ih hr) _ _ ht]
        exact shiftOut_backed h
      · rename_i hfile
        rw [if_neg hfile]
        exact shiftOut_backed h

theorem fsFreeNode_backed {node : Ptr} (h : fsFreeNode s node = some s') :
    fsFreeNode (backedState s) node = some (backedState s') := by
  rw [fsFreeNode] at h ⊢
  split at h
  · rename_i hnull
    cases h
    rw [if_pos hnull]
  · rename_i hnull
    obtain ⟨y, hy, h⟩ := Option.bind_eq_some_iff.mp h
    cases h
    rw [if_neg hnull, backedState_nodes hy, backedState_release]
    rfl

theorem unlink_backed {fuel : Nat} {node : Ptr} {r : Int} (h : unlink fuel s node = some (r, s')) :
    unlink fuel (backedState s) node = some (r, backedState s') := by
  rw [unlink] at h ⊢
  obtain ⟨x, hx, h⟩ := Option.bind_eq_some_iff.mp h
  simp only [backedState_nodes hx, Option.bind_eq_bind, Option.bind_some, backed_parent] at h ⊢
  split at h
  · rename_i hparent
    obtain ⟨t, ht, h⟩ := Option.bind_eq_some_iff.mp h
    obtain ⟨u, hu, h⟩ := Option.bind_eq_some_iff.mp h
    cases h
    rw [if_pos hparent, fsRemoveChild_backed fuel ht, Option.bind_some, fsFreeNode_backed hu]
    rfl
  · rename_i hparent
    obtain ⟨u, hu, h⟩ := Option.bind_eq_some_iff.mp h
    cases h
    rw [if_neg hparent, fsFreeNode_backed hu]
    rfl

theorem fsRemove_backed {fuel : Nat} {path : CStr} {r : Int}
    (h : fsRemove fuel s path = some (r, s')) :
    fsRemove fuel (backedState s) path = some (r, backedState s') := by
  rw [fsRemove] at h ⊢
  obtain ⟨n, hfind, h⟩ := Option.bind_eq_some_iff.mp h
  simp only [(alike_backedState s).fsFindByPath, hfind, Option.bind_eq_bind, Option.bind_some]
  split at h
  · rename_i hnull
    cases h
    rw [if_pos hnull]
  rename_i hnull
  obtain ⟨x, hx, h⟩ := Option.bind_eq_some_iff.mp h
  rw [if_neg hnull, backedState_nodes hx, Option.bind_some, backed_type]
  split at h
  · rename_i htype
    cases h
    rw [if_pos htype]
  rename_i htype
  rw [if_neg htype]
  split at h
  · rename_i hopen
    cases h
    exact if_pos hopen
  · rename_i hclosed
    exact (if_neg hclosed).trans (unlink_backed h)

theorem fsRmdir_backed {fuel : Nat} {path : CStr} {r : Int}
    (h : fsRmdir fuel s path = some (r, s')) :
    fsRmdir fuel (backedState s) path = some (r, backedState s') := by
  rw [fsRmdir] at h ⊢
  split at h
  · rename_i hroot
    cases h
    rw [if_pos hroot]
  rename_i hroot
  obtain ⟨n, hfind, h⟩ := Option.bind_eq_some_iff.mp h
  rw [if_neg hroot]
  simp only [(alike_backedState s).fsFindByPath, hfind, Option.bind_eq_bind, Option.bind_some]
  split at h
  · rename_i hnull
    cases h
    rw [if_pos hnull]
  rename_i hnull
  obtain ⟨x, hx, h⟩ := Option.bind_eq_some_iff.mp h
  rw [if_neg hnull, backedState_nodes hx, Option.bind_some, backed_type, backed_childCount]
  split at h
  · rename_i htype
    cases h
    rw [if_pos htype]
  rename_i htype
  rw [if_neg htype]
  split at h
  · rename_i hfull
    cases h
    rw [if_pos hfull]
  rename_i hempty
  obtain ⟨busy, hbusy, h⟩ := Option.bind_eq_some_iff.mp h
  have hwalk : holdsOpen fuel (backedState s) n (backedState s).fdTable = some busy :=
    ((alike_backedState s).holdsOpen fuel n s.fdTable).trans hbusy
  rw [if_neg hempty, hwalk, Option.bind_some]
  cases busy with
  | true => cases h; rfl
  | false => exact unlink_backed h

end ContinuumOS.Ramfs.Backing
