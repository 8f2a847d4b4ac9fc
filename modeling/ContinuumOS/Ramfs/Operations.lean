import ContinuumOS.Lib.Shift
import ContinuumOS.Ramfs.Lookup

/-! # What the operations do to the tree

`fs_mkdir` and `fs_touch` leave the tree alone, insert their node, or leak it
when the directory is full. `fs_remove` and `fs_rmdir` refuse, or take out the
node that the path names: the array shift is the erasure of that child. -/
namespace ContinuumOS.Ramfs.Operations
open ContinuumOS.Lib.Shift ContinuumOS.Libc.String ContinuumOS.Vfs.Path ContinuumOS.Vfs.Normalize
open ContinuumOS.Ramfs.Nodes ContinuumOS.Ramfs.Tree ContinuumOS.Ramfs.Lookup

/-! ## Adding a child -/

/-- The addresses that `kmalloc` returns when it succeeds. -/
structure Succeeds (a : Alloc) (s : FsState) : Prop where
  node : a.node ≠ 0
  fresh : s.nodes a.node = none
  array : a.array ≠ 0
  data : a.data ≠ 0

variable {s s' : FsState} {p n : Ptr}

/-- The name of the node at an address. -/
def nameOf (s : FsState) (p : Ptr) : Option CStr := (s.nodes p).map FSNode.name

theorem nameOf_store_self (s : FsState) (p : Ptr) (x : FSNode) :
    nameOf (s.store p x) p = some x.name := by
  rw [nameOf, FsState.store_self]
  rfl

theorem nameOf_store_ne (s : FsState) {q : Ptr} (x : FSNode) (h : q ≠ p) :
    nameOf (s.store p x) q = nameOf s q := by
  rw [nameOf, FsState.store_ne s x h, nameOf]

theorem nameOf_store {x y : FSNode} (hx : s.nodes p = some x) (hname : y.name = x.name) (q : Ptr) :
    nameOf (s.store p y) q = nameOf s q := by
  by_cases hq : q = p
  · rw [hq, nameOf_store_self, nameOf, hx, hname]
    rfl
  · exact nameOf_store_ne s y hq

theorem fsAddChild_spec (h : Inv s) {a : Ptr} (ha : a ≠ 0) (hfresh : s.nodes a = none)
    {x : FSNode} (hlisted : x.listed = []) (hok : NodeOk x) {y : FSNode} (hy : s.nodes p = some y)
    (htype : y.type = .directory) :
    ∃ s', fsAddChild (s.store a x) p a = some s' ∧
      (∀ q, nameOf s' q = nameOf (s.store a x) q) ∧
      if maxChildren ≤ y.childCount then Leaked s a s' else Inserted s p a s' := by
  have hne : p ≠ a := by
    rintro rfl
    rw [hfresh] at hy
    cases hy
  have hyok := h.node p y hy
  have hp : (s.store a x).nodes p = some y := (FsState.store_ne s x hne).trans hy
  rw [fsAddChild, if_neg (h.ne_null hy), hp]
  simp only [Option.bind_eq_bind, Option.bind_some, htype, ne_eq, not_true_eq_false, if_false]
  by_cases hfull : maxChildren ≤ y.childCount
  · simp only [if_pos hfull]
    exact ⟨_, rfl, fun _ => rfl, rfl, rfl, ha, hfresh, ⟨x, FsState.store_self .., hlisted, hok⟩,
      fun q hq => FsState.store_ne s x hq⟩
  obtain ⟨slots, hslots, hlen⟩ := hyok.array htype
  simp only [if_neg hfull, hslots, Option.bind_some, FsState.store_ne _ _ hne.symm,
    FsState.store_self]
  refine ⟨_, rfl, fun q => ?_, rfl, rfl, ha, hfresh, ⟨_, FsState.store_self .., rfl, hlisted, ?_⟩,
    ⟨y, { y with children := some (slots.set y.childCount a), childCount := y.childCount + 1 }, hy,
      ?_, ?_, ?_, htype, htype, rfl⟩, fun q hqa hqp => ?_⟩
  · by_cases hqa : q = a
    · rw [hqa, nameOf_store_self, nameOf_store_self]
    · rw [nameOf_store_ne _ _ hqa]
      refine nameOf_store hp ?_ q
      rfl
  · exact ⟨hok.capacity, hok.array, hok.file⟩
  · rw [FsState.store_ne _ _ hne, FsState.store_self, htype]
  · rw [FSNode.listed, FSNode.listed, hslots]
    exact take_set_count (by omega) a
  · refine ⟨by simp only; omega, fun _ => ⟨_, rfl, by rw [List.length_set, hlen]⟩, fun hfile => ?_⟩
    rw [htype] at hfile
    cases hfile
  · rw [FsState.store_ne _ _ hqa, FsState.store_ne _ _ hqp, FsState.store_ne _ _ hqa]

/-- What making a node can do. -/
def Made (s : FsState) (a : Ptr) (s' : FsState) : Prop :=
  s' = s ∨ (∃ p, Inserted s p a s') ∨ Leaked s a s'

theorem Made.inv {a : Ptr} (h : Made s a s') (hs : Inv s) : Inv s' := by
  obtain rfl | ⟨p, h⟩ | h := h
  · exact hs
  · exact h.inv hs
  · exact h.inv hs

theorem Made.root {a : Ptr} (h : Made s a s') : s'.root = s.root := by
  obtain rfl | ⟨p, h⟩ | h := h
  · rfl
  · exact h.root
  · exact h.root

/-- The path leads to the directory `p`, the node `y`, and ends in `name`. -/
structure Receives (s : FsState) (path : CStr) (p : Ptr) (name : CStr) (y : FSNode) : Prop where
  split : ∃ parentPath, splitPath path = some (parentPath, name) ∧
    fsFindByPath s parentPath = some p
  notNull : p ≠ 0
  node : s.nodes p = some y
  directory : y.type = .directory

/-- A node is made for the path: its directory lists it, unless it is full. -/
structure Adds (s : FsState) (path : CStr) (p : Ptr) (name : CStr) (y : FSNode) (a : Ptr)
    (s' : FsState) : Prop where
  receives : Receives s path p name y
  named : nameOf s' a = some name
  others : ∀ q, q ≠ a → nameOf s' q = nameOf s q
  grown : if maxChildren ≤ y.childCount then Leaked s a s' else Inserted s p a s'

theorem Adds.made {path name : CStr} {y : FSNode} {a : Ptr} (h : Adds s path p name y a s') :
    Made s a s' := by
  have hgrown := h.grown
  split at hgrown
  · exact .inr (.inr hgrown)
  · exact .inr (.inl ⟨p, hgrown⟩)

theorem length_of_splitPath {path parentPath name : CStr}
    (h : splitPath path = some (parentPath, name)) : name.length < nameSize := by
  obtain ⟨hfits, hparts⟩ := Option.ite_none_right_eq_some.mp h
  rw [Option.some.inj hparts] at hfits
  exact hfits.2

theorem fsCreateNode_spec (s : FsState) {a : Alloc} (hnode : a.node ≠ 0) (harray : a.array ≠ 0)
    (name : CStr) (type : FSNodeType) : ∃ x,
      fsCreateNode s a name type = (a.node, s.store a.node x) ∧ x.listed = [] ∧ NodeOk x ∧
        x.type = type ∧ x.parent = 0 ∧ x.name = name.take (nameSize - 1) := by
  rw [fsCreateNode, if_neg hnode]
  refine ⟨_, rfl, rfl, ⟨Nat.zero_le _, fun htype => ?_, fun _ => rfl⟩, rfl, rfl, rfl⟩
  exact ⟨_, if_pos ⟨htype, harray⟩, List.length_replicate⟩

theorem fsAddChild_adds (h : Inv s) {path name : CStr} {y : FSNode}
    (hreceives : Receives s path p name y) {a : Ptr} (ha : a ≠ 0) (hfresh : s.nodes a = none)
    {x : FSNode} (hlisted : x.listed = []) (hok : NodeOk x)
    (hname : x.name = name.take (nameSize - 1)) :
    ∃ s', fsAddChild (s.store a x) p a = some s' ∧ Adds s path p name y a s' := by
  obtain ⟨s', hs', hnames, hgrown⟩ :=
    fsAddChild_spec h ha hfresh hlisted hok hreceives.node hreceives.directory
  refine ⟨s', hs', hreceives, ?_, fun q hq => ?_, hgrown⟩
  · obtain ⟨parentPath, hsplit, -⟩ := hreceives.split
    have hshort : name.length ≤ nameSize - 1 := Nat.le_pred_of_lt (length_of_splitPath hsplit)
    rw [hnames, nameOf_store_self, hname, List.take_of_length_le hshort]
  · rw [hnames, nameOf_store_ne s x hq]

theorem receives_cases (h : Inv s) {path parentPath name : CStr}
    (hsplit : splitPath path = some (parentPath, name)) : ∃ p, fsFindByPath s parentPath = some p ∧
      (p ≠ 0 → ∃ y, s.nodes p = some y ∧
        (y.type = .directory → Receives s path p name y)) := by
  obtain ⟨p, hfind, hreach⟩ := fsFindByPath_spec h parentPath
  refine ⟨p, hfind, fun hnull => ?_⟩
  obtain ⟨y, hy⟩ := h.live (hreach.resolve_left hnull)
  exact ⟨y, hy, fun htype => ⟨⟨parentPath, hsplit, hfind⟩, hnull, hy, htype⟩⟩

theorem Receives.unique {path parentPath name name' : CStr} {q : Ptr} {y : FSNode}
    (h : Receives s path p name y) (hsplit : splitPath path = some (parentPath, name'))
    (hfind : fsFindByPath s parentPath = some q) : p = q ∧ name = name' := by
  obtain ⟨parent, hparts, hp⟩ := h.split
  rw [hsplit] at hparts
  obtain ⟨rfl, rfl⟩ := Prod.mk.inj (Option.some.inj hparts)
  exact ⟨Option.some.inj (hp.symm.trans hfind), rfl⟩

/-- A node is made where a directory receives it; else, and without memory for it,
nothing happens. -/
def MadeAt (s : FsState) (path : CStr) (a : Ptr) (s' : FsState) : Prop :=
  (s' = s ∧ (a = 0 ∨ ∀ p name y, ¬ Receives s path p name y)) ∨
    ∃ p name y, Adds s path p name y a s'

theorem MadeAt.made {path : CStr} {a : Ptr} (h : MadeAt s path a s') : Made s a s' := by
  obtain ⟨h, -⟩ | ⟨p, name, y, h⟩ := h
  · exact .inl h
  · exact h.made

section
variable (h : Inv s) {a : Alloc} (hnode : a.node ≠ 0) (hfresh : s.nodes a.node = none)
  (harray : a.array ≠ 0) {path : CStr} (hpath : (splitPath path).isSome)
include h hnode hfresh harray hpath

theorem fsMkdir_spec : ∃ r s', fsMkdir s a path = some (r, s') ∧ MadeAt s path a.node s' := by
  obtain ⟨⟨parentPath, name⟩, hsplit⟩ := Option.isSome_iff_exists.mp hpath
  obtain ⟨p, hfind, hcases⟩ := receives_cases h hsplit
  simp only [fsMkdir, hsplit, hfind, Option.bind_eq_bind, Option.bind_some]
  split
  · rename_i hnull
    exact ⟨0, s, rfl, .inl ⟨rfl, .inr fun q w y hr =>
      hr.notNull ((hr.unique hsplit hfind).1.trans hnull)⟩⟩
  rename_i hnull
  obtain ⟨y, hy, hreceives⟩ := hcases hnull
  simp only [hy, Option.bind_some]
  split
  · rename_i htype
    refine ⟨0, s, rfl, .inl ⟨rfl, .inr fun q w z hr => htype ?_⟩⟩
    have hz := hr.node
    rw [(hr.unique hsplit hfind).1, hy] at hz
    rw [Option.some.inj hz, hr.directory]
  rename_i htype
  obtain ⟨x, hx, hlisted, hok, -, -, hname⟩ := fsCreateNode_spec s hnode harray name .directory
  obtain ⟨s', hs', hadds⟩ :=
    fsAddChild_adds h (hreceives (not_not.mp htype)) hnode hfresh hlisted hok hname
  simp only [hx, hs', Option.bind_some]
  exact ⟨a.node, s', rfl, .inr ⟨p, name, y, hadds⟩⟩

theorem fsTouch_spec : ∃ r s', fsTouch s a path = some (r, s') ∧ MadeAt s path a.node s' := by
  obtain ⟨⟨parentPath, name⟩, hsplit⟩ := Option.isSome_iff_exists.mp hpath
  obtain ⟨p, hfind, hcases⟩ := receives_cases h hsplit
  simp only [fsTouch, hsplit, hfind, Option.bind_eq_bind, Option.bind_some]
  split
  · rename_i hnull
    exact ⟨0, s, rfl, .inl ⟨rfl, .inr fun q w y hr =>
      hr.notNull ((hr.unique hsplit hfind).1.trans hnull)⟩⟩
  rename_i hnull
  obtain ⟨y, hy, hreceives⟩ := hcases hnull
  simp only [hy, Option.bind_some]
  split
  · rename_i htype
    refine ⟨0, s, rfl, .inl ⟨rfl, .inr fun q w z hr => htype ?_⟩⟩
    have hz := hr.node
    rw [(hr.unique hsplit hfind).1, hy] at hz
    rw [Option.some.inj hz, hr.directory]
  rename_i htype
  obtain ⟨x, hx, hlisted, hok, -, -, hname⟩ := fsCreateNode_spec s hnode harray name .file
  -- the buffer of the file is stored into the node first
  have hdata : NodeOk { x with data := a.data, size := 0 } := ⟨hok.capacity, hok.array, hok.file⟩
  have hnone : FSNode.listed { x with data := a.data, size := 0 } = [] := hlisted
  obtain ⟨s', hs', hadds⟩ :=
    fsAddChild_adds h (hreceives (not_not.mp htype)) hnode hfresh hnone hdata hname
  simp only [hx, if_neg hnode, FsState.store_self, FsState.store_store, hs', Option.bind_some]
  exact ⟨a.node, s', rfl, .inr ⟨p, name, y, hadds⟩⟩

end

/-! ## Taking a child out -/

theorem fsRemoveChild_spec (h : Inv s) (hlisted : n ∈ s.listed p) {x : FSNode}
    (hx : s.nodes n = some x) (hcount : x.childCount = 0) (fuel : Nat) : ∃ y z,
      s.nodes p = some y ∧ fsRemoveChild (fuel + 1) s p n = some (s.store p z) ∧
      z.listed = y.listed.erase n ∧ NodeOk z ∧
      { z with children := y.children, childCount := y.childCount } = y := by
  obtain ⟨y, hy, hmem⟩ := mem_listed hlisted
  have hyok := h.node p y hy
  have htype : y.type = .directory := by
    cases ht : y.type with
    | directory => rfl
    | file => rw [hyok.listed_of_file ht] at hmem; cases hmem
  obtain ⟨slots, hslots, hlen⟩ := hyok.array htype
  obtain ⟨i, hi⟩ : ∃ i, y.listed.idxOf? n = some i := by
    rw [← Option.isSome_iff_exists, Option.isSome_iff_ne_none, Ne, List.idxOf?_eq_none_iff, not_not]
    exact hmem
  obtain ⟨hlt, -⟩ := List.idxOf?_eq_some_iff.mp hi
  rw [hyok.length_listed] at hlt
  refine ⟨y, { y with children := some (shiftLeft slots i (y.childCount - 1))
                      childCount := y.childCount - 1 }, hy, ?_, ?_, ?_, rfl⟩
  · -- the loop over the children of `n` has no round
    rw [fsRemoveChild, if_neg (h.ne_null hy), hy]
    simp only [Option.bind_eq_bind, Option.bind_some, htype, ne_eq, not_true_eq_false, if_false, hi,
      hx, hcount, removeEach, hy, hslots, ite_self]
  · rw [List.erase_eq_eraseIdx, hi, FSNode.listed, FSNode.listed, hslots]
    exact take_shiftDown 0 hlt (hyok.capacity.trans hlen.ge)
  · refine ⟨(Nat.sub_le _ _).trans hyok.capacity, fun _ => ⟨_, rfl, ?_⟩, fun hfile => ?_⟩
    · exact (length_shiftDown 0 slots i _).trans hlen
    · rw [htype] at hfile
      cases hfile

theorem unlink_spec (h : Inv s) (hlisted : n ∈ s.listed p) {x : FSNode} (hx : s.nodes n = some x)
    (hcount : x.childCount = 0) (fuel : Nat) :
    ∃ s', unlink (fuel + 1) s n = some (0, s') ∧ Removed s p n s' := by
  obtain ⟨y, z, hy, hremove, hsiblings, hok, hsame⟩ :=
    fsRemoveChild_spec h hlisted hx hcount fuel
  have hparent := h.parent_eq hlisted hx
  have hne : n ≠ p := by
    rintro rfl
    rw [hx] at hy
    cases hy
    rw [FsState.listed_of_node hx, FSNode.listed, hcount] at hlisted
    cases hlisted
  refine ⟨(s.store p z).release n, ?_, rfl, rfl, hlisted, ?_, FsState.release_self .., ?_,
    ⟨y, z, hy, ?_, hok, hsame⟩, fun q hqn hqp => ?_⟩
  · simp only [unlink, hx, Option.bind_eq_bind, Option.bind_some, hparent, ne_eq, h.ne_null hy,
      not_false_eq_true, if_true, hremove, fsFreeNode, h.ne_null hx, if_false,
      FsState.store_ne s z hne]
  · rw [FsState.listed_of_node hx, FSNode.listed, hcount, List.take_zero]
  · rw [FsState.listed, FsState.release_ne _ hne.symm, FsState.store_self,
      FsState.listed_of_node hy]
    exact hsiblings
  · rw [FsState.release_ne _ hne.symm, FsState.store_self]
  · rw [FsState.release_ne _ hqn, FsState.store_ne _ _ hqp]

theorem unlink_zero (h : Inv s) (hlisted : n ∈ s.listed p) : unlink 0 s n = none := by
  obtain ⟨x, hx, hparent⟩ := h.parent p n hlisted
  obtain ⟨y, hy, -⟩ := mem_listed hlisted
  simp only [unlink, hx, Option.bind_eq_bind, Option.bind_some, hparent, ne_eq, h.ne_null hy,
    not_false_eq_true, if_true, fsRemoveChild, Option.bind_none]

/-- The node a removal is about: named by the path, listed, without children,
and no descriptor is open on it. -/
structure Removable (s : FsState) (path : CStr) (p n : Ptr) : Prop where
  named : fsFindByPath s path = some n
  reached : Reach s p
  listed : n ∈ s.listed p
  leaf : ∃ x, s.nodes n = some x ∧ x.childCount = 0
  closed : ∀ d ∈ s.fdTable, d.used = true → d.node ≠ n

theorem Removable.unlink {path : CStr} (hr : Removable s path p n) (h : Inv s) (fuel : Nat) :
    ∃ s', unlink (fuel + 1) s n = some (0, s') ∧ Removed s p n s' := by
  obtain ⟨x, hx, hcount⟩ := hr.leaf
  exact unlink_spec h hr.listed hx hcount fuel

theorem fsRemove_cases (h : Inv s) {path : CStr} (hpath : Canonical path) (fuel : Nat) :
    fsRemove fuel s path = some (-1, s) ∨ ∃ p n, Removable s path p n ∧
      fsRemove fuel s path = unlink fuel s n := by
  by_cases hroot : path = rootStr
  · -- the root is a directory
    obtain ⟨x, hx, htype, -⟩ := h.root
    have hfind : fsFindByPath s path = some s.root := by
      rw [fsFindByPath, if_neg (by rw [hpath.1]; simp), if_pos hroot]
    left
    simp [fsRemove, hfind, h.ne_null hx, hx, htype]
  obtain ⟨n, hfind, hlisted⟩ := fsFindByPath_canonical h hpath hroot
  simp only [fsRemove, hfind, Option.bind_eq_bind, Option.bind_some]
  split
  · exact .inl rfl
  rename_i hnull
  obtain ⟨p, hp, hmem⟩ := hlisted.resolve_left hnull
  obtain ⟨x, hx, -⟩ := h.parent p n hmem
  simp only [hx, Option.bind_some]
  split
  · exact .inl rfl
  rename_i htype
  split
  · exact .inl rfl
  rename_i hopen
  refine .inr ⟨p, n, ⟨hfind, hp, hmem, ⟨x, hx, (h.node n x hx).file (not_not.mp htype)⟩,
    fun d hd hused hnode => hopen ?_⟩, rfl⟩
  exact List.any_eq_true.mpr ⟨d, hd, by rw [openOn, hused, hnode, beq_self_eq_true]; rfl⟩

/-- `fs_rmdir` refuses, or looks for open files below the node that the path
names and unlinks it when there are none. -/
theorem fsRmdir_cases (h : Inv s) {path : CStr} (hpath : Canonical path) (fuel : Nat) :
    fsRmdir fuel s path = some (-1, s) ∨ ∃ p n, Removable s path p n ∧
      fsRmdir fuel s path = (holdsOpen fuel s n s.fdTable).bind fun busy =>
        if busy then some (-1, s) else unlink fuel s n := by
  by_cases hroot : path = rootStr
  · left
    rw [fsRmdir, if_pos hroot]
  obtain ⟨n, hfind, hlisted⟩ := fsFindByPath_canonical h hpath hroot
  rw [fsRmdir, if_neg hroot]
  simp only [hfind, Option.bind_eq_bind, Option.bind_some]
  split
  · exact .inl rfl
  rename_i hnull
  obtain ⟨p, hp, hmem⟩ := hlisted.resolve_left hnull
  obtain ⟨x, hx, -⟩ := h.parent p n hmem
  simp only [hx, Option.bind_some]
  split
  · exact .inl rfl
  rename_i htype
  split
  · exact .inl rfl
  rename_i hcount
  refine .inr ⟨p, n, ⟨hfind, hp, hmem, ⟨x, hx, by omega⟩, ?_⟩, rfl⟩
  -- descriptors are open on files only
  rintro d hd hused rfl
  obtain ⟨-, y, hy, hfile⟩ := h.opened d hd hused
  rw [hx] at hy
  cases hy
  exact htype (fun he => by rw [hfile] at he; cases he)

/-! ## The walk to the root ends -/

theorem walkUp_null (node : Ptr) (fuel : Nat) : walkUp s node (fuel + 1) 0 = some false := by
  rw [walkUp, if_pos rfl]

theorem walkUp_step (h : Inv s) (node : Ptr) {q : Ptr} {x : FSNode} (hx : s.nodes q = some x)
    (fuel : Nat) : walkUp s node (fuel + 1) q =
      if q = node then some true else walkUp s node fuel x.parent := by
  rw [walkUp, if_neg (h.ne_null hx), hx]
  rfl

theorem walkUp_ends (h : Inv s) (node : Ptr) {q : Ptr} (hq : Reach s q) :
    ∃ N, ∀ fuel, N ≤ fuel → ∃ b, walkUp s node fuel q = some b := by
  induction hq with
  | root =>
    obtain ⟨x, hx, -, hnull⟩ := h.root
    refine ⟨2, fun fuel hf => ?_⟩
    obtain ⟨k, rfl⟩ : ∃ k, fuel = k + 2 := ⟨fuel - 2, by omega⟩
    rw [walkUp_step h node hx, hnull, walkUp_null]
    split
    · exact ⟨true, rfl⟩
    · exact ⟨false, rfl⟩
  | child _ hc ih =>
    obtain ⟨N, hN⟩ := ih
    obtain ⟨x, hx, hparent⟩ := h.parent _ _ hc
    refine ⟨N + 1, fun fuel hf => ?_⟩
    obtain ⟨k, rfl⟩ : ∃ k, fuel = k + 1 := ⟨fuel - 1, by omega⟩
    rw [walkUp_step h node hx, hparent]
    split
    · exact ⟨true, rfl⟩
    · exact hN k (by omega)

theorem holdsOpen_ends (h : Inv s) (node : Ptr) {fds : List FileDescriptor}
    (hfds : ∀ d ∈ fds, d.used = true → Reach s d.node) :
    ∃ N, ∀ fuel, N ≤ fuel → ∃ b, holdsOpen fuel s node fds = some b := by
  induction fds with
  | nil => exact ⟨0, fun _ _ => ⟨false, rfl⟩⟩
  | cons d fds ih =>
    obtain ⟨N, hN⟩ := ih fun e he => hfds e (.tail _ he)
    by_cases hd : d.used ∧ d.node ≠ 0
    · have hreach := hfds d (.head _) hd.1
      obtain ⟨x, hx⟩ := h.live hreach
      obtain ⟨M, hM⟩ : ∃ M, ∀ fuel, M ≤ fuel → ∃ b, walkUp s node fuel x.parent = some b := by
        obtain ⟨-, hnull⟩ | ⟨hparent, -⟩ := h.reach_parent hreach hx
        · refine ⟨1, fun fuel hf => ⟨false, ?_⟩⟩
          obtain ⟨k, rfl⟩ : ∃ k, fuel = k + 1 := ⟨fuel - 1, by omega⟩
          rw [hnull, walkUp_null]
        · exact walkUp_ends h node hparent
      refine ⟨max M N, fun fuel hf => ?_⟩
      obtain ⟨b, hb⟩ := hM fuel (by omega)
      simp only [holdsOpen, if_pos hd, hx, hb, Option.bind_eq_bind, Option.bind_some]
      split
      · exact ⟨true, rfl⟩
      · exact hN fuel (by omega)
    · refine ⟨N, fun fuel hf => ?_⟩
      rw [holdsOpen, if_neg hd]
      exact hN fuel hf

end ContinuumOS.Ramfs.Operations
