import ContinuumOS.Ramfs.Nodes
import Mathlib.Data.List.Nodup

/-! # The tree of nodes and its two edits

The tree is kept twice, in the arrays of children and in the parent pointers.
`Inv` says that the two agree, at every node in memory. It is kept by putting
a fresh node at the end of a directory (`Inserted`) and by taking a node
without children out of its directory (`Removed`); which nodes are reachable
afterwards follows from the same two descriptions. -/
namespace ContinuumOS.Ramfs.Tree
open ContinuumOS.Ramfs.Nodes

/-- The nodes that can be reached from the root over the arrays of children. -/
inductive Reach (s : FsState) : Ptr → Prop
  | root : Reach s s.root
  | child {p c : Ptr} (h : Reach s p) (hc : c ∈ s.listed p) : Reach s c

/-- A node on its own: the count fits the array, and a file has no children. -/
structure NodeOk (n : FSNode) : Prop where
  capacity : n.childCount ≤ maxChildren
  array : n.type = .directory → ∃ slots, n.children = some slots ∧ slots.length = maxChildren
  file : n.type = .file → n.childCount = 0

/-- The two representations of the tree agree. -/
structure Inv (s : FsState) : Prop where
  null : s.nodes 0 = none
  root : ∃ n, s.nodes s.root = some n ∧ n.type = .directory ∧ n.parent = 0
  node : ∀ p n, s.nodes p = some n → NodeOk n
  parent : ∀ p, ∀ c ∈ s.listed p, ∃ n, s.nodes c = some n ∧ n.parent = p
  nodup : ∀ p, (s.listed p).Nodup
  opened : ∀ d ∈ s.fdTable, d.used = true →
    Reach s d.node ∧ ∃ n, s.nodes d.node = some n ∧ n.type = .file

theorem NodeOk.length_listed {n : FSNode} (h : NodeOk n) : n.listed.length = n.childCount := by
  cases htype : n.type with
  | file => rw [FSNode.listed, h.file htype, List.take_zero, List.length_nil]
  | directory =>
    obtain ⟨slots, hslots, hlen⟩ := h.array htype
    rw [FSNode.listed, hslots, Option.getD_some, List.length_take, hlen,
      Nat.min_eq_left h.capacity]

theorem NodeOk.listed_of_file {n : FSNode} (h : NodeOk n) (htype : n.type = .file) :
    n.listed = [] := by
  rw [FSNode.listed, h.file htype, List.take_zero]

variable {s s' : FsState} {p q c a n : Ptr}

theorem mem_listed (h : c ∈ s.listed p) : ∃ n, s.nodes p = some n ∧ c ∈ n.listed := by
  cases hp : s.nodes p with
  | none => rw [FsState.listed_of_none hp] at h; cases h
  | some n => exact ⟨n, rfl, FsState.listed_of_node hp ▸ h⟩

namespace Inv

theorem ne_null (h : Inv s) {x : FSNode} (hp : s.nodes p = some x) : p ≠ 0 := by
  rintro rfl
  rw [h.null] at hp
  cases hp

theorem parent_eq (h : Inv s) {x : FSNode} (hc : c ∈ s.listed p) (hx : s.nodes c = some x) :
    x.parent = p := by
  obtain ⟨y, hy, hparent⟩ := h.parent p c hc
  rw [hx] at hy
  cases hy
  exact hparent

theorem listed_unique (h : Inv s) (hp : c ∈ s.listed p) (hq : c ∈ s.listed q) : p = q := by
  obtain ⟨x, hx, rfl⟩ := h.parent p c hp
  exact h.parent_eq hq hx

theorem root_not_listed (h : Inv s) : s.root ∉ s.listed p := by
  intro hroot
  obtain ⟨x, hx, -, hnull⟩ := h.root
  obtain ⟨y, hy, -⟩ := mem_listed hroot
  exact h.ne_null hy ((h.parent_eq hroot hx).symm.trans hnull)

theorem live (h : Inv s) (hp : Reach s p) : ∃ x, s.nodes p = some x := by
  cases hp with
  | root =>
    obtain ⟨x, hx, -⟩ := h.root
    exact ⟨x, hx⟩
  | child _ hc =>
    obtain ⟨x, hx, -⟩ := h.parent _ _ hc
    exact ⟨x, hx⟩

theorem reach_parent (h : Inv s) (hp : Reach s p) {x : FSNode} (hx : s.nodes p = some x) :
    (p = s.root ∧ x.parent = 0) ∨ (Reach s x.parent ∧ p ∈ s.listed x.parent) := by
  cases hp with
  | root =>
    obtain ⟨y, hy, -, hnull⟩ := h.root
    rw [hx] at hy
    cases hy
    exact .inl ⟨rfl, hnull⟩
  | child hq hc =>
    rw [h.parent_eq hc hx]
    exact .inr ⟨hq, hc⟩

end Inv

/-! ## A fresh node is listed at the end of its directory -/

/-- `a` is a new node without children, the last child of the directory `p`. -/
structure Inserted (s : FsState) (p a : Ptr) (s' : FsState) : Prop where
  root : s'.root = s.root
  table : s'.fdTable = s.fdTable
  notNull : a ≠ 0
  fresh : s.nodes a = none
  node : ∃ x, s'.nodes a = some x ∧ x.parent = p ∧ x.listed = [] ∧ NodeOk x
  grown : ∃ x y, s.nodes p = some x ∧ s'.nodes p = some y ∧ y.listed = x.listed ++ [a] ∧
    NodeOk y ∧ y.type = .directory ∧ x.type = .directory ∧ y.parent = x.parent
  frame : ∀ q, q ≠ a → q ≠ p → s'.nodes q = s.nodes q

namespace Inserted

theorem listed_new (h : Inserted s p a s') : s'.listed a = [] := by
  obtain ⟨x, hx, -, hlisted, -⟩ := h.node
  rw [FsState.listed_of_node hx, hlisted]

theorem listed_parent (h : Inserted s p a s') : s'.listed p = s.listed p ++ [a] := by
  obtain ⟨x, y, hx, hy, hlisted, -⟩ := h.grown
  rw [FsState.listed_of_node hx, FsState.listed_of_node hy, hlisted]

theorem listed_frame (h : Inserted s p a s') (ha : q ≠ a) (hp : q ≠ p) :
    s'.listed q = s.listed q := by
  rw [FsState.listed, h.frame q ha hp, FsState.listed]

theorem kept (h : Inserted s p a s') {x : FSNode} (hx : s.nodes q = some x) :
    ∃ y, s'.nodes q = some y ∧ y.type = x.type ∧ y.parent = x.parent := by
  have hqa : q ≠ a := by
    rintro rfl
    rw [h.fresh] at hx
    cases hx
  by_cases hqp : q = p
  · subst hqp
    obtain ⟨z, y, hz, hy, -, -, hytype, hztype, hparent⟩ := h.grown
    rw [hx] at hz
    cases hz
    exact ⟨y, hy, hytype.trans hztype.symm, hparent⟩
  · exact ⟨x, (h.frame q hqa hqp).trans hx, rfl, rfl⟩

theorem mem (h : Inserted s p a s') (hc : c ∈ s.listed q) : c ∈ s'.listed q := by
  by_cases hqp : q = p
  · subst hqp
    rw [h.listed_parent]
    exact List.mem_append_left _ hc
  · obtain ⟨x, hx, -⟩ := mem_listed hc
    have hqa : q ≠ a := by
      rintro rfl
      rw [h.fresh] at hx
      cases hx
    rwa [h.listed_frame hqa hqp]

theorem reach (h : Inserted s p a s') (hq : Reach s q) : Reach s' q := by
  induction hq with
  | root => exact h.root ▸ .root
  | child _ hc ih => exact .child ih (h.mem hc)

theorem inv (h : Inserted s p a s') (hs : Inv s) : Inv s' := by
  -- a child that was listed before is not the new node
  have hold : ∀ {q c}, c ∈ s.listed q → c ≠ a := by
    rintro q c hc rfl
    obtain ⟨x, hx, -⟩ := hs.parent q c hc
    rw [h.fresh] at hx
    cases hx
  have hp0 : p ≠ 0 := by
    obtain ⟨x, -, hx, -⟩ := h.grown
    exact hs.ne_null hx
  refine ⟨?_, ?_, fun q x hx => ?_, fun q c hc => ?_, fun q => ?_, ?_⟩
  · rw [h.frame 0 h.notNull.symm hp0.symm, hs.null]
  · obtain ⟨x, hx, htype, hnull⟩ := hs.root
    obtain ⟨y, hy, hytype, hyparent⟩ := h.kept hx
    exact ⟨y, h.root ▸ hy, hytype.trans htype, hyparent.trans hnull⟩
  · by_cases hqa : q = a
    · obtain ⟨y, hy, -, -, hok⟩ := h.node
      rw [hqa, hy] at hx
      exact Option.some.inj hx ▸ hok
    by_cases hqp : q = p
    · obtain ⟨-, y, -, hy, -, hok, -⟩ := h.grown
      rw [hqp, hy] at hx
      exact Option.some.inj hx ▸ hok
    · exact hs.node q x ((h.frame q hqa hqp).symm.trans hx)
  · by_cases hqa : q = a
    · rw [hqa, h.listed_new] at hc
      cases hc
    by_cases hqp : q = p
    · rw [hqp, h.listed_parent] at hc
      obtain hc | hc := List.mem_append.mp hc
      · obtain ⟨x, hx, hparent⟩ := hs.parent p c hc
        obtain ⟨y, hy, -, hyparent⟩ := h.kept hx
        exact ⟨y, hy, by rw [hyparent, hparent, hqp]⟩
      · obtain ⟨x, hx, hparent, -⟩ := h.node
        rw [List.mem_singleton.mp hc, hqp]
        exact ⟨x, hx, hparent⟩
    · rw [h.listed_frame hqa hqp] at hc
      obtain ⟨x, hx, hparent⟩ := hs.parent q c hc
      obtain ⟨y, hy, -, hyparent⟩ := h.kept hx
      exact ⟨y, hy, hyparent.trans hparent⟩
  · by_cases hqa : q = a
    · rw [hqa, h.listed_new]
      exact List.nodup_nil
    by_cases hqp : q = p
    · rw [hqp, h.listed_parent]
      exact (hs.nodup p).append (List.nodup_singleton a)
        (List.disjoint_singleton.mpr fun ha => hold ha rfl)
    · rw [h.listed_frame hqa hqp]
      exact hs.nodup q
  · intro d hd hused
    rw [h.table] at hd
    obtain ⟨hreach, x, hx, htype⟩ := hs.opened d hd hused
    obtain ⟨y, hy, hytype, -⟩ := h.kept hx
    exact ⟨h.reach hreach, y, hy, hytype.trans htype⟩

end Inserted

/-- A full directory leaves the new node behind, on nobody's list. -/
structure Leaked (s : FsState) (a : Ptr) (s' : FsState) : Prop where
  root : s'.root = s.root
  table : s'.fdTable = s.fdTable
  notNull : a ≠ 0
  fresh : s.nodes a = none
  node : ∃ x, s'.nodes a = some x ∧ x.listed = [] ∧ NodeOk x
  frame : ∀ q, q ≠ a → s'.nodes q = s.nodes q

namespace Leaked

theorem listed_eq (h : Leaked s a s') (q : Ptr) : s'.listed q = s.listed q := by
  by_cases hqa : q = a
  · obtain ⟨x, hx, hlisted, -⟩ := h.node
    rw [hqa, FsState.listed_of_node hx, hlisted, FsState.listed_of_none h.fresh]
  · rw [FsState.listed, h.frame q hqa, FsState.listed]

theorem kept (h : Leaked s a s') {x : FSNode} (hx : s.nodes q = some x) :
    s'.nodes q = some x := by
  rw [h.frame q ?_, hx]
  rintro rfl
  rw [h.fresh] at hx
  cases hx

theorem reach (h : Leaked s a s') (hq : Reach s q) : Reach s' q := by
  induction hq with
  | root => exact h.root ▸ .root
  | child _ hc ih => exact .child ih (by rwa [h.listed_eq])

theorem inv (h : Leaked s a s') (hs : Inv s) : Inv s' := by
  refine ⟨?_, ?_, fun q x hx => ?_, fun q c hc => ?_, fun q => ?_, ?_⟩
  · rw [h.frame 0 h.notNull.symm, hs.null]
  · obtain ⟨x, hx, hrest⟩ := hs.root
    exact ⟨x, h.root ▸ h.kept hx, hrest⟩
  · by_cases hqa : q = a
    · obtain ⟨y, hy, -, hok⟩ := h.node
      rw [hqa, hy] at hx
      exact Option.some.inj hx ▸ hok
    · exact hs.node q x ((h.frame q hqa).symm.trans hx)
  · rw [h.listed_eq] at hc
    obtain ⟨x, hx, hparent⟩ := hs.parent q c hc
    exact ⟨x, h.kept hx, hparent⟩
  · rw [h.listed_eq]
    exact hs.nodup q
  · intro d hd hused
    rw [h.table] at hd
    obtain ⟨hreach, x, hx, htype⟩ := hs.opened d hd hused
    exact ⟨h.reach hreach, x, h.kept hx, htype⟩

end Leaked

/-! ## A node without children leaves its directory -/

/-- `n`, a child of the directory `p` without children, is gone, and nothing
else but the list of `p` has changed. -/
structure Removed (s : FsState) (p n : Ptr) (s' : FsState) : Prop where
  root : s'.root = s.root
  table : s'.fdTable = s.fdTable
  was : n ∈ s.listed p
  leaf : s.listed n = []
  gone : s'.nodes n = none
  siblings : s'.listed p = (s.listed p).erase n
  directory : ∃ x y, s.nodes p = some x ∧ s'.nodes p = some y ∧ NodeOk y ∧
    { y with children := x.children, childCount := x.childCount } = x
  rest : ∀ q, q ≠ n → q ≠ p → s'.nodes q = s.nodes q

namespace Removed

theorem listed_gone (h : Removed s p n s') : s'.listed n = [] := FsState.listed_of_none h.gone

theorem listed_rest (h : Removed s p n s') (hn : q ≠ n) (hp : q ≠ p) :
    s'.listed q = s.listed q := by
  rw [FsState.listed, h.rest q hn hp, FsState.listed]

theorem kept (h : Removed s p n s') (hq : q ≠ n) {x : FSNode} (hx : s.nodes q = some x) :
    ∃ y, s'.nodes q = some y ∧ y.type = x.type ∧ y.parent = x.parent := by
  by_cases hqp : q = p
  · subst hqp
    obtain ⟨z, y, hz, hy, -, hsame⟩ := h.directory
    rw [hx] at hz
    cases hz
    exact ⟨y, hy, by rw [← hsame], by rw [← hsame]⟩
  · exact ⟨x, (h.rest q hq hqp).trans hx, rfl, rfl⟩

theorem mem_iff (h : Removed s p n s') (hs : Inv s) : c ∈ s'.listed q ↔ c ∈ s.listed q ∧ c ≠ n := by
  by_cases hqn : q = n
  · rw [hqn, h.listed_gone, h.leaf]
    simp
  by_cases hqp : q = p
  · rw [hqp, h.siblings, (hs.nodup p).mem_erase_iff, and_comm]
  · rw [h.listed_rest hqn hqp]
    refine ⟨fun hc => ⟨hc, ?_⟩, And.left⟩
    rintro rfl
    exact hqp (hs.listed_unique hc h.was)

theorem reach_iff (h : Removed s p n s') (hs : Inv s) : Reach s' q ↔ Reach s q ∧ q ≠ n := by
  constructor
  · intro hq
    induction hq with
    | root =>
      rw [h.root]
      refine ⟨.root, fun he => hs.root_not_listed (he ▸ h.was)⟩
    | child _ hc ih =>
      obtain ⟨hmem, hne⟩ := (h.mem_iff hs).mp hc
      exact ⟨.child ih.1 hmem, hne⟩
  · rintro ⟨hq, hne⟩
    induction hq with
    | root => exact h.root ▸ .root
    | @child q c hq hc ih =>
      refine .child (ih ?_) ((h.mem_iff hs).mpr ⟨hc, hne⟩)
      -- the removed node has no children
      rintro rfl
      rw [h.leaf] at hc
      cases hc

theorem inv (h : Removed s p n s') (hs : Inv s)
    (hclosed : ∀ d ∈ s.fdTable, d.used = true → d.node ≠ n) : Inv s' := by
  have hn : n ≠ s.root := fun he => hs.root_not_listed (he ▸ h.was)
  obtain ⟨xn, hxn, -⟩ := hs.parent p n h.was
  refine ⟨?_, ?_, fun q x hx => ?_, fun q c hc => ?_, fun q => ?_, ?_⟩
  · by_cases h0 : 0 = n
    · exact h0 ▸ h.gone
    · obtain ⟨x, -, hx, -⟩ := h.directory
      rw [h.rest 0 h0 (hs.ne_null hx).symm, hs.null]
  · obtain ⟨x, hx, htype, hnull⟩ := hs.root
    obtain ⟨y, hy, hytype, hyparent⟩ := h.kept hn.symm hx
    exact ⟨y, h.root ▸ hy, hytype.trans htype, hyparent.trans hnull⟩
  · by_cases hqn : q = n
    · rw [hqn, h.gone] at hx
      cases hx
    by_cases hqp : q = p
    · obtain ⟨-, y, -, hy, hok, -⟩ := h.directory
      rw [hqp, hy] at hx
      exact Option.some.inj hx ▸ hok
    · exact hs.node q x ((h.rest q hqn hqp).symm.trans hx)
  · obtain ⟨hmem, hne⟩ := (h.mem_iff hs).mp hc
    obtain ⟨x, hx, hparent⟩ := hs.parent q c hmem
    obtain ⟨y, hy, -, hyparent⟩ := h.kept hne hx
    exact ⟨y, hy, hyparent.trans hparent⟩
  · by_cases hqn : q = n
    · rw [hqn, h.listed_gone]
      exact List.nodup_nil
    by_cases hqp : q = p
    · rw [hqp, h.siblings]
      exact (hs.nodup p).erase n
    · rw [h.listed_rest hqn hqp]
      exact hs.nodup q
  · intro d hd hused
    rw [h.table] at hd
    obtain ⟨hreach, x, hx, htype⟩ := hs.opened d hd hused
    have hne := hclosed d hd hused
    obtain ⟨y, hy, hytype, -⟩ := h.kept hne hx
    exact ⟨(h.reach_iff hs).mpr ⟨hreach, hne⟩, y, hy, hytype.trans htype⟩

end Removed

end ContinuumOS.Ramfs.Tree
