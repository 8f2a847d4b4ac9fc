import ContinuumOS.Ramfs.Operations

/-! # The RAM file system stays a tree

Runs of `fs_mkdir`, `fs_touch`, `fs_remove` and `fs_rmdir` from `fs_init`, with
files opened and closed in between. -/
namespace ContinuumOS.Ramfs.Runs
open ContinuumOS.Libc.String ContinuumOS.Vfs.Path ContinuumOS.Vfs.Normalize
open ContinuumOS.Ramfs.Nodes ContinuumOS.Ramfs.Tree ContinuumOS.Ramfs.Operations

inductive Call where
  | mkdir (a : Alloc) (path : CStr)
  | touch (a : Alloc) (path : CStr)
  | remove (path : CStr)
  | rmdir (path : CStr)
  | openFile (node : Ptr)
  | close (fd : Nat)

/-- The state after a call. -/
def Call.run (fuel : Nat) (s : FsState) : Call → Option FsState
  | .mkdir a path => (fsMkdir s a path).map Prod.snd
  | .touch a path => (fsTouch s a path).map Prod.snd
  | .remove path => (fsRemove fuel s path).map Prod.snd
  | .rmdir path => (fsRmdir fuel s path).map Prod.snd
  | .openFile node => some (fsOpen s node).2
  | .close fd => some (fsClose s fd)

/-- Canonical paths, inside the path buffers where there are any; allocations
that succeed; and only files of the tree are opened. -/
def Call.Allowed (s : FsState) : Call → Prop
  | .mkdir a path => Canonical path ∧ (splitPath path).isSome ∧ Succeeds a s
  | .touch a path => Canonical path ∧ (splitPath path).isSome ∧ Succeeds a s
  | .remove path => Canonical path
  | .rmdir path => Canonical path
  | .openFile node => Reach s node ∧ ∃ n, s.nodes node = some n ∧ n.type = .file
  | .close _ => True

inductive Reached : FsState → Prop
  | init {a : Alloc} (node : a.node ≠ 0) (array : a.array ≠ 0) : Reached (fsInit a)
  | call {s s' : FsState} {fuel : Nat} {c : Call} (h : Reached s) (allowed : c.Allowed s)
      (run : c.run fuel s = some s') : Reached s'

/-- What the two representations of the tree say together. -/
structure IsTree (s : FsState) : Prop where
  root : ∃ n, s.nodes s.root = some n ∧ n.type = .directory
  /-- Listed exactly once, by the directory that the parent pointer names. -/
  listedOnce : ∀ n, Reach s n → n ≠ s.root → ∃ x, s.nodes n = some x ∧ Reach s x.parent ∧
    (s.listed x.parent).count n = 1 ∧ ∀ q, q ≠ x.parent → n ∉ s.listed q
  capacity : ∀ p x, s.nodes p = some x → x.childCount ≤ maxChildren ∧
    (s.listed p).length = x.childCount

/-- Exactly the node that the path names is gone: its directory lists the other
children in the old order, every other node is as it was, and everything else
that was reachable still is. -/
def RemovesOnly (s : FsState) (path : CStr) (s' : FsState) : Prop :=
  ∃ p n, fsFindByPath s path = some n ∧ Reach s n ∧ n ≠ s.root ∧ Removed s p n s' ∧
    ∀ q, Reach s' q ↔ Reach s q ∧ q ≠ n

variable {s s' : FsState}

/-! ## The invariant over runs -/

theorem inv_fsInit {a : Alloc} (hnode : a.node ≠ 0) (harray : a.array ≠ 0) : Inv (fsInit a) := by
  obtain ⟨x, hx, hlisted, hok, htype, hparent, -⟩ := fsCreateNode_spec
    { root := 0, nodes := fun _ => none
      fdTable := List.replicate maxOpenFiles ⟨0, 0, false⟩ } hnode harray rootStr .directory
  have hroot : (fsInit a).nodes a.node = some x := by
    rw [fsInit, hx]
    exact FsState.store_self ..
  have hother : ∀ q, q ≠ a.node → (fsInit a).nodes q = none := fun q hq => by
    rw [fsInit, hx]
    exact FsState.store_ne _ x hq
  have hnone : ∀ q, (fsInit a).listed q = [] := fun q => by
    by_cases hq : q = a.node
    · rw [hq, FsState.listed_of_node hroot, hlisted]
    · exact FsState.listed_of_none (hother q hq)
  have heq : (fsInit a).root = a.node := by rw [fsInit, hx]
  refine ⟨hother 0 hnode.symm, ⟨x, heq ▸ hroot, htype, hparent⟩, fun q y hy => ?_,
    fun q c hc => ?_, fun q => hnone q ▸ List.nodup_nil, fun d hd hused => ?_⟩
  · by_cases hq : q = a.node
    · rw [hq, hroot] at hy
      exact Option.some.inj hy ▸ hok
    · rw [hother q hq] at hy
      cases hy
  · rw [hnone q] at hc
    cases hc
  · -- no descriptor is in use
    rw [fsInit, hx] at hd
    rw [(List.mem_replicate.mp hd).2] at hused
    cases hused

theorem reach_table {fds : List FileDescriptor} {q : Ptr} (h : Reach s q) :
    Reach { s with fdTable := fds } q := by
  induction h with
  | root => exact .root
  | child _ hc ih => exact .child ih hc

theorem inv_table (h : Inv s) {fds : List FileDescriptor} (hfds : ∀ d ∈ fds, d.used = true →
    Reach s d.node ∧ ∃ n, s.nodes d.node = some n ∧ n.type = .file) :
    Inv { s with fdTable := fds } :=
  ⟨h.null, h.root, h.node, h.parent, h.nodup, fun d hd hused =>
    ⟨reach_table (hfds d hd hused).1, (hfds d hd hused).2⟩⟩

theorem inv_fsOpen (h : Inv s) {node : Ptr} (hreach : Reach s node)
    (hfile : ∃ n, s.nodes node = some n ∧ n.type = .file) : Inv (fsOpen s node).2 := by
  unfold fsOpen
  split
  · exact h
  · refine inv_table h fun d hd hused => ?_
    obtain hd | rfl := List.mem_or_eq_of_mem_set hd
    · exact h.opened d hd hused
    · exact ⟨hreach, hfile⟩

theorem inv_fsClose (h : Inv s) (fd : Nat) : Inv (fsClose s fd) := by
  unfold fsClose
  split
  · split
    · refine inv_table h fun e he hused => ?_
      obtain he | rfl := List.mem_or_eq_of_mem_set he
      · exact h.opened e he hused
      · cases hused
    · exact h
  · exact h

theorem removesOnly_of_unlink {path : CStr} {p n : Ptr} (hr : Removable s path p n) (h : Inv s)
    {fuel : Nat} {r : Int} (hrun : unlink fuel s n = some (r, s')) :
    r = 0 ∧ Inv s' ∧ RemovesOnly s path s' := by
  cases fuel with
  | zero => rw [unlink_zero h hr.listed] at hrun; cases hrun
  | succ fuel =>
    obtain ⟨t, ht, hremoved⟩ := hr.unlink h fuel
    rw [hrun] at ht
    cases ht
    exact ⟨rfl, hremoved.inv h hr.closed, p, n, hr.named, .child hr.reached hr.listed,
      fun he => h.root_not_listed (he ▸ hr.listed), hremoved, fun q => hremoved.reach_iff h⟩

/-- What `fs_remove` and `fs_rmdir` return, when they return. -/
def Answers (s : FsState) (path : CStr) (r : Int) (s' : FsState) : Prop :=
  (r = -1 ∧ s' = s) ∨ (r = 0 ∧ Inv s' ∧ RemovesOnly s path s')

theorem fsRemove_answers (h : Inv s) {path : CStr} (hpath : Canonical path) {fuel : Nat} {r : Int}
    (hrun : fsRemove fuel s path = some (r, s')) : Answers s path r s' := by
  obtain hrefused | ⟨p, n, hr, hunlink⟩ := fsRemove_cases h hpath fuel
  · rw [hrefused] at hrun
    cases hrun
    exact .inl ⟨rfl, rfl⟩
  · exact .inr (removesOnly_of_unlink hr h (hunlink ▸ hrun))

theorem fsRmdir_answers (h : Inv s) {path : CStr} (hpath : Canonical path) {fuel : Nat} {r : Int}
    (hrun : fsRmdir fuel s path = some (r, s')) : Answers s path r s' := by
  obtain hrefused | ⟨p, n, hr, hunlink⟩ := fsRmdir_cases h hpath fuel
  · rw [hrefused] at hrun
    cases hrun
    exact .inl ⟨rfl, rfl⟩
  · rw [hunlink] at hrun
    obtain ⟨busy, -, hrest⟩ := Option.bind_eq_some_iff.mp hrun
    cases busy with
    | true => cases hrest; exact .inl ⟨rfl, rfl⟩
    | false => exact .inr (removesOnly_of_unlink hr h hrest)

theorem Answers.inv {path : CStr} {r : Int} (ha : Answers s path r s') (h : Inv s) : Inv s' := by
  obtain ⟨-, rfl⟩ | ⟨-, hinv, -⟩ := ha
  · exact h
  · exact hinv

theorem Answers.root {path : CStr} {r : Int} (ha : Answers s path r s') : s'.root = s.root := by
  obtain ⟨-, rfl⟩ | ⟨-, -, p, n, -, -, -, hremoved, -⟩ := ha
  · rfl
  · exact hremoved.root

theorem Call.inv {c : Call} (h : Inv s) (hc : c.Allowed s) {fuel : Nat}
    (hrun : c.run fuel s = some s') : Inv s' ∧ s'.root = s.root := by
  cases c with
  | mkdir a path =>
    obtain ⟨r, t, ht, hmade⟩ := fsMkdir_spec h hc.2.2.node hc.2.2.fresh hc.2.2.array hc.2.1
    rw [Call.run, ht] at hrun
    cases hrun
    exact ⟨hmade.made.inv h, hmade.made.root⟩
  | touch a path =>
    obtain ⟨r, t, ht, hmade⟩ := fsTouch_spec h hc.2.2.node hc.2.2.fresh hc.2.2.array hc.2.1
    rw [Call.run, ht] at hrun
    cases hrun
    exact ⟨hmade.made.inv h, hmade.made.root⟩
  | remove path =>
    obtain ⟨⟨r, t⟩, ht, rfl⟩ := Option.map_eq_some_iff.mp hrun
    have hanswer := fsRemove_answers h hc ht
    exact ⟨hanswer.inv h, hanswer.root⟩
  | rmdir path =>
    obtain ⟨⟨r, t⟩, ht, rfl⟩ := Option.map_eq_some_iff.mp hrun
    have hanswer := fsRmdir_answers h hc ht
    exact ⟨hanswer.inv h, hanswer.root⟩
  | openFile node =>
    cases hrun
    refine ⟨inv_fsOpen h hc.1 hc.2, ?_⟩
    unfold fsOpen
    split <;> rfl
  | close fd =>
    cases hrun
    refine ⟨inv_fsClose h fd, ?_⟩
    unfold fsClose
    split
    · split <;> rfl
    · rfl

theorem Call.returns {c : Call} (h : Inv s) (hc : c.Allowed s) :
    ∃ N, ∀ fuel, N ≤ fuel → ∃ s', c.run fuel s = some s' := by
  cases c with
  | mkdir a path =>
    obtain ⟨r, t, ht, -⟩ := fsMkdir_spec h hc.2.2.node hc.2.2.fresh hc.2.2.array hc.2.1
    exact ⟨0, fun fuel _ => ⟨t, by rw [Call.run, ht]; rfl⟩⟩
  | touch a path =>
    obtain ⟨r, t, ht, -⟩ := fsTouch_spec h hc.2.2.node hc.2.2.fresh hc.2.2.array hc.2.1
    exact ⟨0, fun fuel _ => ⟨t, by rw [Call.run, ht]; rfl⟩⟩
  | remove path =>
    refine ⟨1, fun fuel hf => ?_⟩
    obtain ⟨k, rfl⟩ : ∃ k, fuel = k + 1 := ⟨fuel - 1, by omega⟩
    obtain hrefused | ⟨p, n, hr, hunlink⟩ := fsRemove_cases h hc (k + 1)
    · exact ⟨s, by rw [Call.run, hrefused]; rfl⟩
    · obtain ⟨t, ht, -⟩ := hr.unlink h k
      exact ⟨t, by rw [Call.run, hunlink, ht]; rfl⟩
  | rmdir path =>
    -- the node is the same for every number of rounds
    obtain ⟨n, hfind, -⟩ := Lookup.fsFindByPath_spec h path
    obtain ⟨N, hN⟩ := holdsOpen_ends h n fun d hd hused => (h.opened d hd hused).1
    refine ⟨N + 1, fun fuel hf => ?_⟩
    obtain ⟨k, rfl⟩ : ∃ k, fuel = k + 1 := ⟨fuel - 1, by omega⟩
    obtain hrefused | ⟨p, m, hr, hunlink⟩ := fsRmdir_cases h hc (k + 1)
    · exact ⟨s, by rw [Call.run, hrefused]; rfl⟩
    · obtain rfl : n = m := Option.some.inj (hfind.symm.trans hr.named)
      obtain ⟨busy, hbusy⟩ := hN (k + 1) (by omega)
      rw [Call.run, hunlink, hbusy]
      cases busy with
      | true => exact ⟨s, rfl⟩
      | false =>
        obtain ⟨t, ht, -⟩ := hr.unlink h k
        exact ⟨t, by rw [Option.bind_some, if_neg (by decide), ht]; rfl⟩
  | openFile node => exact ⟨0, fun _ _ => ⟨_, rfl⟩⟩
  | close fd => exact ⟨0, fun _ _ => ⟨_, rfl⟩⟩

theorem Reached.inv (h : Reached s) : Inv s := by
  induction h with
  | init hnode harray => exact inv_fsInit hnode harray
  | call _ hc hrun ih => exact (Call.inv ih hc hrun).1

theorem isTree_of_inv (h : Inv s) : IsTree s := by
  refine ⟨?_, fun n hn hroot => ?_, fun p x hx => ?_⟩
  · obtain ⟨x, hx, htype, -⟩ := h.root
    exact ⟨x, hx, htype⟩
  · obtain ⟨x, hx⟩ := h.live hn
    obtain ⟨hr, -⟩ | ⟨hparent, hlisted⟩ := h.reach_parent hn hx
    · exact absurd hr hroot
    · exact ⟨x, hx, hparent, List.count_eq_one_of_mem (h.nodup _) hlisted,
        fun q hq hmem => hq (h.listed_unique hmem hlisted)⟩
  · have hok := h.node p x hx
    exact ⟨hok.capacity, by rw [FsState.listed_of_node hx, hok.length_listed]⟩

/-- **The RAM file system stays a tree.** In every state of a run: every
reachable node but the root is listed once, by the directory its parent pointer
names; the counts are the numbers of children and stay within the arrays; every
call returns and keeps the root; and a removal that succeeds takes out exactly
the node that the path names. -/
theorem ramfs_stays_tree (h : Reached s) :
    IsTree s ∧
    (∀ c : Call, c.Allowed s → ∃ N, ∀ fuel, N ≤ fuel → ∃ s',
      c.run fuel s = some s' ∧ s'.root = s.root) ∧
    (∀ fuel path s', Canonical path → fsRemove fuel s path = some (0, s') →
      RemovesOnly s path s') ∧
    (∀ fuel path s', Canonical path → fsRmdir fuel s path = some (0, s') →
      RemovesOnly s path s') := by
  have hinv := h.inv
  refine ⟨isTree_of_inv hinv, fun c hc => ?_, fun fuel path t hpath hrun => ?_,
    fun fuel path t hpath hrun => ?_⟩
  · obtain ⟨N, hN⟩ := Call.returns hinv hc
    refine ⟨N, fun fuel hf => ?_⟩
    obtain ⟨t, ht⟩ := hN fuel hf
    exact ⟨t, ht, (Call.inv hinv hc ht).2⟩
  · obtain ⟨hr, -⟩ | ⟨-, -, hremoves⟩ := fsRemove_answers hinv hpath hrun
    · cases hr
    · exact hremoves
  · obtain ⟨hr, -⟩ | ⟨-, -, hremoves⟩ := fsRmdir_answers hinv hpath hrun
    · cases hr
    · exact hremoves

/-- `"/f"` -/
def examplePath : CStr := [slash, 0x66]

/-- `/g` -/
def otherPath : CStr := [slash, 0x67]

theorem canonical_example : Canonical examplePath :=
  canonical_joinPath (show PlainWords [[0x66]] by
    simp [PlainWords, Plain, slash, dotStr, dotDotStr, dot])

/-- After `fs_touch("/f")` the root has one child, and `fs_remove("/f")` takes
just that out. -/
theorem ramfs_stays_tree_example : ∃ s s', Reached s ∧ s.listed s.root = [4] ∧
    fsRemove 1 s examplePath = some (0, s') ∧ RemovesOnly s examplePath s' := by
  have hinit : Reached (fsInit ⟨1, 2, 3⟩) := .init (by decide) (by decide)
  have hfresh : (fsInit ⟨1, 2, 3⟩).nodes 4 = none := by decide
  have htouch : (Call.touch ⟨4, 5, 6⟩ examplePath).Allowed (fsInit ⟨1, 2, 3⟩) :=
    ⟨canonical_example, by decide, by decide, hfresh, by decide, by decide⟩
  have hreached := @Reached.call _ _ 0 _ hinit htouch rfl
  exact ⟨_, _, hreached, rfl, rfl,
    (ramfs_stays_tree hreached).2.2.1 1 examplePath _ canonical_example rfl⟩

end ContinuumOS.Ramfs.Runs
