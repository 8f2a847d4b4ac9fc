import ContinuumOS.Ramfs.Tree
import ContinuumOS.Vfs.Normalize

/-! # Looking a path up in the tree

`fs_find_by_path` cuts the path byte by byte. It only ever follows children
and parents of reachable nodes, so it never faults and ends at a reachable node
or at `NULL`. On a canonical path it is the walk along the components
(`walk`), which ends on a node that some directory lists: never on the root
unless the path is the root. -/
namespace ContinuumOS.Ramfs.Lookup
open ContinuumOS.Lib.Words ContinuumOS.Libc.String
open ContinuumOS.Vfs.Path ContinuumOS.Vfs.Termination ContinuumOS.Vfs.Normalize
open ContinuumOS.Ramfs.Nodes ContinuumOS.Ramfs.Tree

variable {s : FsState}

theorem findNamed_spec (name : CStr) {ps : List Ptr} (h : ∀ c ∈ ps, ∃ x, s.nodes c = some x) :
    ∃ c, findNamed s name ps = some c ∧ (c = 0 ∨ c ∈ ps) := by
  induction ps with
  | nil => exact ⟨0, rfl, .inl rfl⟩
  | cons p ps ih =>
    obtain ⟨x, hx⟩ := h p (.head _)
    obtain ⟨c, hc, hmem⟩ := ih fun c hc => h c (.tail _ hc)
    simp only [findNamed, hx, Option.bind_eq_bind, Option.bind_some]
    split
    · exact ⟨p, rfl, .inr (.head _)⟩
    · exact ⟨c, hc, hmem.imp_right (.tail _)⟩

theorem fsFindChild_spec (h : Inv s) {p : Ptr} (hp : Reach s p) (name : CStr) :
    ∃ c, fsFindChild s p name = some c ∧ (c = 0 ∨ c ∈ s.listed p) := by
  obtain ⟨x, hx⟩ := h.live hp
  have hlisted := FsState.listed_of_node hx
  have hlive : ∀ c ∈ x.listed, ∃ y, s.nodes c = some y := fun c hc => by
    obtain ⟨y, hy, -⟩ := h.parent p c (hlisted ▸ hc)
    exact ⟨y, hy⟩
  obtain ⟨c, hc, hmem⟩ := findNamed_spec name hlive
  rw [fsFindChild, if_neg (h.ne_null hx), hx]
  simp only [Option.bind_eq_bind, Option.bind_some]
  split
  · exact ⟨0, rfl, .inl rfl⟩
  · exact ⟨c, hc, hlisted ▸ hmem⟩

theorem visit_spec (h : Inv s) {p : Ptr} (hp : Reach s p) (temp : CStr) :
    ∃ c, visit s p temp = some c ∧ (c = 0 ∨ Reach s c) := by
  unfold visit
  split
  · exact ⟨p, rfl, .inr hp⟩
  split
  · -- the parent, or the root itself
    obtain ⟨x, hx⟩ := h.live hp
    refine ⟨_, by rw [hx]; rfl, .inr ?_⟩
    split
    · rename_i hparent
      obtain ⟨-, hnull⟩ | ⟨hreach, -⟩ := h.reach_parent hp hx
      · exact absurd hnull hparent
      · exact hreach
    · exact hp
  · obtain ⟨c, hc, hmem⟩ := fsFindChild_spec h hp temp
    exact ⟨c, hc, hmem.imp_right fun hm => .child hp hm⟩

theorem findLoop_spec (h : Inv s) (path : CStr) : ∀ (temp : CStr) {p : Ptr}, Reach s p →
    ∃ c, findLoop s path temp p = some c ∧ (c = 0 ∨ Reach s c) := by
  induction path with
  | nil => exact fun temp p hp => visit_spec h hp temp
  | cons b path ih =>
    intro temp p hp
    unfold findLoop
    split
    · obtain ⟨c, hc, hreach⟩ := visit_spec h hp temp
      simp only [hc, Option.bind_eq_bind, Option.bind_some]
      split
      · exact ⟨0, rfl, .inl rfl⟩
      · rename_i hne
        exact ih [] (hreach.resolve_left hne)
    · split
      · exact ih _ hp
      · exact ⟨0, rfl, .inl rfl⟩

theorem fsFindByPath_spec (h : Inv s) (path : CStr) :
    ∃ c, fsFindByPath s path = some c ∧ (c = 0 ∨ Reach s c) := by
  unfold fsFindByPath
  split
  · exact ⟨0, rfl, .inl rfl⟩
  split
  · exact ⟨s.root, rfl, .inr .root⟩
  · exact findLoop_spec h _ [] .root

/-! ## The walk along the components -/

/-- The children that the components of a path name, one below the other. -/
def walk (s : FsState) : Ptr → List CStr → Option Ptr
  | current, [] => some current
  | current, w :: ws =>
    if vfsMaxName - 1 < w.length then some 0
    else do
      let next ← fsFindChild s current w
      if next = 0 then some 0 else walk s next ws

theorem findLoop_word (rest : CStr) (current : Ptr) {w : CStr} (hw : slash ∉ w) : ∀ {temp : CStr},
    temp.length ≤ vfsMaxName - 1 → findLoop s (w ++ rest) temp current =
      if vfsMaxName - 1 < temp.length + w.length then some 0
      else findLoop s rest (temp ++ w) current := by
  induction w with
  | nil =>
    intro temp htemp
    rw [List.length_nil, Nat.add_zero, if_neg (by omega), List.append_nil, List.nil_append]
  | cons b w ih =>
    intro temp htemp
    obtain ⟨hb, hw⟩ := not_or.mp (List.mem_cons.not.mp hw)
    rw [List.cons_append, findLoop, if_neg (Ne.symm hb), List.length_cons]
    by_cases hroom : temp.length < vfsMaxName - 1
    · rw [if_pos hroom, ih hw (by rw [List.length_append, List.length_singleton]; omega),
        List.append_assoc, List.singleton_append, List.length_append, List.length_singleton,
        Nat.add_assoc, Nat.add_comm 1]
    · rw [if_neg hroom, if_pos (by omega)]

theorem visit_of_plain (current : Ptr) {w : CStr} (h : Plain w) :
    visit s current w = fsFindChild s current w := by
  rw [visit, if_neg (not_or.mpr ⟨h.1, h.2.1⟩), if_neg h.2.2]

theorem findLoop_joinWords {ws : List CStr} : ∀ {w : CStr} (current : Ptr), PlainWords (w :: ws) →
    findLoop s (w ++ joinWords slash ws) [] current = walk s current (w :: ws) := by
  induction ws with
  | nil =>
    intro w current h
    obtain ⟨hslash, hplain⟩ := h w (.head _)
    rw [joinWords_nil, findLoop_word [] current hslash (Nat.zero_le _), walk, List.length_nil,
      Nat.zero_add, List.nil_append, findLoop, visit_of_plain current hplain]
    congr 1
    cases fsFindChild s current w with
    | none => rfl
    | some c =>
      simp only [Option.bind_eq_bind, Option.bind_some, walk]
      split
      · rename_i hc
        rw [hc]
      · rfl
  | cons v ws ih =>
    intro w current h
    obtain ⟨hslash, hplain⟩ := h w (.head _)
    rw [findLoop_word _ current hslash (Nat.zero_le _), walk, List.length_nil, Nat.zero_add,
      List.nil_append, joinWords_cons, findLoop, if_pos rfl, visit_of_plain current hplain]
    congr 1
    cases fsFindChild s current w with
    | none => rfl
    | some c =>
      simp only [Option.bind_eq_bind, Option.bind_some]
      rw [ih c fun x hx => h x (.tail _ hx)]

theorem fsFindByPath_joinPath {cs : List CStr} (h : PlainWords cs) :
    fsFindByPath s (joinPath cs) = walk s s.root cs := by
  rw [fsFindByPath, if_neg (by simp [head_joinPath])]
  cases cs with
  | nil => rfl
  | cons w ws =>
    have hne : joinPath (w :: ws) ≠ rootStr := by
      intro heq
      have hcomp := components_joinPath h
      rw [heq] at hcomp
      exact absurd (hcomp.symm.trans (by decide : components rootStr = [])) (by simp)
    rw [if_neg hne, joinPath, if_neg (List.cons_ne_nil _ _), joinWords_cons, List.tail_cons,
      findLoop_joinWords _ h]

theorem walk_spec (h : Inv s) (cs : List CStr) : ∀ {p : Ptr}, Reach s p →
    ∃ c, walk s p cs = some c ∧ (c = 0 ∨
      (Reach s c ∧ (cs ≠ [] → ∃ q, Reach s q ∧ c ∈ s.listed q))) := by
  induction cs with
  | nil => exact fun {p} hp => ⟨p, rfl, .inr ⟨hp, fun hne => absurd rfl hne⟩⟩
  | cons w ws ih =>
    intro p hp
    unfold walk
    split
    · exact ⟨0, rfl, .inl rfl⟩
    obtain ⟨c, hc, hmem⟩ := fsFindChild_spec h hp w
    simp only [hc, Option.bind_eq_bind, Option.bind_some]
    split
    · exact ⟨0, rfl, .inl rfl⟩
    · rename_i hne
      have hlisted := hmem.resolve_left hne
      obtain ⟨d, hd, hrest⟩ := ih (.child hp hlisted)
      refine ⟨d, hd, hrest.imp_right fun ⟨hreach, hlast⟩ => ⟨hreach, fun _ => ?_⟩⟩
      by_cases hws : ws = []
      · subst hws
        cases hd
        exact ⟨p, hp, hlisted⟩
      · exact hlast hws

/-- A canonical path other than the root leads to a node that a reachable
directory lists, or nowhere. -/
theorem fsFindByPath_canonical (h : Inv s) {path : CStr} (hc : Canonical path)
    (hroot : path ≠ rootStr) : ∃ n, fsFindByPath s path = some n ∧ (n = 0 ∨
      ∃ p, Reach s p ∧ n ∈ s.listed p) := by
  obtain ⟨cs, hcs, rfl⟩ := hc.exists_components
  have hne : cs ≠ [] := fun he => hroot (by rw [he]; rfl)
  obtain ⟨n, hn, hrest⟩ := walk_spec h cs .root
  exact ⟨n, (fsFindByPath_joinPath hcs).trans hn, hrest.imp_right fun hr => hr.2 hne⟩

end ContinuumOS.Ramfs.Lookup
