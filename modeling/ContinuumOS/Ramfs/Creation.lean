import ContinuumOS.Ramfs.Folds
import ContinuumOS.Ramfs.Siblings
import Mathlib.Data.List.Find

/-! # Where a path leads once its node is made

The first child of a name hides the later ones, and a full directory lists no
new child at all. So the path of the call leads to the node that it led to
before, or to the new one where it led nowhere and the directory has room. -/
namespace ContinuumOS.Ramfs.Creation
open ContinuumOS.Lib.Words ContinuumOS.Libc.String ContinuumOS.Vfs.Path
open ContinuumOS.Vfs.Normalize
open ContinuumOS.Ramfs.Nodes ContinuumOS.Ramfs.Tree ContinuumOS.Ramfs.Lookup
open ContinuumOS.Ramfs.Operations ContinuumOS.Ramfs.Likeness ContinuumOS.Ramfs.Backing
open ContinuumOS.Ramfs.Soundness ContinuumOS.Ramfs.Folds ContinuumOS.Ramfs.Siblings

/-- The path leads to a node of that type. -/
def LeadsTo (s : FsState) (path : CStr) (type : FSNodeType) : Prop :=
  ∃ n x, fsFindByPath s path = some n ∧ s.nodes n = some x ∧ x.type = type

/-- The directory in which the path ends can take a child. -/
def Room (s : FsState) (path : CStr) : Prop :=
  ∃ p name y, Receives s path p name y ∧ y.childCount < maxChildren

/-- A node of that type is there already, or nothing is there and there is room. -/
def Shows (s : FsState) (path : CStr) (type : FSNodeType) : Prop :=
  LeadsTo s path type ∨ fsFindByPath s path = some 0 ∧ Room s path

variable {s s' : FsState} {p q a n : Ptr} {y : FSNode} {path name : CStr} {type : FSNodeType}

/-! ## Cutting a canonical path -/

theorem splitPath_joinPath {init : List CStr} {c parentPath : CStr}
    (h : PlainWords (init ++ [c])) (hsplit : splitPath (joinPath (init ++ [c])) =
      some (parentPath, name)) : parentPath = joinPath init ∧ name = c := by
  have hslash : slash ∉ c := (h c (by simp)).1
  have hjoin : joinPath (init ++ [c]) = joinWords slash init ++ slash :: c := by
    rw [joinPath, if_neg (by simp), joinWords_append, joinWords_cons, joinWords_nil,
      List.append_nil]
  rw [splitPath, hjoin, strrchr_append hslash] at hsplit
  obtain ⟨-, hparts⟩ := Option.ite_none_right_eq_some.mp hsplit
  obtain ⟨hparent, hname⟩ := Prod.mk.inj (Option.some.inj hparts)
  constructor
  · rw [← hparent, List.take_left, joinPath]
    by_cases hinit : init = []
    · rw [hinit]
      rfl
    · have hlength : (joinWords slash init).length ≠ 0 := by
        rw [joinWords_eq_intercalate _ hinit]
        exact Nat.succ_ne_zero _
      rw [if_neg hlength, if_neg hinit]
  · rw [← hname, ← List.drop_drop, List.drop_left]
    rfl

theorem walk_append (s : FsState) (ws vs : List CStr) : ∀ {p : Ptr},
    walk s p ws = some n → n ≠ 0 → walk s p (ws ++ vs) = walk s n vs := by
  induction ws with
  | nil =>
    intro p h _
    obtain rfl := Option.some.inj h
    rfl
  | cons w ws ih =>
    intro p h hn
    rw [walk] at h
    rw [List.cons_append, walk]
    split at h
    · exact absurd (Option.some.inj h).symm hn
    · rename_i hfits
      obtain ⟨c, hc, h⟩ := Option.bind_eq_some_iff.mp h
      rw [if_neg hfits, hc]
      split at h
      · exact absurd (Option.some.inj h).symm hn
      · rename_i hnull
        simp only [Option.bind_eq_bind, Option.bind_some, if_neg hnull]
        exact ih h hn

/-! ## The children after the call -/

theorem listed_adds (h : Adds s path p name y a s') (hq : q ≠ a) : s'.listed q =
    s.listed q ++ if q = p ∧ y.childCount < maxChildren then [a] else [] := by
  have hgrown := h.grown
  split at hgrown
  · rename_i hfull
    rw [hgrown.listed_eq, if_neg (fun hroom => Nat.not_le.mpr hroom.2 hfull), List.append_nil]
  · rename_i hroom
    by_cases hp : q = p
    · rw [hp, hgrown.listed_parent, if_pos ⟨rfl, Nat.lt_of_not_le hroom⟩]
    · rw [hgrown.listed_frame hq hp, if_neg (fun hqp => hp hqp.1), List.append_nil]

theorem fresh_adds (h : Adds s path p name y a s') : s.nodes a = none ∧ a ≠ 0 := by
  have hgrown := h.grown
  split at hgrown
  · exact ⟨hgrown.fresh, hgrown.notNull⟩
  · exact ⟨hgrown.fresh, hgrown.notNull⟩

theorem reach_ne (h : Adds s path p name y a s') (hs : Inv s) (hq : Reach s q) : q ≠ a := by
  rintro rfl
  obtain ⟨x, hx⟩ := hs.live hq
  rw [(fresh_adds h).1] at hx
  cases hx

theorem childNamed_adds (h : Adds s path p name y a s') (hs : Inv s) (hq : Reach s q)
    (w : CStr) : childNamed s' q w = (childNamed s q w).or
      (if (q = p ∧ y.childCount < maxChildren) ∧ w = name then some a else none) := by
  have hold : (s.listed q).find? (fun c => nameOf s' c == some w) = childNamed s q w := by
    refine List.find?_congr fun c hc => ?_
    rw [h.others c (reach_ne h hs (.child hq hc))]
  rw [childNamed, listed_adds h (reach_ne h hs hq), List.find?_append, hold]
  congr 1
  by_cases hplace : q = p ∧ y.childCount < maxChildren
  · rw [if_pos hplace, List.find?_singleton, h.named]
    simp only [beq_iff_eq, Option.some.injEq, hplace, and_self, true_and, @eq_comm _ w name]
  · rw [if_neg hplace, if_neg fun hc => hplace hc.1]
    rfl

theorem reach_adds (h : Adds s path p name y a s') (hq : Reach s q) : Reach s' q := by
  have hgrown := h.grown
  split at hgrown
  · exact hgrown.reach hq
  · exact hgrown.reach hq

theorem type_adds (h : Adds s path p name y a s') {x : FSNode} (hx : s.nodes q = some x) :
    ∃ z, s'.nodes q = some z ∧ z.type = x.type := by
  have hgrown := h.grown
  split at hgrown
  · exact ⟨x, hgrown.kept hx, rfl⟩
  · obtain ⟨z, hz, htype, -⟩ := hgrown.kept hx
    exact ⟨z, hz, htype⟩

theorem walk_adds (h : Adds s path p name y a s') (hs : Inv s) (ws : List CStr) :
    ∀ {q : Ptr}, Reach s q → walk s q ws = some n → n ≠ 0 → walk s' q ws = some n := by
  have hs' : Inv s' := h.made.inv hs
  induction ws with
  | nil => exact fun {q} _ hw _ => hw
  | cons w ws ih =>
    intro q hq hw hn
    rw [walk, fsFindChild_eq hs hq] at hw
    rw [walk, fsFindChild_eq hs' (reach_adds h hq), childNamed_adds h hs hq]
    split at hw
    · exact absurd (Option.some.inj hw).symm hn
    · rename_i hfits
      rw [if_neg hfits]
      simp only [Option.bind_eq_bind, Option.bind_some] at hw ⊢
      cases hc : childNamed s q w with
      | none =>
        rw [hc, Option.getD_none, if_pos rfl] at hw
        exact absurd (Option.some.inj hw).symm hn
      | some c =>
        rw [hc, Option.getD_some] at hw
        rw [Option.some_or, Option.getD_some]
        split at hw
        · exact absurd (Option.some.inj hw).symm hn
        · rename_i hnull
          rw [if_neg hnull]
          exact ih (.child hq (List.mem_of_find?_eq_some hc)) hw hn

/-! ## Where the path leads -/

theorem walk_last (hs : Inv s) (hq : Reach s q) {c : CStr} (hc : c.length < nameSize) :
    walk s q [c] = some ((childNamed s q c).getD 0) := by
  have hfits : ¬ vfsMaxName - 1 < c.length := Nat.not_lt.mpr (Nat.le_pred_of_lt hc)
  rw [walk, if_neg hfits, fsFindChild_eq hs hq]
  simp only [Option.bind_eq_bind, Option.bind_some, walk]
  split
  · rename_i hnull
    rw [hnull]
  · rfl

theorem find_adds (h : Adds s path p name y a s') (hs : Inv s) (hpath : Canonical path)
    (hroot : path ≠ rootStr) : Reach s p ∧
      fsFindByPath s path = some ((childNamed s p name).getD 0) ∧
      fsFindByPath s' path = some (((childNamed s p name).or
        (if y.childCount < maxChildren then some a else none)).getD 0) := by
  have hs' : Inv s' := h.made.inv hs
  obtain ⟨cs, hcs, rfl⟩ := hpath.exists_components
  obtain rfl | ⟨init, c, hconcat⟩ := List.eq_nil_or_concat cs
  · exact absurd rfl hroot
  rw [List.concat_eq_append] at hconcat
  subst hconcat
  have hinit : PlainWords init := fun w hw => hcs w (List.mem_append_left _ hw)
  obtain ⟨parentPath, hsplit, hfind⟩ := h.receives.split
  have hlength := length_of_splitPath hsplit
  obtain ⟨rfl, rfl⟩ := splitPath_joinPath hcs hsplit
  rw [fsFindByPath_joinPath hinit] at hfind
  obtain ⟨p', hp', hreach⟩ := walk_spec hs init (p := s.root) .root
  obtain rfl := Option.some.inj (hfind.symm.trans hp')
  have hp : Reach s p := (hreach.resolve_left h.receives.notNull).1
  have hfind' : walk s' s'.root init = some p := by
    rw [h.made.root]
    exact walk_adds h hs init .root hfind h.receives.notNull
  refine ⟨hp, ?_, ?_⟩
  · rw [fsFindByPath_joinPath hcs, walk_append s init [name] hfind h.receives.notNull,
      walk_last hs hp hlength]
  · rw [fsFindByPath_joinPath hcs, walk_append s' init [name] hfind' h.receives.notNull,
      walk_last hs' (reach_adds h hp) hlength, childNamed_adds h hs hp]
    simp only [true_and, and_true]

/-- **The path leads to a node of the new type** just if it did before, or led
nowhere and its directory has room. -/
theorem leads_adds (h : Adds s path p name y a s') (hs : Inv s) (hpath : Canonical path)
    {x : FSNode} (hx : s'.nodes a = some x) (htype : x.type = type) :
    LeadsTo s' path type ↔ Shows s path type := by
  have hnull : s.nodes 0 = none := hs.null
  have hsame : ∀ n, s.nodes n ≠ none → fsFindByPath s path = some n →
      fsFindByPath s' path = some n → (LeadsTo s' path type ↔ Shows s path type) := by
    intro n hlive hfind hfind'
    obtain ⟨z, hz⟩ := Option.ne_none_iff_exists'.mp hlive
    obtain ⟨z', hz', hkept⟩ := type_adds h hz
    constructor
    · rintro ⟨m, w, hm, hw, hwtype⟩
      obtain rfl := Option.some.inj (hfind'.symm.trans hm)
      obtain rfl := Option.some.inj (hz'.symm.trans hw)
      exact .inl ⟨n, z, hfind, hz, hkept.symm.trans hwtype⟩
    · rintro (⟨m, w, hm, hw, hwtype⟩ | ⟨hm, -⟩)
      · obtain rfl := Option.some.inj (hfind.symm.trans hm)
        obtain rfl := Option.some.inj (hz.symm.trans hw)
        exact ⟨n, z', hfind', hz', hkept.trans hwtype⟩
      · obtain rfl := Option.some.inj (hfind.symm.trans hm)
        exact absurd hnull hlive
  by_cases hroot : path = rootStr
  · have hfind : ∀ t : FsState, fsFindByPath t path = some t.root := fun t => by
      rw [fsFindByPath, if_neg (by rw [hroot]; decide), if_pos hroot]
    obtain ⟨z, hz, -⟩ := hs.root
    exact hsame s.root (by rw [hz]; exact Option.some_ne_none z) (hfind s)
      ((hfind s').trans (congrArg some h.made.root))
  obtain ⟨hp, hfind, hfind'⟩ := find_adds h hs hpath hroot
  cases hc : childNamed s p name with
  | some c =>
    rw [hc, Option.getD_some] at hfind
    rw [hc, Option.some_or, Option.getD_some] at hfind'
    obtain ⟨z, hz⟩ := hs.live (.child hp (List.mem_of_find?_eq_some hc))
    exact hsame c (by rw [hz]; exact Option.some_ne_none z) hfind hfind'
  | none =>
    rw [hc, Option.getD_none] at hfind
    rw [hc, Option.none_or] at hfind'
    by_cases hroom : y.childCount < maxChildren
    · rw [if_pos hroom, Option.getD_some] at hfind'
      exact iff_of_true ⟨a, x, hfind', hx, htype⟩ (.inr ⟨hfind, p, name, y, h.receives, hroom⟩)
    · -- a full directory: nothing is found before or after
      rw [if_neg hroom, Option.getD_none] at hfind'
      refine iff_of_false ?_ ?_
      · rintro ⟨m, w, hm, hw, -⟩
        obtain rfl := Option.some.inj (hfind'.symm.trans hm)
        rw [(h.made.inv hs).null] at hw
        cases hw
      · rintro (⟨m, w, hm, hw, -⟩ | ⟨-, p', name', y', hreceives, hroom'⟩)
        · obtain rfl := Option.some.inj (hfind.symm.trans hm)
          rw [hnull] at hw
          cases hw
        · obtain ⟨parentPath, hsplit, hparent⟩ := hreceives.split
          obtain ⟨rfl, -⟩ := h.receives.unique hsplit hparent
          obtain rfl := Option.some.inj (hreceives.node.symm.trans h.receives.node)
          exact hroom hroom'

/-! ## The calls -/

theorem leadsTo_alike {t : FsState} (h : Alike s t) : LeadsTo t path type ↔ LeadsTo s path type := by
  have halike : ∀ {u v : FsState}, Alike u v → LeadsTo u path type → LeadsTo v path type := by
    rintro u v h ⟨n, x, hn, hx, htype⟩
    obtain ⟨z, hz, -, hkept, -⟩ := h.some hx
    exact ⟨n, z, (h.fsFindByPath path).trans hn, hz, hkept.trans htype⟩
  exact ⟨halike h.symm, halike h⟩

theorem room_backed : Room (backedState s) path ↔ Room s path := by
  constructor
  · rintro ⟨p, name, y, hreceives, hroom⟩
    obtain ⟨x, hx, rfl⟩ := receives_of_backed hreceives
    rw [backed_childCount] at hroom
    exact ⟨p, name, x, hx, hroom⟩
  · rintro ⟨p, name, y, hreceives, hroom⟩
    refine ⟨p, name, backed y, receives_backed hreceives, ?_⟩
    rwa [backed_childCount]

theorem shows_backed : Shows (backedState s) path type ↔ Shows s path type := by
  rw [Shows, leadsTo_alike (alike_backedState s), (alike_backedState s).fsFindByPath, room_backed,
    Shows]

theorem type_fsAddChild {c : Ptr} (h : fsAddChild s p c = some s') (q : Ptr) :
    (s'.nodes q).map FSNode.type = (s.nodes q).map FSNode.type := by
  have hstore : ∀ {u : FsState} {r : Ptr} {x z : FSNode}, u.nodes r = some x → z.type = x.type →
      ((u.store r z).nodes q).map FSNode.type = (u.nodes q).map FSNode.type := by
    intro u r x z hx htype
    by_cases hq : q = r
    · rw [hq, FsState.store_self, hx, Option.map_some, Option.map_some, htype]
    · rw [FsState.store_ne _ _ hq]
  rw [fsAddChild] at h
  split at h
  · cases h
    rfl
  obtain ⟨x, hx, h⟩ := Option.bind_eq_some_iff.mp h
  split at h
  · cases h
    rfl
  split at h
  · cases h
    rfl
  obtain ⟨slots, -, h⟩ := Option.bind_eq_some_iff.mp h
  obtain ⟨z, hz, h⟩ := Option.bind_eq_some_iff.mp h
  cases h
  rw [hstore hz, hstore hx]
  · rfl
  · rfl

/-- A directory received the node, and it has the type. -/
def Placed (s : FsState) (path : CStr) (al : Alloc) (type : FSNodeType) (s' : FsState) : Prop :=
  al.node ≠ 0 ∧ (∃ p name y, Receives s path p name y) ∧
    (s'.nodes al.node).map FSNode.type = some type

theorem mkdir_placed {al : Alloc} {r : Ptr} (hrun : fsMkdir s al path = some (r, s'))
    (hr : r ≠ 0) : Placed s path al .directory s' := by
  rw [fsMkdir] at hrun
  obtain ⟨⟨parentPath, name⟩, hsplit, hrun⟩ := Option.bind_eq_some_iff.mp hrun
  obtain ⟨p, hp, hrun⟩ := Option.bind_eq_some_iff.mp hrun
  split at hrun
  · cases hrun
    exact absurd rfl hr
  rename_i hnull
  obtain ⟨y, hy, hrun⟩ := Option.bind_eq_some_iff.mp hrun
  split at hrun
  · cases hrun
    exact absurd rfl hr
  rename_i hdir
  have hreceives : Receives s path p name y :=
    ⟨⟨parentPath, hsplit, hp⟩, hnull, hy, not_not.mp hdir⟩
  by_cases hnode : al.node = 0
  · simp only [fsCreateNode, if_pos hnode] at hrun
    obtain ⟨t, -, hrun⟩ := Option.bind_eq_some_iff.mp hrun
    cases hrun
    exact absurd rfl hr
  · simp only [fsCreateNode, if_neg hnode] at hrun
    obtain ⟨t, ht, hrun⟩ := Option.bind_eq_some_iff.mp hrun
    cases hrun
    refine ⟨hnode, ⟨p, name, y, hreceives⟩, ?_⟩
    rw [type_fsAddChild ht, FsState.store_self]
    rfl

theorem touch_placed {al : Alloc} {r : Ptr} (hrun : fsTouch s al path = some (r, s'))
    (hr : r ≠ 0) : Placed s path al .file s' := by
  rw [fsTouch] at hrun
  obtain ⟨⟨parentPath, name⟩, hsplit, hrun⟩ := Option.bind_eq_some_iff.mp hrun
  obtain ⟨p, hp, hrun⟩ := Option.bind_eq_some_iff.mp hrun
  split at hrun
  · cases hrun
    exact absurd rfl hr
  rename_i hnull
  obtain ⟨y, hy, hrun⟩ := Option.bind_eq_some_iff.mp hrun
  split at hrun
  · cases hrun
    exact absurd rfl hr
  rename_i hdir
  have hreceives : Receives s path p name y :=
    ⟨⟨parentPath, hsplit, hp⟩, hnull, hy, not_not.mp hdir⟩
  by_cases hnode : al.node = 0
  · rw [fsCreateNode, if_pos hnode] at hrun
    cases hrun
    exact absurd rfl hr
  · simp only [fsCreateNode, if_neg hnode, FsState.store_self, Option.bind_eq_bind,
      Option.bind_some] at hrun
    obtain ⟨t, ht, hrun⟩ := Option.bind_eq_some_iff.mp hrun
    cases hrun
    refine ⟨hnode, ⟨p, name, y, hreceives⟩, ?_⟩
    rw [type_fsAddChild ht, FsState.store_self]
    rfl

/-- A node that was made and placed is found, if its path showed room for it. -/
theorem leads_placed (hs : Sound s) (hpath : Canonical path) {al : Alloc}
    (hplaced : Placed s path al type s')
    (hmade : MadeAt (backedState s) path al.node (backedState s')) :
    LeadsTo s' path type ↔ Shows s path type := by
  obtain ⟨hnode, ⟨p, name, y, hreceives⟩, htype⟩ := hplaced
  obtain ⟨-, hnull | hnone⟩ | ⟨q, w, z, hadds⟩ := hmade
  · exact absurd hnull hnode
  · exact absurd (receives_backed hreceives) (hnone p name _)
  obtain ⟨x, hx, hxtype⟩ := Option.map_eq_some_iff.mp htype
  have hleads := leads_adds hadds hs hpath (backedState_nodes hx)
    ((backed_type x).trans hxtype)
  rwa [leadsTo_alike (alike_backedState s'), shows_backed] at hleads

end ContinuumOS.Ramfs.Creation
