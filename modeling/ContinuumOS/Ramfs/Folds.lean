import ContinuumOS.Ramfs.Runs

/-! # The two lookups are one fold

`fs_find_by_path` and `fs_find_by_path_from` cut the path byte by byte and
resolve each component where it ends, the last one after the loop. In a tree
both follow the components between the slashes from the root on. -/
namespace ContinuumOS.Ramfs.Folds
open ContinuumOS.Libc.String ContinuumOS.Vfs.Path
open ContinuumOS.Ramfs.Nodes ContinuumOS.Ramfs.Tree
open ContinuumOS.Ramfs.Operations ContinuumOS.Ramfs.Runs

/-- Without the shortcut for the root, and from `current` if the path is
relative. -/
def fsFindByPathFrom (s : FsState) (path : CStr) (current : Ptr) : Option Ptr :=
  if path.head? = some slash then findLoop s path.tail [] s.root else findLoop s path [] current

/-- The directory above, the root above itself. -/
def parentOf (s : FsState) (p : Ptr) : Ptr :=
  match s.nodes p with
  | some n => if n.parent = 0 then p else n.parent
  | none => p

/-- The first child of that name. -/
def childNamed (s : FsState) (p : Ptr) (name : CStr) : Option Ptr :=
  (s.listed p).find? fun c => nameOf s c == some name

/-- Where one component leads. -/
def follow (s : FsState) (p : Ptr) (component : CStr) : Option Ptr :=
  if vfsMaxName ≤ component.length then none
  else if component = [] ∨ component = dotStr then some p
  else if component = dotDotStr then some (parentOf s p)
  else childNamed s p component

/-- Where all components of a path lead, one after the other. -/
def resolved (s : FsState) (path : CStr) : Option Ptr :=
  (path.splitOn slash).foldlM (follow s) s.root

variable {s : FsState} {p : Ptr}

theorem findNamed_eq (name : CStr) {ps : List Ptr} (h : ∀ c ∈ ps, ∃ x, s.nodes c = some x) :
    findNamed s name ps = some ((ps.find? fun c => nameOf s c == some name).getD 0) := by
  induction ps with
  | nil => rfl
  | cons c ps ih =>
    obtain ⟨x, hx⟩ := h c (.head _)
    have ih := ih fun d hd => h d (.tail _ hd)
    have hname : nameOf s c = some x.name := by rw [nameOf, hx]; rfl
    simp only [findNamed, hx, Option.bind_eq_bind, Option.bind_some, List.find?_cons, hname]
    by_cases heq : x.name = name
    · rw [if_pos heq, heq, beq_self_eq_true]
      rfl
    · rw [if_neg heq, ih, beq_eq_false_iff_ne.mpr (fun he => heq (Option.some.inj he))]

theorem fsFindChild_eq (h : Inv s) (hp : Reach s p) (name : CStr) :
    fsFindChild s p name = some ((childNamed s p name).getD 0) := by
  obtain ⟨x, hx⟩ := h.live hp
  have hlisted := FsState.listed_of_node hx
  rw [fsFindChild, if_neg (h.ne_null hx), hx, childNamed, hlisted]
  simp only [Option.bind_eq_bind, Option.bind_some]
  cases htype : x.type with
  | file =>
    -- a file has no children
    rw [(h.node p x hx).listed_of_file htype]
    rfl
  | directory =>
    rw [if_neg (by simp)]
    refine findNamed_eq name fun c hc => ?_
    obtain ⟨y, hy, -⟩ := h.parent p c (hlisted ▸ hc)
    exact ⟨y, hy⟩

theorem reach_follow (h : Inv s) (hp : Reach s p) {component : CStr} {c : Ptr}
    (hc : follow s p component = some c) : Reach s c := by
  rw [follow] at hc
  split at hc
  · cases hc
  split at hc
  · cases hc
    exact hp
  split at hc
  · cases hc
    obtain ⟨x, hx⟩ := h.live hp
    rw [parentOf, hx]
    simp only
    split
    · exact hp
    · rename_i hne
      obtain ⟨-, hnull⟩ | ⟨hreach, -⟩ := h.reach_parent hp hx
      · exact absurd hnull hne
      · exact hreach
  · exact .child hp (List.mem_of_find?_eq_some hc)

theorem visit_eq (h : Inv s) (hp : Reach s p) {temp : CStr} (hlen : temp.length < vfsMaxName) :
    visit s p temp = some ((follow s p temp).getD 0) := by
  have hfits : ¬ vfsMaxName ≤ temp.length := Nat.not_le.mpr hlen
  rw [visit, follow, if_neg hfits]
  by_cases hstay : temp = [] ∨ temp = dotStr
  · rw [if_pos hstay, if_pos hstay]
    rfl
  rw [if_neg hstay, if_neg hstay]
  by_cases hup : temp = dotDotStr
  · obtain ⟨x, hx⟩ := h.live hp
    rw [if_pos hup, if_pos hup, parentOf, hx]
    simp only [Option.bind_eq_bind, Option.bind_some, Option.getD_some, ite_not]
  · rw [if_neg hup, if_neg hup]
    exact fsFindChild_eq h hp temp

/-! ## The loop over the bytes -/

theorem splitOn_append {w : CStr} (hw : slash ∉ w) (path : CStr) :
    ∃ first rest, (w ++ path).splitOn slash = (w ++ first) :: rest := by
  induction w with
  | nil => exact List.exists_cons_of_ne_nil (List.splitOn_ne_nil slash path)
  | cons b w ih =>
    obtain ⟨hb, hw⟩ := not_or.mp (List.mem_cons.not.mp hw)
    obtain ⟨first, rest, hsplit⟩ := ih hw
    refine ⟨first, rest, ?_⟩
    rw [List.cons_append, List.splitOn_cons_eq_if_modifyHead,
      if_neg (by simpa using Ne.symm hb), hsplit]
    rfl

theorem findLoop_eq (h : Inv s) (path : CStr) : ∀ {temp : CStr} {p : Ptr}, Reach s p →
    slash ∉ temp → temp.length < vfsMaxName → findLoop s path temp p =
      some ((((temp ++ path).splitOn slash).foldlM (follow s) p).getD 0) := by
  induction path with
  | nil =>
    intro temp p hp hslash hlen
    rw [findLoop, visit_eq h hp hlen, List.append_nil,
      List.splitOn_eq_singleton hslash, List.foldlM_cons]
    cases follow s p temp <;> rfl
  | cons b path ih =>
    intro temp p hp hslash hlen
    rw [findLoop]
    by_cases hb : b = slash
    · rw [if_pos hb, visit_eq h hp hlen, hb, List.splitOn_append_cons_self,
        List.splitOn_eq_singleton hslash, List.singleton_append, List.foldlM_cons]
      cases hc : follow s p temp with
      | none => rfl
      | some c =>
        have hreach := reach_follow h hp hc
        obtain ⟨x, hx⟩ := h.live hreach
        simp only [Option.bind_eq_bind, Option.bind_some, Option.getD_some, if_neg (h.ne_null hx)]
        exact ih hreach (List.not_mem_nil) (by decide)
    · rw [if_neg hb]
      split
      · rename_i hroom
        have hslash' : slash ∉ temp ++ [b] := by
          simp [hslash, Ne.symm hb]
        rw [ih hp hslash' (by simp; omega), List.append_assoc, List.singleton_append]
      · -- the component does not fit the buffer
        rename_i hfull
        have hslash' : slash ∉ temp ++ [b] := by
          simp [hslash, Ne.symm hb]
        obtain ⟨first, rest, hsplit⟩ := splitOn_append hslash' path
        rw [List.append_assoc, List.singleton_append] at hsplit
        have hlong : vfsMaxName ≤ (temp ++ [b] ++ first).length := by
          simp
          omega
        rw [hsplit, List.foldlM_cons, follow, if_pos hlong]
        rfl

theorem splitOn_absolute {path : CStr} (habs : path.head? = some slash) :
    path.splitOn slash = [] :: path.tail.splitOn slash := by
  obtain ⟨rest, rfl⟩ := List.head?_eq_some_iff.mp habs
  rw [List.splitOn_cons_eq_if_modifyHead, if_pos (beq_self_eq_true slash)]
  rfl

theorem findLoop_resolved (h : Inv s) {path : CStr} (habs : path.head? = some slash) :
    findLoop s path.tail [] s.root = some ((resolved s path).getD 0) := by
  rw [findLoop_eq h path.tail .root List.not_mem_nil (by decide), List.nil_append, resolved,
    splitOn_absolute habs, List.foldlM_cons]
  rfl

/-- **The two lookups agree**, in every tree and on every absolute path: both
return the node where the components lead from the root, or `NULL` when one of
them leads nowhere. -/
theorem lookups_agree (h : Inv s) {path : CStr} (habs : path.head? = some slash) (current : Ptr) :
    fsFindByPath s path = some ((resolved s path).getD 0) ∧
      fsFindByPathFrom s path current = some ((resolved s path).getD 0) := by
  have hloop := findLoop_resolved h habs
  refine ⟨?_, by rw [fsFindByPathFrom, if_pos habs, hloop]⟩
  rw [fsFindByPath, if_neg (not_not.mpr habs)]
  split
  · -- the shortcut returns what the loop would
    rename_i hroot
    rw [← hloop, hroot]
    rfl
  · exact hloop

/-- `"//f/../f/."` in a tree whose only file is `"/f"`. -/
theorem lookups_agree_example : ∃ s, Inv s ∧
    fsFindByPath s [slash, slash, 0x66, slash, dot, dot, slash, 0x66, slash, dot] = some 4 ∧
    fsFindByPathFrom s [slash, slash, 0x66, slash, dot, dot, slash, 0x66, slash, dot] 7 = some 4 := by
  have hinit : Reached (fsInit ⟨1, 2, 3⟩) := .init (by decide) (by decide)
  have htouch : (Call.touch ⟨4, 5, 6⟩ examplePath).Allowed (fsInit ⟨1, 2, 3⟩) :=
    ⟨canonical_example, by decide, by decide, rfl, by decide, by decide⟩
  have hreached := @Reached.call _ _ 0 _ hinit htouch rfl
  exact ⟨_, hreached.inv, lookups_agree hreached.inv rfl 7⟩

end ContinuumOS.Ramfs.Folds
