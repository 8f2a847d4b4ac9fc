import ContinuumOS.Ramfs.Soundness
import Mathlib.Data.List.Nodup

/-! # Names of siblings

A path denotes one node at most as long as no directory has two children with
one name, and then a removed path is not found any more. `fs_touch` and
`fs_mkdir` keep the names apart only where the directory has no child of the
name yet: they do not look (`Collides`). -/
namespace ContinuumOS.Ramfs.Siblings
open ContinuumOS.Libc.String
open ContinuumOS.Vfs.Termination ContinuumOS.Vfs.Normalize
open ContinuumOS.Ramfs.Nodes ContinuumOS.Ramfs.Tree ContinuumOS.Ramfs.Lookup
open ContinuumOS.Ramfs.Operations ContinuumOS.Ramfs.Runs ContinuumOS.Ramfs.Likeness
open ContinuumOS.Ramfs.Backing ContinuumOS.Ramfs.Soundness

/-- No directory has two children with one name. -/
def UniqueNames (s : FsState) : Prop := ∀ p, ((s.listed p).map (nameOf s)).Nodup

/-- Names, one below the other, lead from one node to another. -/
inductive Leads (s : FsState) : Ptr → List CStr → Ptr → Prop
  | here {p : Ptr} : Leads s p [] p
  | step {p c n : Ptr} {w : CStr} {ws : List CStr} (listed : c ∈ s.listed p)
      (named : nameOf s c = some w) (rest : Leads s c ws n) : Leads s p (w :: ws) n

/-- A node that the path denotes. -/
def Denotes (s : FsState) (path : CStr) (n : Ptr) : Prop := Leads s s.root (components path) n

/-- The directory that the path leads to has room, and a child with the last name
of the path. -/
def Collides (s : FsState) (path : CStr) : Prop :=
  ∃ p name y, Receives s path p name y ∧ y.childCount < maxChildren ∧
    ∃ c ∈ y.listed, nameOf s c = some name

variable {s s' : FsState} {p q n a m : Ptr} {y : FSNode} {name path : CStr}

/-! ## What unique names give -/

theorem Leads.unique (hu : UniqueNames s) {ws : List CStr} (h : Leads s p ws n) :
    Leads s p ws m → n = m := by
  induction h with
  | here => exact fun h' => by cases h'; rfl
  | step listed named _ ih =>
    intro h'
    cases h' with
    | step listed' named' rest' =>
      obtain rfl := List.inj_on_of_nodup_map (hu _) listed listed' (named.trans named'.symm)
      exact ih rest'

theorem denotes_unique (hu : UniqueNames s) (h : Denotes s path n) (h' : Denotes s path m) :
    n = m := Leads.unique hu h h'

theorem findNamed_cons (s : FsState) (name : CStr) (p : Ptr) (ps : List Ptr) :
    findNamed s name (p :: ps) =
      (nameOf s p).bind fun w => if w = name then some p else findNamed s name ps := by
  rw [findNamed, nameOf]
  cases s.nodes p with
  | none => rfl
  | some x => rfl

theorem findNamed_congr {ps : List Ptr} (h : ∀ c ∈ ps, nameOf s' c = nameOf s c) :
    findNamed s' name ps = findNamed s name ps := by
  induction ps with
  | nil => rfl
  | cons p ps ih =>
    rw [findNamed_cons, findNamed_cons, h p (.head _), ih fun c hc => h c (.tail _ hc)]

theorem findNamed_cases {ps : List Ptr} (h : findNamed s name ps = some m) :
    m = 0 ∨ m ∈ ps ∧ nameOf s m = some name := by
  induction ps with
  | nil => exact .inl (Option.some.inj h).symm
  | cons p ps ih =>
    rw [findNamed_cons] at h
    obtain ⟨w, hw, h⟩ := Option.bind_eq_some_iff.mp h
    split at h
    · rename_i hname
      obtain rfl := Option.some.inj h
      exact .inr ⟨.head _, hname ▸ hw⟩
    · exact (ih h).imp_right fun hm => ⟨.tail _ hm.1, hm.2⟩

theorem leads_of_walk {ws : List CStr} : ∀ {p : Ptr}, walk s p ws = some n → n ≠ 0 →
    Leads s p ws n := by
  induction ws with
  | nil =>
    intro p h _
    obtain rfl := Option.some.inj h
    exact .here
  | cons w ws ih =>
    intro p h hn
    rw [walk] at h
    split at h
    · exact absurd (Option.some.inj h).symm hn
    obtain ⟨c, hc, h⟩ := Option.bind_eq_some_iff.mp h
    split at h
    · exact absurd (Option.some.inj h).symm hn
    rename_i hnull
    rw [fsFindChild] at hc
    split at hc
    · exact absurd (Option.some.inj hc).symm hnull
    obtain ⟨x, hx, hc⟩ := Option.bind_eq_some_iff.mp hc
    split at hc
    · exact absurd (Option.some.inj hc).symm hnull
    obtain ⟨hlisted, hname⟩ := (findNamed_cases hc).resolve_left hnull
    exact .step (FsState.listed_of_node hx ▸ hlisted) hname (ih h hn)

theorem denotes_of_find (hpath : Canonical path) (h : fsFindByPath s path = some n) (hn : n ≠ 0) :
    Denotes s path n := by
  obtain ⟨cs, hcs, rfl⟩ := hpath.exists_components
  rw [Denotes, components_joinPath hcs]
  rw [fsFindByPath_joinPath hcs] at h
  exact leads_of_walk h hn

theorem findNamed_eq_null {ps : List Ptr} (h : ∀ c ∈ ps, ∃ w, nameOf s c = some w ∧ w ≠ name) :
    findNamed s name ps = some 0 := by
  induction ps with
  | nil => rfl
  | cons p ps ih =>
    obtain ⟨w, hw, hne⟩ := h p (.head _)
    rw [findNamed_cons, hw, Option.bind_some, if_neg hne]
    exact ih fun c hc => h c (.tail _ hc)

theorem findNamed_erase {ps : List Ptr} (hn : n ≠ 0)
    (hnames : ∀ c, c ≠ n → nameOf s' c = nameOf s c)
    (hlive : ∀ c ∈ ps, ∃ w, nameOf s c = some w) (hu : (ps.map (nameOf s)).Nodup)
    (h : findNamed s name ps = some m) :
    findNamed s' name (ps.erase n) = some (if m = n then 0 else m) := by
  induction ps with
  | nil =>
    obtain rfl := Option.some.inj h
    rw [if_neg hn.symm]
    rfl
  | cons q ps ih =>
    obtain ⟨hfresh, hrest⟩ := List.nodup_cons.mp hu
    have hlive' : ∀ c ∈ ps, ∃ w, nameOf s c = some w := fun c hc => hlive c (.tail _ hc)
    rw [findNamed_cons] at h
    obtain ⟨w, hw, h⟩ := Option.bind_eq_some_iff.mp h
    by_cases hq : q = n
    · -- behind the removed node no other has its name
      obtain rfl := hq
      rw [List.erase_cons_head]
      have hout : ∀ c ∈ ps, c ≠ q := fun c hc he => hfresh (List.mem_map.mpr ⟨c, hc, by rw [he]⟩)
      rw [findNamed_congr fun c hc => hnames c (hout c hc)]
      split at h
      · rename_i hname
        obtain rfl := Option.some.inj h
        rw [if_pos rfl]
        refine findNamed_eq_null fun c hc => ?_
        obtain ⟨v, hv⟩ := hlive' c hc
        refine ⟨v, hv, fun he => hfresh (List.mem_map.mpr ⟨c, hc, ?_⟩)⟩
        rw [hv, hw, he, hname]
      · obtain rfl | ⟨hm, -⟩ := findNamed_cases h
        · rw [if_neg hn.symm]
          exact h
        · rw [if_neg (hout m hm)]
          exact h
    · rw [List.erase_cons_tail (by simpa using hq), findNamed_cons, hnames q hq, hw,
        Option.bind_some]
      split at h
      · rename_i hname
        obtain rfl := Option.some.inj h
        rw [if_pos hname, if_neg hq]
      · rename_i hname
        rw [if_neg hname]
        exact ih hlive' hrest h

/-! ## A removed path is not found -/

theorem nameOf_removed (h : Removed s p n s') (hq : q ≠ n) : nameOf s' q = nameOf s q := by
  by_cases hqp : q = p
  · obtain ⟨x, z, hx, hz, -, hsame⟩ := h.directory
    rw [hqp, nameOf, nameOf, hx, hz, ← hsame]
    rfl
  · rw [nameOf, h.rest q hq hqp, nameOf]

theorem listed_removed (h : Removed s p n s') (hs : Inv s) (hq : q ≠ n) :
    s'.listed q = (s.listed q).erase n := by
  by_cases hqp : q = p
  · rw [hqp, h.siblings]
  · rw [h.listed_rest hq hqp, List.erase_of_not_mem]
    exact fun hmem => hqp (hs.listed_unique hmem h.was)

theorem live_name (hs : Inv s) {c : Ptr} (hc : c ∈ s.listed p) : ∃ w, nameOf s c = some w := by
  obtain ⟨x, hx, -⟩ := hs.parent p c hc
  exact ⟨x.name, by rw [nameOf, hx]; rfl⟩

theorem fsFindChild_removed (h : Removed s p n s') (hs : Inv s) (hu : UniqueNames s) (hq : q ≠ n)
    {x : FSNode} (hx : s.nodes q = some x) (hfind : fsFindChild s q name = some m) :
    fsFindChild s' q name = some (if m = n then 0 else m) := by
  obtain ⟨z, hz, htype, -⟩ := h.kept hq hx
  have hn : n ≠ 0 := by
    obtain ⟨w, hw, -⟩ := hs.parent p n h.was
    exact hs.ne_null hw
  rw [fsFindChild, if_neg (hs.ne_null hx), hx] at hfind
  rw [fsFindChild, if_neg (hs.ne_null hx), hz]
  simp only [Option.bind_eq_bind, Option.bind_some] at hfind ⊢
  rw [htype]
  split at hfind
  · rename_i hfile
    obtain rfl := Option.some.inj hfind
    rw [if_pos hfile, if_neg hn.symm]
  · rename_i hdir
    have hlisted := listed_removed h hs hq
    rw [FsState.listed_of_node hx, FsState.listed_of_node hz] at hlisted
    rw [if_neg hdir, hlisted]
    refine findNamed_erase hn (fun c hc => nameOf_removed h hc) (fun c hc => ?_) ?_ hfind
    · exact live_name hs (FsState.listed_of_node hx ▸ hc)
    · exact FsState.listed_of_node hx ▸ hu q

/-- A step of the walk goes where it went, or to `NULL` in place of the removed node. -/
theorem visit_removed (h : Removed s p n s') (hs : Inv s) (hu : UniqueNames s) (hreach : Reach s q)
    (hq : q ≠ n) {temp : CStr} (hvisit : visit s q temp = some m) :
    visit s' q temp = some (if m = n then 0 else m) := by
  obtain ⟨x, hx⟩ := hs.live hreach
  obtain ⟨z, hz, -, hparent⟩ := h.kept hq hx
  rw [visit] at hvisit ⊢
  split at hvisit
  · rename_i hhere
    obtain rfl := Option.some.inj hvisit
    rw [if_pos hhere, if_neg hq]
  rename_i hhere
  rw [if_neg hhere]
  split at hvisit
  · rename_i hup
    rw [if_pos hup, hz, Option.bind_eq_bind, Option.bind_some, hparent]
    rw [hx, Option.bind_eq_bind, Option.bind_some] at hvisit
    obtain rfl := Option.some.inj hvisit
    refine congrArg some (if_neg fun hm => ?_).symm
    split at hm
    · -- the removed node has no children
      rename_i hup
      obtain ⟨-, hnull⟩ | ⟨-, hlisted⟩ := hs.reach_parent hreach hx
      · exact hup hnull
      · rw [hm, h.leaf] at hlisted
        cases hlisted
    · exact hq hm
  · rename_i hup
    rw [if_neg hup]
    exact fsFindChild_removed h hs hu hq hx hvisit

theorem findLoop_removed (h : Removed s p n s') (hs : Inv s) (hu : UniqueNames s) (hn : n ≠ 0)
    (path : CStr) : ∀ (temp : CStr) {q : Ptr}, Reach s q → q ≠ n →
      findLoop s path temp q = some n → findLoop s' path temp q = some 0 := by
  induction path with
  | nil =>
    intro temp q hreach hq hfind
    rw [findLoop] at hfind ⊢
    rw [visit_removed h hs hu hreach hq hfind, if_pos rfl]
  | cons b path ih =>
    intro temp q hreach hq hfind
    rw [findLoop] at hfind ⊢
    split at hfind
    · rename_i hslash
      obtain ⟨next, hnext, hfind⟩ := Option.bind_eq_some_iff.mp hfind
      rw [if_pos hslash, visit_removed h hs hu hreach hq hnext, Option.bind_eq_bind,
        Option.bind_some]
      by_cases hgone : next = n
      · rw [if_pos hgone, if_pos rfl]
      · rw [if_neg hgone]
        split at hfind
        · exact absurd (Option.some.inj hfind).symm hn
        · rename_i hnull
          rw [if_neg hnull]
          obtain ⟨c, hc, hr⟩ := visit_spec hs hreach temp
          obtain rfl := Option.some.inj (hnext.symm.trans hc)
          exact ih [] (hr.resolve_left hnull) hgone hfind
    · rename_i hslash
      rw [if_neg hslash]
      split at hfind
      · rename_i hroom
        rw [if_pos hroom]
        exact ih _ hreach hq hfind
      · exact absurd (Option.some.inj hfind).symm hn

theorem fsFindByPath_removed (h : Removed s p n s') (hs : Inv s) (hu : UniqueNames s)
    (hfind : fsFindByPath s path = some n) : fsFindByPath s' path = some 0 := by
  obtain ⟨x, hx, -⟩ := hs.parent p n h.was
  have hn : n ≠ 0 := hs.ne_null hx
  have hroot : s.root ≠ n := fun he => hs.root_not_listed (he ▸ h.was)
  rw [fsFindByPath] at hfind ⊢
  split at hfind
  · exact absurd (Option.some.inj hfind).symm hn
  rename_i hhead
  rw [if_neg hhead]
  split at hfind
  · exact absurd (Option.some.inj hfind) hroot
  · rename_i hlong
    rw [if_neg hlong, h.root]
    exact findLoop_removed h hs hu hn _ [] .root hroot hfind

theorem fsRemove_lost (hs : Inv s) (hu : UniqueNames s) {fuel : Nat}
    (hrun : fsRemove fuel s path = some (0, s')) : fsFindByPath s' path = some 0 := by
  rw [fsRemove] at hrun
  obtain ⟨n, hfind, hrun⟩ := Option.bind_eq_some_iff.mp hrun
  split at hrun
  · cases hrun
  rename_i hnull
  obtain ⟨x, hx, hrun⟩ := Option.bind_eq_some_iff.mp hrun
  split at hrun
  · cases hrun
  rename_i htype
  split at hrun
  · cases hrun
  obtain ⟨c, hc, hreach⟩ := fsFindByPath_spec hs path
  obtain rfl := Option.some.inj (hfind.symm.trans hc)
  have hfile : x.type = .file := not_not.mp htype
  obtain ⟨rfl, -⟩ | ⟨-, hlisted⟩ := hs.reach_parent (hreach.resolve_left hnull) hx
  · obtain ⟨z, hz, hdir, -⟩ := hs.root
    rw [hx] at hz
    rw [← Option.some.inj hz, hfile] at hdir
    cases hdir
  cases fuel with
  | zero => rw [unlink_zero hs hlisted] at hrun; cases hrun
  | succ fuel =>
    obtain ⟨t, ht, hremoved⟩ := unlink_spec hs hlisted hx ((hs.node _ x hx).file hfile) fuel
    rw [hrun] at ht
    cases ht
    exact fsFindByPath_removed hremoved hs hu hfind

/-! ## What the calls do to the names -/

theorem uniqueNames_adds (h : Adds s path p name y a s') (hs : Inv s) (hu : UniqueNames s)
    (hfree : y.childCount < maxChildren → ∀ c ∈ y.listed, nameOf s c ≠ some name) :
    UniqueNames s' := by
  have hgrown := h.grown
  have hmap : ∀ q, s.nodes a = none → (s.listed q).map (nameOf s') = (s.listed q).map (nameOf s) :=
    fun q hfresh => List.map_congr_left fun c hc => h.others c fun he => by
      obtain ⟨x, hx, -⟩ := hs.parent q c hc
      rw [he, hfresh] at hx
      cases hx
  intro q
  split at hgrown
  · rw [hgrown.listed_eq, hmap q hgrown.fresh]
    exact hu q
  rename_i hroom
  by_cases hqa : q = a
  · rw [hqa, hgrown.listed_new]
    exact List.nodup_nil
  by_cases hqp : q = p
  · have hlisted : s.listed p = y.listed := FsState.listed_of_node h.receives.node
    rw [hqp, hgrown.listed_parent, List.map_append, hmap p hgrown.fresh]
    refine (hu p).append (List.nodup_singleton _) fun w hw hwa => ?_
    obtain ⟨c, hc, hcw⟩ := List.mem_map.mp hw
    rw [List.map_singleton, List.mem_singleton, h.named] at hwa
    exact hfree (Nat.lt_of_not_le hroom) c (hlisted ▸ hc) (hcw.trans hwa)
  · rw [hgrown.listed_frame hqa hqp, hmap q hgrown.fresh]
    exact hu q

theorem not_uniqueNames_adds (h : Adds s path p name y a s') (hs : Inv s)
    (hroom : y.childCount < maxChildren) {c : Ptr} (hc : c ∈ y.listed)
    (hname : nameOf s c = some name) : ¬ UniqueNames s' := by
  have hgrown := h.grown
  rw [if_neg (Nat.not_le.mpr hroom)] at hgrown
  have hlisted : c ∈ s.listed p := FsState.listed_of_node h.receives.node ▸ hc
  have hne : c ≠ a := fun he => by
    obtain ⟨x, hx, -⟩ := hs.parent p c hlisted
    rw [he, hgrown.fresh] at hx
    cases hx
  intro hu
  have hsame : nameOf s' c = nameOf s' a := by rw [h.others c hne, hname, h.named]
  have hmem := hgrown.listed_parent
  refine hne (List.inj_on_of_nodup_map (hu p) ?_ ?_ hsame)
  · rw [hmem]
    exact List.mem_append_left _ hlisted
  · rw [hmem]
    exact List.mem_append_right _ (List.mem_singleton.mpr rfl)

theorem uniqueNames_removed (h : Removed s p n s') (hs : Inv s) (hu : UniqueNames s) :
    UniqueNames s' := by
  intro q
  by_cases hq : q = n
  · rw [hq, h.listed_gone]
    exact List.nodup_nil
  · rw [listed_removed h hs hq]
    have hsub := List.erase_sublist (a := n) (l := s.listed q)
    have hnames : ∀ c ∈ (s.listed q).erase n, nameOf s' c = nameOf s c := fun c hc =>
      nameOf_removed h fun he => by
        rw [he] at hc
        exact (hs.nodup q).not_mem_erase hc
    rw [List.map_congr_left hnames]
    exact (hu q).sublist (hsub.map _)

theorem uniqueNames_answers {r : Int} (h : Answers s path r s') (hs : Inv s)
    (hu : UniqueNames s) : UniqueNames s' := by
  obtain ⟨-, rfl⟩ | ⟨-, -, p, n, -, -, -, hremoved, -⟩ := h
  · exact hu
  · exact uniqueNames_removed hremoved hs hu

/-! ## With and without the arrays -/

theorem nameOf_alike {t : FsState} (h : Alike s t) (p : Ptr) : nameOf t p = nameOf s p := by
  rw [nameOf, nameOf]
  cases hp : s.nodes p with
  | none => rw [h.none hp]
  | some x =>
    obtain ⟨z, hz, hname, -⟩ := h.some hp
    rw [hz]
    exact congrArg some hname

theorem uniqueNames_alike {t : FsState} (h : Alike s t) (hu : UniqueNames s) : UniqueNames t := by
  intro p
  rw [h.listed, funext (nameOf_alike h)]
  exact hu p

/-- The names of a sound state, and what follows from them. -/
structure Separate (s : FsState) : Prop where
  names : UniqueNames s
  found : ∀ path n, Canonical path → fsFindByPath s path = some n → n ≠ 0 → Denotes s path n
  one : ∀ path m n, Denotes s path m → Denotes s path n → m = n
  lost : ∀ fuel path s', fsRemove fuel s path = some (0, s') → fsFindByPath s' path = some 0

theorem separate_of_unique (hs : Sound s) (hu : UniqueNames s) : Separate s := by
  refine ⟨hu, fun _ _ => denotes_of_find, fun _ _ _ => denotes_unique hu, fun fuel path s' hrun => ?_⟩
  rw [← (alike_backedState s').fsFindByPath]
  exact fsRemove_lost hs (uniqueNames_alike (alike_backedState s) hu) (fsRemove_backed hrun)

theorem receives_backed (h : Receives s path p name y) :
    Receives (backedState s) path p name (backed y) := by
  obtain ⟨parentPath, hsplit, hfind⟩ := h.split
  refine ⟨⟨parentPath, hsplit, ?_⟩, h.notNull, backedState_nodes h.node, ?_⟩
  · rw [(alike_backedState s).fsFindByPath, hfind]
  · rw [backed_type, h.directory]

/-- A directory receives the node in the state that has the arrays: it does in the other. -/
theorem receives_of_backed (h : Receives (backedState s) path p name y) :
    ∃ x, Receives s path p name x ∧ y = backed x := by
  obtain ⟨parentPath, hsplit, hfind⟩ := h.split
  obtain ⟨x, hx, hy⟩ := Option.map_eq_some_iff.mp h.node
  rw [(alike_backedState s).fsFindByPath] at hfind
  refine ⟨x, ⟨⟨parentPath, hsplit, hfind⟩, h.notNull, hx, ?_⟩, hy.symm⟩
  have hdir := h.directory
  rwa [← hy, backed_type] at hdir

/-- **Making a node keeps the names apart** unless one collides. -/
theorem uniqueNames_made (hs : Sound s) (hu : UniqueNames s)
    (h : MadeAt (backedState s) path a (backedState s'))
    (hfree : a ≠ 0 → ¬ Collides s path) : UniqueNames s' := by
  refine uniqueNames_alike (alike_backedState s').symm ?_
  have hback := uniqueNames_alike (alike_backedState s) hu
  obtain ⟨hsame, -⟩ | ⟨p, name, y, hadds⟩ := h
  · exact hsame ▸ hback
  obtain ⟨x, hreceives, rfl⟩ := receives_of_backed hadds.receives
  refine uniqueNames_adds hadds hs hback fun hroom c hc hname => ?_
  have hgrown := hadds.grown
  rw [if_neg (Nat.not_le.mpr hroom)] at hgrown
  rw [backed_childCount] at hroom
  rw [backed_listed] at hc
  rw [nameOf_alike (alike_backedState s)] at hname
  exact hfree hgrown.notNull ⟨p, name, x, hreceives, hroom, c, hc, hname⟩

theorem not_uniqueNames_made (hs : Sound s) (h : MadeAt (backedState s) path a (backedState s'))
    (ha : a ≠ 0) (hcollides : Collides s path) : ¬ UniqueNames s' := by
  obtain ⟨p, name, x, hreceives, hroom, c, hc, hname⟩ := hcollides
  have hback := receives_backed hreceives
  intro hu
  obtain ⟨-, ha' | hnone⟩ | ⟨q, v, y, hadds⟩ := h
  · exact ha ha'
  · exact hnone p name _ hback
  obtain ⟨parentPath, hsplit, hfind⟩ := hadds.receives.split
  obtain ⟨rfl, rfl⟩ := hback.unique hsplit hfind
  obtain rfl : backed x = y :=
    Option.some.inj (hback.node.symm.trans hadds.receives.node)
  refine not_uniqueNames_adds (c := c) hadds hs ?_ ?_ ?_
    (uniqueNames_alike (alike_backedState s') hu)
  · rwa [backed_childCount]
  · rwa [backed_listed]
  · rwa [nameOf_alike (alike_backedState s)]

/-! ## A call that collides comes back -/

theorem fsAddChild_returns (hp : s.nodes p = some y) {c : Ptr} (hc : c ∈ y.listed) {x : FSNode}
    (ha : s.nodes a = some x) : ∃ s', fsAddChild s p a = some s' := by
  obtain ⟨slots, hslots⟩ := array_of_listed hc
  rw [fsAddChild]
  split
  · exact ⟨_, rfl⟩
  simp only [hp, Option.bind_eq_bind, Option.bind_some]
  split
  · exact ⟨_, rfl⟩
  split
  · exact ⟨_, rfl⟩
  simp only [hslots, Option.bind_some]
  by_cases hap : a = p
  · rw [hap, FsState.store_self]
    exact ⟨_, rfl⟩
  · rw [FsState.store_ne _ _ hap, ha]
    exact ⟨_, rfl⟩

theorem fsCreateNode_node (s : FsState) {al : Alloc} (ha : al.node ≠ 0) (name : CStr)
    (type : FSNodeType) : ∃ x, fsCreateNode s al name type = (al.node, s.store al.node x) := by
  rw [fsCreateNode, if_neg ha]
  exact ⟨_, rfl⟩

theorem makes_returns {al : Alloc} (ha : al.node ≠ 0) (hfresh : s.nodes al.node = none)
    (hcollides : Collides s path) : (∃ r s', fsMkdir s al path = some (r, s')) ∧
      ∃ r s', fsTouch s al path = some (r, s') := by
  obtain ⟨p, name, y, hreceives, -, c, hc, -⟩ := hcollides
  obtain ⟨parentPath, hsplit, hfind⟩ := hreceives.split
  have hdir : ¬ y.type ≠ .directory := not_not.mpr hreceives.directory
  have hne : p ≠ al.node := fun he => by
    have hy := hreceives.node
    rw [he, hfresh] at hy
    cases hy
  have hstored : ∀ x, (s.store al.node x).nodes p = some y := fun x =>
    (FsState.store_ne s x hne).trans hreceives.node
  constructor
  · obtain ⟨x, hx⟩ := fsCreateNode_node s ha name .directory
    obtain ⟨t, ht⟩ := fsAddChild_returns (hstored x) hc (FsState.store_self s al.node x)
    refine ⟨al.node, t, ?_⟩
    simp only [fsMkdir, hsplit, hfind, Option.bind_eq_bind, Option.bind_some,
      if_neg hreceives.notNull, hreceives.node, if_neg hdir, hx, ht]
  · obtain ⟨x, hx⟩ := fsCreateNode_node s ha name .file
    obtain ⟨t, ht⟩ := fsAddChild_returns (hstored { x with data := al.data, size := 0 }) hc
      (FsState.store_self s al.node _)
    refine ⟨al.node, t, ?_⟩
    simp only [fsTouch, hsplit, hfind, Option.bind_eq_bind, Option.bind_some,
      if_neg hreceives.notNull, hreceives.node, if_neg hdir, hx, if_neg ha, FsState.store_self,
      FsState.store_store, ht]

end ContinuumOS.Ramfs.Siblings
