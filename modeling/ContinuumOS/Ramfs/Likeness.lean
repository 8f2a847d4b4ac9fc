import ContinuumOS.Ramfs.Tree

/-! # Trees that look alike

Looking a path up and walking to the root read the name, the type, the parent
and the children of a node, and nothing else of it. States that agree on these
have the same paths and the same reachable nodes. -/
namespace ContinuumOS.Ramfs.Likeness
open ContinuumOS.Libc.String
open ContinuumOS.Ramfs.Nodes ContinuumOS.Ramfs.Tree

/-- What looking a path up reads of a node. -/
def look (n : FSNode) : CStr × FSNodeType × Ptr × List Ptr := (n.name, n.type, n.parent, n.listed)

/-- The same tree, with the same names. -/
structure Alike (s t : FsState) : Prop where
  root : t.root = s.root
  nodes : ∀ p, (t.nodes p).map look = (s.nodes p).map look

variable {s s' t : FsState} {p q : Ptr} {n x : FSNode}

namespace Alike

theorem refl (s : FsState) : Alike s s := ⟨rfl, fun _ => rfl⟩

theorem symm (h : Alike s t) : Alike t s := ⟨h.root.symm, fun p => (h.nodes p).symm⟩

theorem trans {u : FsState} (h : Alike s t) (h' : Alike t u) : Alike s u :=
  ⟨h'.root.trans h.root, fun p => (h'.nodes p).trans (h.nodes p)⟩

theorem none (h : Alike s t) (hp : s.nodes p = none) : t.nodes p = .none := by
  have hlook := h.nodes p
  rw [hp, Option.map_none] at hlook
  exact Option.map_eq_none_iff.mp hlook

theorem some (h : Alike s t) (hp : s.nodes p = some n) : ∃ y, t.nodes p = .some y ∧
    y.name = n.name ∧ y.type = n.type ∧ y.parent = n.parent ∧ y.listed = n.listed := by
  have hlook := h.nodes p
  rw [hp, Option.map_some] at hlook
  obtain ⟨y, hy, hlook⟩ := Option.map_eq_some_iff.mp hlook
  simp only [look, Prod.mk.injEq] at hlook
  exact ⟨y, hy, hlook⟩

theorem listed (h : Alike s t) (p : Ptr) : t.listed p = s.listed p := by
  cases hp : s.nodes p with
  | none => rw [FsState.listed_of_none hp, FsState.listed_of_none (h.none hp)]
  | some n =>
    obtain ⟨y, hy, -, -, -, hlisted⟩ := h.some hp
    rw [FsState.listed_of_node hp, FsState.listed_of_node hy, hlisted]

theorem reach (h : Alike s t) (hq : Reach s q) : Reach t q := by
  induction hq with
  | root => exact h.root ▸ .root
  | child _ hc ih => exact .child ih (by rwa [h.listed])

theorem findNamed (h : Alike s t) (name : CStr) (ps : List Ptr) :
    findNamed t name ps = findNamed s name ps := by
  induction ps with
  | nil => rfl
  | cons p ps ih =>
    rw [Nodes.findNamed, Nodes.findNamed]
    cases hp : s.nodes p with
    | none => rw [h.none hp]; rfl
    | some n =>
      obtain ⟨y, hy, hname, -⟩ := h.some hp
      rw [hy]
      simp only [Option.bind_eq_bind, Option.bind_some, ih, hname]

theorem fsFindChild (h : Alike s t) (p : Ptr) (name : CStr) :
    fsFindChild t p name = fsFindChild s p name := by
  rw [Nodes.fsFindChild, Nodes.fsFindChild]
  cases hp : s.nodes p with
  | none => rw [h.none hp]; rfl
  | some n =>
    obtain ⟨y, hy, -, htype, -, hlisted⟩ := h.some hp
    rw [hy]
    simp only [Option.bind_eq_bind, Option.bind_some, htype, hlisted, h.findNamed]

theorem visit (h : Alike s t) (p : Ptr) (temp : CStr) : visit t p temp = visit s p temp := by
  rw [Nodes.visit, Nodes.visit, h.fsFindChild]
  cases hp : s.nodes p with
  | none => rw [h.none hp]
  | some n =>
    obtain ⟨y, hy, -, -, hparent, -⟩ := h.some hp
    rw [hy]
    simp only [Option.bind_eq_bind, Option.bind_some, hparent]

theorem findLoop (h : Alike s t) (path : CStr) : ∀ (temp : CStr) (p : Ptr),
    findLoop t path temp p = findLoop s path temp p := by
  induction path with
  | nil => exact fun temp p => h.visit p temp
  | cons c path ih =>
    intro temp p
    rw [Nodes.findLoop, Nodes.findLoop, h.visit]
    simp only [ih]

theorem fsFindByPath (h : Alike s t) (path : CStr) : fsFindByPath t path = fsFindByPath s path := by
  rw [Nodes.fsFindByPath, Nodes.fsFindByPath, h.root, h.findLoop]

theorem walkUp (h : Alike s t) (node : Ptr) (fuel : Nat) : ∀ p,
    walkUp t node fuel p = walkUp s node fuel p := by
  induction fuel with
  | zero => exact fun _ => rfl
  | succ fuel ih =>
    intro p
    rw [Nodes.walkUp, Nodes.walkUp]
    cases hp : s.nodes p with
    | none => rw [h.none hp]; rfl
    | some n =>
      obtain ⟨y, hy, -, -, hparent, -⟩ := h.some hp
      rw [hy]
      simp only [Option.bind_eq_bind, Option.bind_some, hparent, ih]

theorem holdsOpen (h : Alike s t) (fuel : Nat) (node : Ptr) (fds : List FileDescriptor) :
    holdsOpen fuel t node fds = holdsOpen fuel s node fds := by
  induction fds with
  | nil => rfl
  | cons d fds ih =>
    rw [Nodes.holdsOpen, Nodes.holdsOpen, ih]
    cases hp : s.nodes d.node with
    | none => rw [h.none hp]; rfl
    | some n =>
      obtain ⟨y, hy, -, -, hparent, -⟩ := h.some hp
      rw [hy]
      simp only [Option.bind_eq_bind, Option.bind_some, hparent, h.walkUp]

theorem inv (h : Alike s t) (htable : t.fdTable = s.fdTable)
    (hnode : ∀ p y, t.nodes p = .some y → NodeOk y) (hs : Inv s) : Inv t := by
  refine ⟨h.none hs.null, ?_, hnode, fun p c hc => ?_, fun p => ?_, fun d hd hused => ?_⟩
  · obtain ⟨n, hn, htype, hparent⟩ := hs.root
    obtain ⟨y, hy, -, hytype, hyparent, -⟩ := h.some hn
    exact ⟨y, h.root ▸ hy, hytype.trans htype, hyparent.trans hparent⟩
  · rw [h.listed] at hc
    obtain ⟨n, hn, hparent⟩ := hs.parent p c hc
    obtain ⟨y, hy, -, -, hyparent, -⟩ := h.some hn
    exact ⟨y, hy, hyparent.trans hparent⟩
  · rw [h.listed]
    exact hs.nodup p
  · obtain ⟨hreach, n, hn, htype⟩ := hs.opened d (htable ▸ hd) hused
    obtain ⟨y, hy, -, hytype, -⟩ := h.some hn
    exact ⟨h.reach hreach, y, hy, hytype.trans htype⟩

end Alike

end ContinuumOS.Ramfs.Likeness
