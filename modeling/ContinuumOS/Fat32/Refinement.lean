import ContinuumOS.Fat32.Descriptor
import ContinuumOS.Fat32.Lookup

/-! # A descriptor is a file with a cursor

The abstract file is a byte list with a cursor. Every sequence of `fat32_seek`,
`fat32_read` and `fat32_write` on a descriptor gives the results of the abstract
operations, and the file that is found again under its path holds the abstract
bytes. -/
namespace ContinuumOS.Fat32.Refinement
open ContinuumOS.Lib.Effect ContinuumOS.Lib.Memory ContinuumOS.Lib.Blocks
open ContinuumOS.Fat32.Volume ContinuumOS.Fat32.Device ContinuumOS.Fat32.Allocation
open ContinuumOS.Fat32.Names ContinuumOS.Fat32.Directory
open ContinuumOS.Fat32.Paths ContinuumOS.Fat32.Files
open ContinuumOS.Fat32.Descriptor

/-! ## The abstract file -/

structure AbstractFile where
  bytes : List UInt8
  cursor : Nat
  deriving DecidableEq, Repr

/-- The operations on a descriptor. -/
inductive Op
  | seek (position : Nat)
  | read (size : Nat)
  | write (src : List UInt8)

/-- What they return. -/
inductive Result
  | moved (ok : Bool)
  | bytes (read : Option (List UInt8))
  | count (written : Int)
  deriving DecidableEq, Repr

/-- Seek moves to the position or the end, read gives what is left of the next
bytes, write overwrites and extends at the cursor. -/
def Op.abstract : Op → AbstractFile → Result × AbstractFile
  | .seek p, a => (.moved true, { a with cursor := min p a.bytes.length })
  | .read n, a =>
    let bytes := (a.bytes.drop a.cursor).take n
    (.bytes (some bytes), { a with cursor := a.cursor + bytes.length })
  | .write src, a =>
    (.count src.length, ⟨overwrite a.bytes a.cursor src, a.cursor + src.length⟩)

/-- The operation on descriptor `fd`. -/
def Op.run (fd : Nat) : Op → Fat Result
  | .seek p => do return .moved (← fat32Seek fd p)
  | .read n => do return .bytes (← fat32Read fd n)
  | .write src => do return .count (← fat32Write fd src)

def runAll (fd : Nat) : List Op → Fat (List Result)
  | [] => return []
  | op :: ops => do
    let r ← op.run fd
    return r :: (← runAll fd ops)

def abstractAll : List Op → AbstractFile → List Result × AbstractFile
  | [], a => ([], a)
  | op :: ops, a =>
    let (r, a) := op.abstract a
    let (rs, a) := abstractAll ops a
    (r :: rs, a)

/-- Position plus count stay below `2 ^ 31`. -/
def Op.Bounded (a : AbstractFile) : Op → Prop
  | .seek _ => True
  | .read n => a.cursor + n < 2 ^ 31
  | .write src => a.cursor + src.length < 2 ^ 31

def BoundedAll : List Op → AbstractFile → Prop
  | [], _ => True
  | op :: ops, a => op.Bounded a ∧ BoundedAll ops (op.abstract a).2

/-! ## The entry of a file -/

/-- The slot a descriptor writes its size to. -/
def entrySlot (w : World) (f : File) : Buf := slotAt (clusterBuf w f.dirEntryCluster) f.dirEntryIndex

/-- The entry of an open file lies apart from its clusters, in a cluster in use,
and shows start cluster and size. -/
structure Entry (w : World) (l : List Nat) (f : File) : Prop where
  inRange : InRange w f.dirEntryCluster
  index_lt : f.dirEntryIndex < entriesPerCluster w
  apart : f.dirEntryCluster ∉ l
  used : nextOf w f.dirEntryCluster ≠ 0
  cluster : slotCluster (entrySlot w f) = f.startCluster
  size : slotFileSize (entrySlot w f) = f.fileSize

/-- Descriptor `fd` has the file `a` open, stored in the clusters `l`. -/
structure Opened (w : World) (fd : Nat) (l : List Nat) (a : AbstractFile) : Prop where
  fd_lt : fd < maxOpenFiles
  inUse : (w.openFiles fd).inUse = true
  content : Content w l (w.openFiles fd) a.bytes
  cursor : (w.openFiles fd).position = a.cursor
  entry : Entry w l (w.openFiles fd)

/-- A byte of start cluster or size in a slot. -/
def IsFileField (i : Nat) : Prop := 20 ≤ i ∧ i < 22 ∨ 26 ≤ i ∧ i < 32

/-- What the operations on a file leave as it was: all other clusters, apart
from start cluster and size in the file's slot. -/
structure FileFrame (w : World) (l : List Nat) (w' : World) (l' : List Nat) (f : File) : Prop where
  geometry : SameGeometry w w'
  mallocs : w'.mallocs = w.mallocs
  faults : w'.faults = w.faults
  grown : l <+: l'
  fresh : ∀ c ∈ l', c ∉ l → 2 ≤ c ∧ nextOf w c = 0
  next : ∀ c, 2 ≤ c → c ∉ l' → nextOf w' c = nextOf w c
  bytes : ∀ c, 2 ≤ c → c ∉ l' → c ≠ f.dirEntryCluster → clusterBuf w' c = clusterBuf w c
  entry : ∀ i, (∀ j, IsFileField j → i ≠ f.dirEntryIndex * slotSize + j) →
    clusterBuf w' f.dirEntryCluster i = clusterBuf w f.dirEntryCluster i
  free : (freeClusters w').card + l'.length = (freeClusters w).card + l.length

section

variable {w w' w'' : World} {l l' l'' : List Nat} {f f' : File} {b : List UInt8} {fd : Nat}
  {a : AbstractFile}

theorem FileFrame.refl (w : World) (l : List Nat) (f : File) : FileFrame w l w l f :=
  ⟨.refl w, rfl, rfl, List.prefix_refl l, fun _ h h' => absurd h h', fun _ _ _ => rfl,
    fun _ _ _ _ => rfl, fun _ _ => rfl, rfl⟩

theorem FileFrame.trans (h : FileFrame w l w' l' f) (h' : FileFrame w' l' w'' l'' f) :
    FileFrame w l w'' l'' f := by
  have hsub : ∀ c, c ∉ l'' → c ∉ l' := fun c hc hm => hc (h'.grown.subset hm)
  refine ⟨h.geometry.trans h'.geometry, h'.mallocs.trans h.mallocs, h'.faults.trans h.faults,
    h.grown.trans h'.grown, fun c hc hl => ?_, fun c h2 hc => ?_, fun c h2 hc hd => ?_,
    fun i hi => ?_, ?_⟩
  · by_cases hm : c ∈ l'
    · exact h.fresh c hm hl
    · obtain ⟨h2, hz⟩ := h'.fresh c hc hm
      exact ⟨h2, (h.next c h2 hm).symm.trans hz⟩
  · rw [h'.next c h2 hc, h.next c h2 (hsub c hc)]
  · rw [h'.bytes c h2 hc hd, h.bytes c h2 (hsub c hc) hd]
  · rw [h'.entry i hi, h.entry i hi]
  · have h₁ := h.free
    have h₂ := h'.free
    omega

theorem FileFrame.of_frame (h : Frame w l w' l') (h2 : 2 ≤ f.dirEntryCluster)
    (hd : f.dirEntryCluster ∉ l') : FileFrame w l w' l' f :=
  ⟨h.geometry, h.mallocs, h.faults, h.grown, h.fresh, h.next, fun c hc hm _ => h.bytes c hc hm,
    fun i _ => by rw [h.bytes _ h2 hd], h.free⟩

theorem FileFrame.calm (hf : FileFrame w l w' l' f) (h : Calm w) : Calm w' :=
  h.of_same hf.geometry hf.faults hf.mallocs

theorem content_congr (h : Content w l f b) (hfs : w'.fs = w.fs)
    (hb : ∀ c ∈ l, clusterBuf w' c = clusterBuf w c) : Content w' l f b := by
  have hn : nextOf w' = nextOf w := by
    funext c
    rw [nextOf, nextOf, hfs]
  have hcs : clusterSize w' = clusterSize w := by rw [clusterSize, clusterSize, hfs]
  have hr : ∀ c, InRange w' c ↔ InRange w c := fun c => by rw [InRange, InRange, hfs]
  refine ⟨⟨hn ▸ h.chain.linked, h.chain.nodup, fun c hc => (hr c).mpr (h.chain.inRange c hc)⟩, ?_,
    fun q hq => hcs ▸ h.tight q hq, h.start, h.last, h.fileSize, h.fileSize_lt, hcs ▸ h.place,
    h.position_le⟩
  refine ⟨hcs ▸ h.stored.length_le, fun i hi => ?_⟩
  obtain ⟨c, hc, hget⟩ := h.stored.get i hi
  rw [hcs]
  exact ⟨c, hc, by rw [hb c (List.mem_of_getElem? hc)]; exact hget⟩

/-! ## Updating the entry -/

theorem slotCluster_setSlotFile {e : Buf} {cluster size : Nat} (h : cluster < 2 ^ 32) :
    slotCluster (setSlotFile e cluster size) = cluster := by
  have hhigh : readHalf (setSlotFile e cluster size) 20 = cluster / 2 ^ 16 % 2 ^ 16 :=
    readHalf_wordByte (Nat.mod_lt _ (by decide)) rfl rfl
  have hlow : readHalf (setSlotFile e cluster size) 26 = cluster % 2 ^ 16 :=
    readHalf_wordByte (Nat.mod_lt _ (by decide)) rfl rfl
  rw [slotCluster, hhigh, hlow, halves_or h]

theorem slotFileSize_setSlotFile {e : Buf} {cluster size : Nat} (h : size < 2 ^ 32) :
    slotFileSize (setSlotFile e cluster size) = size := le32_wordByte h

theorem setSlotFile_other {e : Buf} {cluster size i : Nat} (h : ¬ IsFileField i) :
    setSlotFile e cluster size i = e i := by
  simp only [IsFileField, not_or] at h
  rw [setSlotFile, if_neg h.1, if_neg (by omega), if_neg (by omega)]

/-- The volume after the entry of `f` was updated. -/
def updated (w : World) (f : File) : World :=
  putCluster w f.dirEntryCluster (putSlot (clusterBuf w f.dirEntryCluster) f.dirEntryIndex
    (setSlotFile (entrySlot w f) f.startCluster f.fileSize))

theorem updateFileEntry_eq (hw : Calm w) (hin : InRange w f.dirEntryCluster) :
    fat32UpdateFileEntry f w = some (true, updated w f) := by
  simp only [fat32UpdateFileEntry, ite_run, if_neg (Nat.not_lt.mpr hin.1), bind_run, get_run,
    Option.bind_some, hw.mallocs.kmalloc hw.geometry.clusterSize_pos, if_true,
    readCluster_eq hw.geometry hw.noFaults hin, writeCluster_eq hw.geometry hw.noFaults hin]
  rfl

theorem slot_inside (g : Geometry w) {index i : Nat} (hx : index < entriesPerCluster w)
    (hi : i < slotSize) : index * slotSize + i < w.fs.sectorsPerCluster * sectorSize := by
  rw [entriesPerCluster, g.clusterSize_eq] at hx
  have h₁ := (Nat.lt_div_iff_mul_lt (show 0 < slotSize by decide)).mp hx
  simp only [slotSize, sectorSize] at *
  omega

theorem entrySlot_updated (hw : Calm w) (hx : f.dirEntryIndex < entriesPerCluster w) :
    entrySlot (updated w f) f = setSlotFile (entrySlot w f) f.startCluster f.fileSize := by
  funext i
  by_cases hi : i < slotSize
  · rw [entrySlot, slotAt, if_pos hi, updated,
      clusterBuf_putCluster_same (slot_inside hw.geometry hx hi), putSlot,
      store_inside (by omega) (by omega), Nat.add_sub_cancel_left]
  · have hout : entrySlot w f i = 0 := slotAt_outside _ _ (Nat.not_lt.mp hi)
    rw [entrySlot, slotAt_outside _ _ (Nat.not_lt.mp hi), setSlotFile_other, hout]
    simp only [slotSize, IsFileField] at *
    omega

theorem fileFrame_updated (hin : InRange w f.dirEntryCluster) (l : List Nat) :
    FileFrame w l (updated w f) l f := by
  refine ⟨sameGeometry_putCluster, rfl, rfl, List.prefix_refl l, fun _ h h' => absurd h h',
    fun _ _ _ => rfl, fun c h2 _ hne => clusterBuf_putCluster_other hin.1 h2 hne, fun i hi => ?_,
    rfl⟩
  by_cases hlt : i < w.fs.sectorsPerCluster * sectorSize
  · rw [updated, clusterBuf_putCluster_same hlt, putSlot, store]
    split
    · rename_i hs
      rw [setSlotFile_other fun hf => hi _ hf (by omega), entrySlot, slotAt, if_pos (by omega)]
      congr 1
      omega
    · rfl
  · rw [clusterBuf_outside (w := updated w f) (Nat.not_lt.mp hlt), clusterBuf_outside (Nat.not_lt.mp hlt)]

theorem FileFrame.congr_entry (h : FileFrame w l w' l' f') (he : SameEntry f f') :
    FileFrame w l w' l' f := by
  obtain ⟨-, h₁, h₂, -⟩ := he
  refine ⟨h.geometry, h.mallocs, h.faults, h.grown, h.fresh, h.next, ?_, ?_, h.free⟩
  · rw [← h₁]
    exact h.bytes
  · rw [← h₁, ← h₂]
    exact h.entry

/-! ## Each operation -/

theorem fileOf_eq (h : Opened w fd l a) : fileOf w fd = some (w.openFiles fd) :=
  if_pos ⟨h.fd_lt, h.inUse⟩

@[simp] theorem setFile_openFiles_same : (w.setFile fd f).openFiles fd = f := if_pos rfl

theorem setFile_setFile (f g : File) : (w.setFile fd f).setFile fd g = w.setFile fd g := by
  have hfiles : ∀ k, (if k = fd then g else if k = fd then f else w.openFiles k) =
      if k = fd then g else w.openFiles k := fun k => by
    by_cases hk : k = fd
    · rw [if_pos hk, if_pos hk]
    · rw [if_neg hk, if_neg hk, if_neg hk]
  simp only [World.setFile, hfiles]

theorem fileFrame_setFile (g : File) (l : List Nat) : FileFrame w l (w.setFile fd g) l f :=
  ⟨⟨rfl, rfl, rfl, rfl⟩, rfl, rfl, List.prefix_refl l, fun _ h h' => absurd h h', fun _ _ _ => rfl,
    fun _ _ _ _ => rfl, fun _ _ => rfl, rfl⟩

theorem Entry.congr (h : Entry w l f) (he : SameEntry f f')
    (hs : f'.startCluster = f.startCluster ∧ f'.fileSize = f.fileSize) : Entry w l f' := by
  obtain ⟨-, h₁, h₂, -⟩ := he
  obtain ⟨h₃, h₄⟩ := hs
  refine ⟨h₁ ▸ h.inRange, h₂ ▸ h.index_lt, h₁ ▸ h.apart, h₁ ▸ h.used, ?_, ?_⟩
  · rw [entrySlot, h₁, h₂, h₃]
    exact h.cluster
  · rw [entrySlot, h₁, h₂, h₄]
    exact h.size

theorem Opened.move (h : Opened w fd l a) (hm : Moved (w.openFiles fd) f)
    (hc : Content w l f a.bytes) :
    Opened (w.setFile fd f) fd l ⟨a.bytes, f.position⟩ := by
  refine ⟨h.fd_lt, ?_, ?_, ?_, ?_⟩
  · rw [setFile_openFiles_same, hm]
    exact h.inUse
  · rw [setFile_openFiles_same]
    exact content_congr hc rfl fun _ _ => rfl
  · rw [setFile_openFiles_same]
  · rw [setFile_openFiles_same]
    refine Entry.congr (w := w.setFile fd f) (f := w.openFiles fd) ?_ hm.sameEntry ?_
    · exact ⟨h.entry.inRange, h.entry.index_lt, h.entry.apart, h.entry.used, h.entry.cluster,
        h.entry.size⟩
    · rw [hm]
      exact ⟨rfl, rfl⟩

/-- What a step of the descriptor does, beside its result. -/
structure Stepped (w : World) (l : List Nat) (fd : Nat) (w' : World) (l' : List Nat)
    (a : AbstractFile) : Prop where
  opened : Opened w' fd l' a
  frame : FileFrame w l w' l' (w.openFiles fd)
  entry : SameEntry (w.openFiles fd) (w'.openFiles fd)

theorem Opened.move_stepped (h : Opened w fd l a) (hm : Moved (w.openFiles fd) f)
    (hc : Content w l f a.bytes) : Stepped w l fd (w.setFile fd f) l ⟨a.bytes, f.position⟩ := by
  refine ⟨h.move hm hc, fileFrame_setFile f l, ?_⟩
  rw [setFile_openFiles_same]
  exact hm.sameEntry

theorem seek_refines (hw : Calm w) (h : Opened w fd l a) (p : Nat) :
    ∃ w', (Op.seek p).run fd w = some (((Op.seek p).abstract a).1, w') ∧
      Stepped w l fd w' l ((Op.seek p).abstract a).2 := by
  have hc := h.content
  generalize hp : min p a.bytes.length = q
  have hq : (if p > (w.openFiles fd).fileSize then (w.openFiles fd).fileSize else p) = q := by
    rw [hc.fileSize]
    split <;> omega
  obtain ⟨f', r, hrun, hmv, hsum, hplace⟩ := seekLoop_spec hw hc.chain hc.stored.length_le (q + 1)
    { w.openFiles fd with
      currentCluster := (w.openFiles fd).startCluster
      position := 0
      clusterPosition := 0 } q
    (by rw [hc.start]; exact place_start _ l) (by change 0 + q ≤ _; omega) (by omega)
  have hsum : f'.position + r = q := by
    rw [hsum]
    exact Nat.zero_add q
  have hmoved : Moved (w.openFiles fd) { f' with
      clusterPosition := r
      position := f'.position + r } := by
    rw [Moved] at hmv ⊢
    rw [hmv]
  refine ⟨w.setFile fd { f' with clusterPosition := r, position := f'.position + r }, ?_, ?_⟩
  · simp only [Op.run, fat32Seek, bind_run, get_run, Option.bind_some, fileOf_eq h, hq, hrun, setFile,
      modify_run, pure_run, Op.abstract]
  · have hcont := hc.moved hmoved hplace (by change f'.position + r ≤ _; omega)
    have hstep := h.move_stepped hmoved hcont
    simp only [Op.abstract, hp]
    rw [hsum] at hstep ⊢
    exact hstep

theorem read_refines (hw : Calm w) (h : Opened w fd l a) (n : Nat) (hb : a.cursor + n < 2 ^ 32) :
    ∃ w', (Op.read n).run fd w = some (((Op.read n).abstract a).1, w') ∧
      Stepped w l fd w' l ((Op.read n).abstract a).2 := by
  have hc := h.content
  have hle := hc.position_le
  have hcur := h.cursor
  by_cases hend : (w.openFiles fd).position ≥ (w.openFiles fd).fileSize
  · -- at the end of the file nothing is read
    have hnone : (a.bytes.drop a.cursor).take n = [] := by
      rw [List.drop_eq_nil_of_le (by rw [← hcur, ← hc.fileSize]; exact hend), List.take_nil]
    refine ⟨w, ?_, ?_⟩
    · simp only [Op.run, fat32Read, bind_run, get_run, Option.bind_some, fileOf_eq h, ite_run,
        if_pos hend, pure_run, Op.abstract, hnone]
    · simp only [Op.abstract, hnone, List.length_nil, Nat.add_zero]
      exact ⟨h, .refl w l _, rfl, rfl, rfl, rfl⟩
  · rw [hc.fileSize] at hend
    have hlt := hc.fileSize_lt
    have hmod : ((w.openFiles fd).position + n) % 2 ^ 32 = (w.openFiles fd).position + n :=
      Nat.mod_eq_of_lt (by omega)
    generalize hsize : (if (w.openFiles fd).position + n > a.bytes.length then
      a.bytes.length - (w.openFiles fd).position else n) = size
    have hsle : (w.openFiles fd).position + size ≤ a.bytes.length := by
      rw [← hsize]
      split <;> omega
    have htake : (a.bytes.drop a.cursor).take n = (a.bytes.drop a.cursor).take size := by
      rw [← hsize]
      split
      · rw [List.take_of_length_le (by rw [List.length_drop]; omega),
          List.take_of_length_le (by rw [List.length_drop]; omega)]
      · rfl
    obtain ⟨f', hrun, hcont, hmv, hpos⟩ := readLoop_spec hw size (2 * size + 2) (w.openFiles fd) [] hc
      (Nat.zero_le _) hsle (by simp only [List.length_nil]; split <;> omega)
    simp only [List.length_nil, Nat.sub_zero, List.nil_append] at hrun hpos
    rw [hcur] at hrun
    refine ⟨w.setFile fd f', ?_, ?_⟩
    · simp only [Op.run, fat32Read, bind_run, get_run, Option.bind_some, fileOf_eq h, ite_run,
        hc.fileSize, if_neg hend, hmod, hsize, hw.mallocs.kmalloc hw.geometry.clusterSize_pos,
        if_true, hrun, setFile, modify_run, pure_run, Op.abstract, htake]
    · have hstep := h.move_stepped hmv hcont
      have hlen : ((a.bytes.drop a.cursor).take n).length = size := by
        rw [htake, List.length_take, List.length_drop]
        omega
      simp only [Op.abstract, hlen]
      rw [hpos, hcur] at hstep
      exact hstep

theorem write_run (hw : Calm w) (hfile : fileOf w fd = some f) {src : List UInt8}
    (hsrc : src.length ≠ 0) {f₁ : File} {w₁ : World} (hw₁ : Calm w₁)
    (hloop : writeLoop src.length f src 0 w = some ((f₁, src.length, true), w₁))
    (hin : InRange w₁ f₁.dirEntryCluster) :
    (Op.write src).run fd w = some (.count src.length, updated (w₁.setFile fd f₁) f₁) := by
  have hcalm : Calm (w₁.setFile fd f₁) := (fileFrame_setFile f₁ [] (f := f₁)).calm hw₁
  simp only [Op.run, fat32Write, bind_run, get_run, Option.bind_some, hfile, ite_run, if_neg hsrc,
    hw.mallocs.kmalloc hw.geometry.clusterSize_pos, if_true, hloop, setFile, modify_run,
    not_true_eq_false, if_false, updateFileEntry_eq hcalm hin, pure_run]

/-- The clusters were written and the entry is updated: what the descriptor `f₁`
shows is what the file holds, whichever descriptor `g` is stored. -/
theorem updated_stores {f₁ : File} {w₁ : World} {l₁ : List Nat} (fd : Nat) (hw₁ : Calm w₁)
    (hf : Frame w l w₁ l₁) (he : Entry w l f) (hs : SameEntry f f₁) (hc : Content w₁ l₁ f₁ b)
    (g : File) :
    FileFrame w l (updated (w₁.setFile fd g) f₁) l₁ f ∧
      Content (updated (w₁.setFile fd g) f₁) l₁ f₁ b ∧
      Entry (updated (w₁.setFile fd g) f₁) l₁ f₁ := by
  obtain ⟨-, he₁, he₂, -⟩ := id hs
  -- the entry's cluster is none of the file's
  have hin : InRange w₁ f₁.dirEntryCluster := by
    rw [he₁, hf.geometry.inRange]
    exact he.inRange
  have hapart : f₁.dirEntryCluster ∉ l₁ := by
    rw [he₁]
    exact hf.not_mem he.apart he.used
  have hx : f₁.dirEntryIndex < entriesPerCluster w₁ := by
    rw [he₂, entriesPerCluster, SameGeometry.clusterSize_eq hf.geometry]
    exact he.index_lt
  have hcalm : Calm (w₁.setFile fd g) := (fileFrame_setFile g l₁ (f := f₁)).calm hw₁
  refine ⟨?_, ?_, hin, hx, hapart, ?_, ?_, ?_⟩
  · have h₁ : FileFrame w l w₁ l₁ f₁ := .of_frame hf hin.1 hapart
    have h₂ : FileFrame w₁ l₁ (w₁.setFile fd g) l₁ f₁ := fileFrame_setFile g l₁
    exact ((h₁.trans h₂).trans (fileFrame_updated (w := w₁.setFile fd g) hin l₁)).congr_entry hs
  · exact content_congr hc rfl fun c hm => clusterBuf_putCluster_other (w := w₁.setFile fd g)
      hin.1 (hc.chain.inRange c hm).1 fun heq => hapart (heq ▸ hm)
  · change nextOf w₁ _ ≠ 0
    rw [hf.next _ hin.1 hapart, he₁]
    exact he.used
  · have hstart : f₁.startCluster < 2 ^ 32 := by
      rw [hc.start]
      by_cases hne : l₁ = []
      · rw [hne]
        decide
      · have := (hc.chain.inRange _ (Chain.head_mem hne)).lt hw₁.geometry
        omega
    rw [entrySlot_updated hcalm hx, slotCluster_setSlotFile hstart]
  · rw [entrySlot_updated hcalm hx, slotFileSize_setSlotFile]
    rw [hc.fileSize]
    exact hc.fileSize_lt

theorem write_refines (hw : Calm w) (h : Opened w fd l a) (src : List UInt8)
    (hb : a.cursor + src.length < 2 ^ 32)
    (hroom : ∀ q, q * clusterSize w < a.cursor + src.length →
      q < l.length + (freeClusters w).card) :
    ∃ w' l', (Op.write src).run fd w = some (((Op.write src).abstract a).1, w') ∧
      Stepped w l fd w' l' ((Op.write src).abstract a).2 := by
  have hc := h.content
  have hcur := h.cursor
  by_cases hsrc : src.length = 0
  · obtain rfl := List.length_eq_zero_iff.mp hsrc
    refine ⟨w, l, ?_, ?_⟩
    · simp only [Op.run, fat32Write, bind_run, get_run, Option.bind_some, fileOf_eq h, List.length_nil,
        if_true, pure_run, Op.abstract]
      rfl
    · simp only [Op.abstract, overwrite_nil, List.length_nil, Nat.add_zero]
      exact ⟨h, .refl w l _, rfl, rfl, rfl, rfl⟩
  · obtain ⟨w₁, l₁, f₁, hrun, hf, -, he, hp, hcont⟩ := writeLoop_spec src.length w l
      (w.openFiles fd) a.bytes src 0 hw hc (by omega) (by rw [hcur]; exact hroom) (Nat.le_refl _)
    rw [Nat.zero_add] at hrun
    rw [hcur] at hcont hp
    have hw₁ := hf.calm hw
    obtain ⟨hframe, hstored, hentry⟩ := updated_stores fd hw₁ hf h.entry he hcont f₁
    have hin : InRange w₁ f₁.dirEntryCluster := hentry.inRange
    have hopen : (updated (w₁.setFile fd f₁) f₁).openFiles fd = f₁ := setFile_openFiles_same
    refine ⟨updated (w₁.setFile fd f₁) f₁, l₁, write_run hw (fileOf_eq h) hsrc hw₁ hrun hin,
      ⟨h.fd_lt, ?_, ?_, ?_, ?_⟩, hframe, by rw [hopen]; exact he⟩
    · rw [hopen, he.2.2.2]
      exact h.inUse
    · rw [hopen]
      exact hstored
    · rw [hopen]
      exact hp
    · rw [hopen]
      exact hentry

/-! ## Every sequence of operations -/

/-- The file can hold its `n` bytes: its own and the free clusters are enough. -/
def Fits (w : World) (l : List Nat) (n : Nat) : Prop :=
  ∀ q, q * clusterSize w < n → q < l.length + (freeClusters w).card

theorem step_refines (hw : Calm w) (h : Opened w fd l a) {op : Op} (hb : op.Bounded a)
    (hroom : Fits w l (op.abstract a).2.bytes.length) :
    ∃ w' l', op.run fd w = some ((op.abstract a).1, w') ∧ Stepped w l fd w' l' (op.abstract a).2 := by
  cases op with
  | seek p =>
    obtain ⟨w', hrun, hs⟩ := seek_refines hw h p
    exact ⟨w', l, hrun, hs⟩
  | read n =>
    obtain ⟨w', hrun, hs⟩ := read_refines hw h n (Nat.lt_trans hb (by decide))
    exact ⟨w', l, hrun, hs⟩
  | write src =>
    refine write_refines hw h src (Nat.lt_trans hb (by decide)) fun q hq => hroom q ?_
    have hle := h.content.position_le
    rw [h.cursor] at hle
    simp only [Op.abstract, length_overwrite hle]
    omega

theorem abstract_grows (op : Op) (h : a.cursor ≤ a.bytes.length) :
    a.bytes.length ≤ (op.abstract a).2.bytes.length ∧
      (op.abstract a).2.cursor ≤ (op.abstract a).2.bytes.length := by
  cases op with
  | seek p => exact ⟨Nat.le_refl _, Nat.min_le_right _ _⟩
  | read n =>
    simp only [Op.abstract, List.length_take, List.length_drop]
    omega
  | write src =>
    simp only [Op.abstract, length_overwrite h]
    omega

theorem abstractAll_grows : ∀ (ops : List Op) {a : AbstractFile}, a.cursor ≤ a.bytes.length →
    a.bytes.length ≤ (abstractAll ops a).2.bytes.length
  | [], _, _ => Nat.le_refl _
  | op :: ops, a, h => by
    obtain ⟨h₁, h₂⟩ := abstract_grows op h
    exact h₁.trans (abstractAll_grows ops h₂)

/-- **Every sequence of operations gives the abstract results.** -/
theorem run_refines : ∀ (ops : List Op) {w : World} {l : List Nat} {a : AbstractFile}, Calm w →
    Opened w fd l a → BoundedAll ops a → Fits w l (abstractAll ops a).2.bytes.length →
    ∃ w' l', runAll fd ops w = some ((abstractAll ops a).1, w') ∧
      Stepped w l fd w' l' (abstractAll ops a).2
  | [], w, l, a, _, h, _, _ => ⟨w, l, rfl, h, .refl w l _, rfl, rfl, rfl, rfl⟩
  | op :: ops, w, l, a, hw, h, hb, hroom => by
    have hcur : a.cursor ≤ a.bytes.length := h.cursor ▸ h.content.position_le
    have hlen := abstractAll_grows ops (abstract_grows op hcur).2
    obtain ⟨w₁, l₁, hrun₁, hs₁⟩ := step_refines hw h hb.1 fun q hq => hroom q (by
      change _ < (abstractAll ops (op.abstract a).2).2.bytes.length
      omega)
    obtain ⟨w₂, l₂, hrun₂, hs₂⟩ := run_refines ops (hs₁.frame.calm hw) hs₁.opened hb.2 fun q hq => by
      rw [SameGeometry.clusterSize_eq hs₁.frame.geometry] at hq
      have h₁ := hroom q hq
      have h₂ := hs₁.frame.free
      omega
    refine ⟨w₂, l₂, ?_, hs₂.opened, hs₁.frame.trans (hs₂.frame.congr_entry hs₁.entry),
      hs₁.entry.trans hs₂.entry⟩
    simp only [runAll, bind_run, hrun₁, Option.bind_some, hrun₂, pure_run]
    rfl

end

end ContinuumOS.Fat32.Refinement
