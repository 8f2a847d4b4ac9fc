import ContinuumOS.Mem.Paging
import ContinuumOS.Mem.Regions

/-! # The page tables are a map

In every state after `vmm_init` and calls of `vmm_map` and `vmm_map_range`, the
walk through the tables gives what the last call for a page said. The tables lie
in frames of their own, which no other table and not the directory shares, so
that storing one entry changes the translation of one page. -/
namespace ContinuumOS.Mem.Translation
open ContinuumOS.Lib.Bitmap ContinuumOS.Mem.Frames ContinuumOS.Mem.Paging
open ContinuumOS.Mem.Regions (prefix_initializeManager endsBeforeHeap_example)

/-! ## Entries -/

/-- The entry for a page with some flags. -/
def pageEntry (page : Nat) (flags : BitVec 32) : BitVec 32 := BitVec.ofNat 32 (page * 4096) ||| flags

theorem getLsbD_frameMask {j : Nat} (hj : j < 32) : frameMask.getLsbD j = decide (12 ≤ j) := by
  revert j
  decide

theorem getLsbD_pageAddress (page j : Nat) : (BitVec.ofNat 32 (page * 4096)).getLsbD j =
    (decide (j < 32) && (decide (12 ≤ j) && page.testBit (j - 12))) := by
  rw [BitVec.getLsbD_ofNat, show (4096 : Nat) = 2 ^ 12 from rfl, Nat.testBit_mul_two_pow]

theorem pageEntry_and_frameMask (page : Nat) {flags : BitVec 32}
    (hflags : flags &&& frameMask = 0) :
    pageEntry page flags &&& frameMask = BitVec.ofNat 32 (page * 4096) := by
  refine BitVec.eq_of_getLsbD_eq fun j hj => ?_
  have hlow := congrArg (BitVec.getLsbD · j) hflags
  simp only [BitVec.getLsbD_and, getLsbD_frameMask hj] at hlow
  rw [pageEntry, BitVec.getLsbD_and, BitVec.getLsbD_or, getLsbD_pageAddress, getLsbD_frameMask hj]
  by_cases h : 12 ≤ j
  · simp only [h, decide_true, Bool.and_true, Bool.true_and] at hlow ⊢
    rw [hlow]
    simp [hj]
  · simp [h]

theorem toNat_pageAddress {page : Nat} (h : page < 2 ^ 20) :
    (BitVec.ofNat 32 (page * 4096)).toNat = page * 4096 := by
  rw [BitVec.toNat_ofNat]
  omega

theorem and_frameMask_eq (address : BitVec 32) :
    address &&& frameMask = BitVec.ofNat 32 (address.toNat / 4096 * 4096) := by
  refine BitVec.eq_of_toNat_eq ?_
  have := address.isLt
  rw [toNat_pageAddress (by omega)]
  exact toNat_and_pageMask address

theorem pageAddress_and_frameMask {page : Nat} (h : page < 2 ^ 20) :
    BitVec.ofNat 32 (page * 4096) &&& frameMask = BitVec.ofNat 32 (page * 4096) := by
  rw [and_frameMask_eq, toNat_pageAddress h, Nat.mul_div_cancel _ (by decide)]

theorem pageEntry_flag {page j : Nat} {flags : BitVec 32} (hj : j < 12) :
    pageEntry page flags &&& (1#32 <<< j) = 0 ↔ flags.getLsbD j = false := by
  have hge : ¬ 12 ≤ j := by omega
  rw [show (0 : BitVec 32) = 0#32 from rfl, and_mask_eq_zero (by omega), pageEntry,
    BitVec.getLsbD_or, getLsbD_pageAddress]
  simp [hge]

theorem pageEntry_present {page : Nat} {flags : BitVec 32} (h : flags.getLsbD 0 = true) :
    pageEntry page flags &&& presentFlag ≠ 0 := by
  intro hz
  have := (pageEntry_flag (j := 0) (by decide)).mp hz
  rw [h] at this
  cases this

theorem pageEntry_shift {page : Nat} {flags : BitVec 32} (hp : page < 2 ^ 20)
    (hflags : flags &&& frameMask = 0) : (pageEntry page flags >>> 12).toNat = page := by
  have h := toNat_and_pageMask (pageEntry page flags)
  rw [show (0xFFFFF000#32) = frameMask from rfl, pageEntry_and_frameMask page hflags,
    toNat_pageAddress hp] at h
  rw [BitVec.toNat_ushiftRight, Nat.shiftRight_eq_div_pow]
  omega

theorem pageEntry_writable (page : Nat) (flags : BitVec 32) :
    (pageEntry page flags &&& writableFlag != 0) = flags.getLsbD 1 := by
  have h : pageEntry page flags &&& (1#32 <<< 1) = 0 ↔ flags.getLsbD 1 = false :=
    pageEntry_flag (by decide)
  rw [show (1#32 <<< 1) = writableFlag from rfl] at h
  cases hbit : flags.getLsbD 1 with
  | true =>
    rw [bne_iff_ne]
    intro hz
    rw [h.mp hz] at hbit
    cases hbit
  | false => simp [h.mpr hbit]

theorem decodeEntry_pageEntry {page : Nat} (hp : page < 2 ^ 20) (rw : Bool) :
    decodeEntry (pageEntry page (if rw then 0x3 else 0x1)) = some (page, rw) := by
  unfold decodeEntry
  rw [if_neg (pageEntry_present (by cases rw <;> decide)),
    pageEntry_shift hp (by cases rw <;> decide), pageEntry_writable]
  cases rw <;> rfl

theorem pdIndex_eq (v : BitVec 32) :
    ((v >>> 22) &&& 0x3FF).toNat = v.toNat / 4096 / 1024 := by
  have := v.isLt
  rw [BitVec.toNat_and, BitVec.toNat_ushiftRight, Nat.shiftRight_eq_div_pow,
    show (0x3FF : BitVec 32).toNat = 2 ^ 10 - 1 from rfl, Nat.and_two_pow_sub_one_eq_mod]
  omega

theorem ptIndex_eq (v : BitVec 32) :
    ((v >>> 12) &&& 0x3FF).toNat = v.toNat / 4096 % 1024 := by
  rw [BitVec.toNat_and, BitVec.toNat_ushiftRight, Nat.shiftRight_eq_div_pow,
    show (0x3FF : BitVec 32).toNat = 2 ^ 10 - 1 from rfl, Nat.and_two_pow_sub_one_eq_mod]

/-! ## Tables in frames of their own -/

/-- The word of entry `i` of the table in a frame. -/
def entryWord (frame i : Nat) : Nat := frame * 1024 + i

theorem entryWord_inj {f g i j : Nat} (hi : i < 1024) (hj : j < 1024)
    (h : entryWord f i = entryWord g j) : f = g ∧ i = j := by
  unfold entryWord at h
  omega

theorem tableWord {frame : Nat} (h : frame < 2 ^ 20) (i : Nat) :
    (BitVec.ofNat 32 (frame * 4096)).toNat / 4 + i = entryWord frame i := by
  rw [toNat_pageAddress h, entryWord]
  omega

/-- The frame allocator knows of the frames that are out. -/
def Books (pmm : PhysicalMemoryManager) (held : List Nat) : Prop :=
  ∃ total reserved, total < 2 ^ 20 ∧ 0 < reserved ∧ Inv total reserved pmm held

/-- The directory is in frame `d` and entry `i` of it names the table in frame
`t i`. All of these frames were allocated, and no two of them are the same. -/
structure Tables (d : Nat) (t : Nat → Option Nat) (held : List Nat) (s : Vmm) : Prop where
  books : Books s.pmm held
  dir : s.kernelPageDirectory = BitVec.ofNat 32 (d * 4096)
  dirHeld : d ∈ held
  absent : ∀ i < 1024, t i = none → s.mem (entryWord d i) &&& presentFlag = 0
  present : ∀ i < 1024, ∀ f, t i = some f → s.mem (entryWord d i) = pageEntry f 0x3
  tableHeld : ∀ i f, t i = some f → f ∈ held ∧ f ≠ d
  apart : ∀ i j f, t i = some f → t j = some f → i = j

section

variable {d : Nat} {t : Nat → Option Nat} {held : List Nat} {s : Vmm}

theorem Books.lt {pmm : PhysicalMemoryManager} (h : Books pmm held) {f : Nat} (hf : f ∈ held) :
    f < 2 ^ 20 := by
  obtain ⟨total, reserved, ht, -, hinv⟩ := h
  have := (hinv.outside f hf).2
  omega

theorem Books.allocate {pmm : PhysicalMemoryManager} (h : Books pmm held)
    (hne : (allocateFrame pmm).1 ≠ 0) : ∃ f, (allocateFrame pmm).1 = f * 4096 ∧ f ∉ held ∧
      Books (allocateFrame pmm).2 (f :: held) := by
  obtain ⟨total, reserved, ht, h0, hinv⟩ := h
  obtain ⟨hz, -⟩ | ⟨f, hf, haddr, -, hinv'⟩ := hinv.allocateFrame ht h0
  · exact absurd hz hne
  · exact ⟨f, haddr, (hinv.firstFree_some hf).2.2.2.2, total, reserved, ht, h0, hinv'⟩

theorem Tables.lt (h : Tables d t held s) {f : Nat} (hf : f ∈ held) : f < 2 ^ 20 := h.books.lt hf

theorem Tables.walk (h : Tables d t held s) {q : Nat} (hq : q < 2 ^ 20) :
    translate s q = (t (q / 1024)).bind fun f => decodeEntry (s.mem (entryWord f (q % 1024))) := by
  have hi : q / 1024 < 1024 := by omega
  have hdir : ∀ i, loadEntry s.mem s.kernelPageDirectory i = s.mem (entryWord d i) := by
    intro i
    rw [loadEntry, h.dir, tableWord (h.lt h.dirHeld)]
  unfold Paging.translate
  rw [hdir]
  cases ht : t (q / 1024) with
  | none =>
    rw [if_pos (h.absent _ hi ht)]
    rfl
  | some f =>
    have hf := h.lt (h.tableHeld _ f ht).1
    rw [h.present _ hi f ht]
    dsimp only
    rw [if_neg (pageEntry_present (by decide)), pageEntry_and_frameMask f (by decide), loadEntry,
      tableWord hf, pageEntry_writable]
    have hbit : (0x3 : BitVec 32).getLsbD 1 = true := by decide
    simp only [hbit, Bool.and_true, Option.bind_some]
    exact Option.map_id'

/-- **Storing an entry of a table** changes the translation of its page alone. -/
theorem Tables.store (h : Tables d t held s) {u : Vmm} {i f k : Nat} {w : BitVec 32}
    (ht : t i = some f) (hk : k < 1024) (hpmm : u.pmm = s.pmm)
    (hdir : u.kernelPageDirectory = s.kernelPageDirectory)
    (hmem : u.mem = Function.update s.mem (entryWord f k) w) :
    Tables d t held u ∧ ∀ q < 2 ^ 20, translate u q =
      if q = i * 1024 + k then decodeEntry w else translate s q := by
  have hentry : ∀ j < 1024, u.mem (entryWord d j) = s.mem (entryWord d j) := by
    intro j hj
    rw [hmem]
    refine Function.update_of_ne (fun he => ?_) _ _
    exact (h.tableHeld i f ht).2 (entryWord_inj hj hk he).1.symm
  have htables : Tables d t held u :=
    { books := by rw [hpmm]; exact h.books
      dir := hdir.trans h.dir
      dirHeld := h.dirHeld
      absent := fun j hj hn => by rw [hentry j hj]; exact h.absent j hj hn
      present := fun j hj g hg => by rw [hentry j hj]; exact h.present j hj g hg
      tableHeld := h.tableHeld
      apart := h.apart }
  refine ⟨htables, fun q hq => ?_⟩
  rw [htables.walk hq, h.walk hq, hmem]
  by_cases hqi : q = i * 1024 + k
  · have h₁ : q / 1024 = i := by omega
    have h₂ : q % 1024 = k := by omega
    rw [if_pos hqi, h₁, h₂, ht, Option.bind_some, Function.update_self]
  · rw [if_neg hqi]
    cases hg : t (q / 1024) with
    | none => rfl
    | some g =>
      refine congrArg decodeEntry (Function.update_of_ne (fun he => hqi ?_) _ _)
      obtain ⟨rfl, hmod⟩ := entryWord_inj (by omega) hk he
      have := h.apart _ _ _ hg ht
      omega

/-- **A new table** in a frame just allocated. Of memory only the frame and the
entry of the directory changed. -/
theorem Tables.addTable (h : Tables d t held s) {u : Vmm} {i f : Nat} (hfresh : f ∉ held)
    (hbooks : Books u.pmm (f :: held)) (hdir : u.kernelPageDirectory = s.kernelPageDirectory)
    (hentry : u.mem (entryWord d i) = pageEntry f 0x3)
    (hmem : ∀ g j, j < 1024 → g ≠ f → (g = d → j ≠ i) →
      u.mem (entryWord g j) = s.mem (entryWord g j)) :
    Tables d (Function.update t i (some f)) (f :: held) u ∧
    ∀ q < 2 ^ 20, translate u q =
      if q / 1024 = i then decodeEntry (u.mem (entryWord f (q % 1024)))
      else translate s q := by
  have hdf : d ≠ f := fun he => hfresh (he ▸ h.dirHeld)
  have hother : ∀ j, j ≠ i → Function.update t i (some f) j = t j := fun j hj =>
    Function.update_of_ne hj _ _
  have hself : Function.update t i (some f) i = some f := Function.update_self i _ t
  have htables : Tables d (Function.update t i (some f)) (f :: held) u := by
    refine ⟨hbooks, hdir.trans h.dir, .tail f h.dirHeld, fun j hj hn => ?_, fun j hj g hg => ?_,
      fun j g hg => ?_, fun j k g hj hk => ?_⟩
    · obtain rfl | hji := eq_or_ne j i
      · rw [hself] at hn
        cases hn
      · rw [hother j hji] at hn
        rw [hmem d j hj hdf fun _ => hji]
        exact h.absent j hj hn
    · obtain rfl | hji := eq_or_ne j i
      · obtain rfl := Option.some.inj (hself.symm.trans hg)
        exact hentry
      · rw [hother j hji] at hg
        rw [hmem d j hj hdf fun _ => hji]
        exact h.present j hj g hg
    · obtain rfl | hji := eq_or_ne j i
      · obtain rfl := Option.some.inj (hself.symm.trans hg)
        exact ⟨.head held, hdf.symm⟩
      · rw [hother j hji] at hg
        exact ⟨.tail f (h.tableHeld j g hg).1, (h.tableHeld j g hg).2⟩
    · -- the new frame is none of the old ones
      have hold : ∀ l, l ≠ i → Function.update t i (some f) l = some g → g ≠ f := by
        intro l hl hlg
        rw [hother l hl] at hlg
        exact fun he => hfresh (he ▸ (h.tableHeld l g hlg).1)
      obtain rfl | hji := eq_or_ne j i
      · by_contra hkj
        exact hold k (Ne.symm hkj) hk (Option.some.inj (hself.symm.trans hj)).symm
      · obtain rfl | hki := eq_or_ne k i
        · exact absurd (Option.some.inj (hself.symm.trans hk)).symm (hold j hji hj)
        · rw [hother j hji] at hj
          rw [hother k hki] at hk
          exact h.apart j k g hj hk
  refine ⟨htables, fun q hq => ?_⟩
  rw [htables.walk hq, h.walk hq]
  split
  · rename_i hqi
    rw [hqi, hself, Option.bind_some]
  · rename_i hqi
    rw [hother _ hqi]
    cases hg : t (q / 1024) with
    | none => rfl
    | some g =>
      obtain ⟨hheld, hgd⟩ := h.tableHeld _ g hg
      refine congrArg decodeEntry (hmem g _ (by omega) (fun he => hfresh (he ▸ hheld)) fun he => ?_)
      exact absurd he hgd

end

/-! ## Mapping a page -/

section

variable {d : Nat} {t : Nat → Option Nat} {held : List Nat} {s : Vmm}

theorem clearPage_entryWord (mem : PhysMem) {f g j : Nat} (hf : f < 2 ^ 20) (hj : j < 1024) :
    clearPage mem (BitVec.ofNat 32 (f * 4096)) (entryWord g j) =
      if g = f then 0 else mem (entryWord g j) := by
  have hbase := tableWord hf 0
  simp only [Nat.add_zero] at hbase
  simp only [clearPage, hbase]
  have hiff : (entryWord f 0 ≤ entryWord g j ∧ entryWord g j < entryWord f 0 + 1024) ↔ g = f := by
    unfold entryWord
    omega
  simp only [hiff]

theorem storeEntry_eq {mem : PhysMem} {f : Nat} (hf : f < 2 ^ 20) (i : Nat) (w : BitVec 32) :
    storeEntry mem (BitVec.ofNat 32 (f * 4096)) i w = Function.update mem (entryWord f i) w := by
  rw [storeEntry, tableWord hf]

theorem decodeEntry_zero : decodeEntry 0 = none := by decide

/-- The head of `vmm_map` finds or makes the table and changes no translation. -/
theorem Tables.findTable (h : Tables d t held s) {i : Nat} (hi : i < 1024)
    (havail : loadEntry s.mem s.kernelPageDirectory i &&& 1 ≠ 0 ∨ (allocateFrame s.pmm).1 ≠ 0) :
    ∃ f s' t' held', tableEntry s i = some (pageEntry f 0x3, s') ∧ Tables d t' held' s' ∧
      t' i = some f ∧ ∀ q < 2 ^ 20, translate s' q = translate s q := by
  have hd := h.lt h.dirHeld
  have hload : loadEntry s.mem s.kernelPageDirectory i = s.mem (entryWord d i) := by
    rw [loadEntry, h.dir, tableWord hd]
  rw [hload] at havail
  unfold tableEntry
  rw [hload]
  cases ht : t i with
  | some f =>
    refine ⟨f, s, t, held, ?_, h, ht, fun _ _ => rfl⟩
    rw [h.present i hi f ht]
    exact if_neg (pageEntry_present (by decide))
  | none =>
    have habsent := h.absent i hi ht
    obtain ⟨f, haddr, hfresh, hbooks⟩ := h.books.allocate (havail.resolve_left (not_not.mpr habsent))
    have hf := hbooks.lt (.head held)
    have hne : ¬ (allocateFrame s.pmm).1 = 0 := havail.resolve_left (not_not.mpr habsent)
    obtain ⟨mem, hmem⟩ : ∃ mem, mem = Function.update
      (clearPage s.mem (BitVec.ofNat 32 (f * 4096))) (entryWord d i) (pageEntry f 0x3) := ⟨_, rfl⟩
    have hdf : d ≠ f := fun he => hfresh (he ▸ h.dirHeld)
    have hother : ∀ g j, j < 1024 → (g = d → j ≠ i) → mem (entryWord g j) =
        if g = f then 0 else s.mem (entryWord g j) := by
      intro g j hj hgd
      have hne' : entryWord g j ≠ entryWord d i := by
        intro he
        obtain ⟨rfl, rfl⟩ := entryWord_inj hj hi he
        exact hgd rfl rfl
      rw [hmem, Function.update_of_ne hne', clearPage_entryWord _ hf hj]
    obtain ⟨htables, htrans⟩ := h.addTable (i := i) (f := f)
      (u := { s with pmm := (allocateFrame s.pmm).2, mem := mem }) hfresh hbooks rfl
      (by rw [hmem]; exact Function.update_self _ _ _)
      (fun g j hj hg hgd => (hother g j hj hgd).trans (if_neg hg))
    refine ⟨f, _, _, _, ?_, htables, Function.update_self _ _ _, fun q hq => ?_⟩
    · have hclear : s.mem (entryWord d i) &&& 1 = 0 := habsent
      have hnew : f * 4096 ≠ 0 := haddr ▸ hne
      simp only [if_pos hclear, haddr, if_neg hnew, pageAddress_and_frameMask hf, h.dir,
        storeEntry_eq hd, loadEntry, tableWord hd, hmem]
      rw [show BitVec.ofNat 32 (f * 4096) ||| 3 = pageEntry f 3 from rfl, Function.update_self]
    · rw [htrans q hq]
      split
      · -- a page of the new table was not present and is not
        rename_i hqi
        have hzero : mem (entryWord f (q % 1024)) = 0 :=
          (hother f _ (by omega) fun he => absurd he.symm hdf).trans (if_pos rfl)
        rw [h.walk hq, hqi, ht]
        exact (congrArg decodeEntry hzero).trans decodeEntry_zero
      · rfl

/-- **`vmm_map` maps one page.** -/
theorem Tables.mapPage (h : Tables d t held s) {v : BitVec 32} (havail : Available s v)
    (p : BitVec 32) (rw : Bool) :
    ∃ t' held', Tables d t' held' (vmmMap s v p rw) ∧ ∀ q < 2 ^ 20,
      translate (vmmMap s v p rw) q =
        if q = v.toNat / 4096 then some (p.toNat / 4096, rw) else translate s q := by
  have hv := v.isLt
  have hp := p.isLt
  unfold Available at havail
  rw [pdIndex_eq] at havail
  obtain ⟨f, s', t', held', hentry, htables, ht', htrans⟩ := h.findTable (by omega) havail
  have hf := htables.lt (htables.tableHeld _ f ht').1
  have hmap : vmmMap s v p rw =
      { s' with
        mem := Function.update s'.mem (entryWord f (v.toNat / 4096 % 1024))
          (pageEntry (p.toNat / 4096) (if rw then 0x3 else 0x1)) } := by
    simp only [vmmMap, pdIndex_eq, ptIndex_eq, hentry]
    rw [pageEntry_and_frameMask f (by decide), storeEntry_eq hf, and_frameMask_eq p]
    rfl
  obtain ⟨hstored, hstoredTrans⟩ := htables.store (u := vmmMap s v p rw)
    (k := v.toNat / 4096 % 1024) (w := pageEntry (p.toNat / 4096) (if rw then 0x3 else 0x1)) ht'
    (by omega) (by rw [hmap]) (by rw [hmap]) (by rw [hmap])
  refine ⟨t', held', hstored, fun q hq => ?_⟩
  have hidx : v.toNat / 4096 / 1024 * 1024 + v.toNat / 4096 % 1024 = v.toNat / 4096 := by omega
  rw [hstoredTrans q hq, htrans q hq, decodeEntry_pageEntry (by omega), hidx]

end

/-! ## Mapping a range -/

section

variable {d : Nat} {t : Nat → Option Nat} {held : List Nat} {s : Vmm} {v p size : BitVec 32}

/-- Rounding up to whole pages does not leave 32 bits. -/
def Rounds (v size : BitVec 32) : Prop := size.toNat + v.toNat % 4096 + 4095 < 2 ^ 32

theorem and_pageMask_eq (v : BitVec 32) : (v &&& pageMask).toNat = v.toNat % 4096 := by
  rw [BitVec.toNat_and, show pageMask.toNat = 2 ^ 12 - 1 from rfl, Nat.and_two_pow_sub_one_eq_mod]

theorem pageCount_eq (h : Rounds v size) :
    pageCount v size = (size.toNat + v.toNat % 4096 + 4095) / 4096 := by
  unfold Rounds at h
  have hoff := and_pageMask_eq v
  rw [pageCount, BitVec.toNat_udiv, BitVec.toNat_sub, BitVec.toNat_add, BitVec.toNat_add, hoff]
  change ((2 ^ 32 - 1 + ((size.toNat + v.toNat % 4096) % 2 ^ 32 + 4096) % 2 ^ 32) % 2 ^ 32) / 4096 = _
  omega

theorem rangeAddress_eq {k : Nat} (h : v.toNat / 4096 * 4096 + k * 4096 < 2 ^ 32) :
    ((v &&& ~~~pageMask) + BitVec.ofNat 32 k * 4096).toNat / 4096 = v.toNat / 4096 + k := by
  have hmask : ~~~pageMask = frameMask := by decide
  have hv := v.isLt
  rw [hmask, and_frameMask_eq, BitVec.toNat_add, toNat_pageAddress (by omega), BitVec.toNat_mul,
    BitVec.toNat_ofNat]
  change (v.toNat / 4096 * 4096 + k % 2 ^ 32 * 4096 % 2 ^ 32) % 2 ^ 32 / 4096 = _
  omega

/-- **The pages of a range**, mapped one after the other. -/
theorem Tables.mapRange (h : Tables d t held s) (hround : Rounds v size)
    (hv : v.toNat + size.toNat ≤ 2 ^ 32) (hp : p.toNat + size.toNat ≤ 2 ^ 32)
    (hoff : v.toNat % 4096 = p.toNat % 4096) (rw : Bool)
    (havail : ∀ page < pageCount v size, Available ((List.range page).foldl (mapRangePage v p rw) s)
      ((v &&& ~~~pageMask) + BitVec.ofNat 32 page * 4096)) :
    ∀ n ≤ pageCount v size, ∃ t' held', Tables d t' held'
        ((List.range n).foldl (mapRangePage v p rw) s) ∧
      ∀ q < 2 ^ 20, translate ((List.range n).foldl (mapRangePage v p rw) s) q =
        if v.toNat / 4096 ≤ q ∧ q < v.toNat / 4096 + n then
          some (p.toNat / 4096 + (q - v.toNat / 4096), rw)
        else translate s q := by
  intro n
  induction n with
  | zero =>
    intro _
    refine ⟨t, held, h, fun q _ => ?_⟩
    rw [if_neg (by omega)]
    rfl
  | succ n ih =>
    intro hn
    obtain ⟨t₁, held₁, htables, htrans⟩ := ih (by omega)
    obtain ⟨t₂, held₂, htables', htrans'⟩ := htables.mapPage (havail n (by omega))
      ((p &&& ~~~pageMask) + BitVec.ofNat 32 n * 4096) rw
    have hcount := pageCount_eq hround
    unfold Rounds at hround
    rw [rangeAddress_eq (by omega), rangeAddress_eq (by omega)] at htrans'
    rw [List.range_succ, List.foldl_append]
    refine ⟨t₂, held₂, htables', fun q hq => ?_⟩
    change translate (vmmMap _ _ _ _) q = _
    rw [htrans' q hq, htrans q hq]
    by_cases hlast : q = v.toNat / 4096 + n
    · rw [if_pos hlast, if_pos (by omega), hlast, Nat.add_sub_cancel_left]
    · rw [if_neg hlast]
      have hiff : (v.toNat / 4096 ≤ q ∧ q < v.toNat / 4096 + n) ↔
          (v.toNat / 4096 ≤ q ∧ q < v.toNat / 4096 + (n + 1)) := by omega
      simp only [hiff]

end

/-! ## The identity map -/

section

variable {d : Nat} {t : Nat → Option Nat} {held : List Nat} {s : Vmm}

theorem fillIdentityTable_entryWord (mem : PhysMem) {f i g j : Nat} (hf : f < 2 ^ 20)
    (hi : i < 1024) (hj : j < 1024) :
    fillIdentityTable mem (BitVec.ofNat 32 (f * 4096)) i (entryWord g j) =
      if g = f then pageEntry (i * 1024 + j) 0x3 else mem (entryWord g j) := by
  have hphys : ∀ k < 1024, (BitVec.ofNat 32 i * 0x400000 + BitVec.ofNat 32 k * 0x1000) &&& frameMask =
      BitVec.ofNat 32 ((i * 1024 + k) * 4096) := by
    intro k hk
    have h₁ : (0x400000 : BitVec 32).toNat = 1024 * 4096 := by decide
    have h₂ : (0x1000 : BitVec 32).toNat = 4096 := by decide
    have hnat : (BitVec.ofNat 32 i * 0x400000 + BitVec.ofNat 32 k * 0x1000).toNat =
        (i * 1024 + k) * 4096 := by
      rw [BitVec.toNat_add, BitVec.toNat_mul, BitVec.toNat_mul, BitVec.toNat_ofNat,
        BitVec.toNat_ofNat, h₁, h₂]
      omega
    rw [and_frameMask_eq, hnat, Nat.mul_div_cancel _ (by decide)]
  -- the first `n` entries are filled
  have hloop : ∀ n ≤ 1024, (List.range n).foldl (fun mem k =>
      storeEntry mem (BitVec.ofNat 32 (f * 4096)) k
        (((BitVec.ofNat 32 i * 0x400000 + BitVec.ofNat 32 k * 0x1000) &&& frameMask) ||| 0x03)) mem
        (entryWord g j) =
      if g = f ∧ j < n then pageEntry (i * 1024 + j) 0x3 else mem (entryWord g j) := by
    intro n
    induction n with
    | zero => simp
    | succ n ih =>
      intro hn
      rw [List.range_succ, List.foldl_append, List.foldl_cons, List.foldl_nil, storeEntry_eq hf,
        hphys n (by omega)]
      by_cases heq : entryWord g j = entryWord f n
      · obtain ⟨rfl, rfl⟩ := entryWord_inj hj (by omega) heq
        rw [Function.update_self, if_pos ⟨rfl, by omega⟩]
        rfl
      · rw [Function.update_of_ne heq, ih (by omega)]
        have hiff : (g = f ∧ j < n) ↔ (g = f ∧ j < n + 1) := by
          constructor
          · exact fun h => ⟨h.1, by omega⟩
          · rintro ⟨rfl, hlt⟩
            refine ⟨rfl, Nat.lt_of_le_of_ne (by omega) fun he => heq (by rw [he])⟩
        simp only [hiff]
  have hfull := hloop 1024 le_rfl
  simp only [hj, and_true] at hfull
  exact hfull

theorem Tables.addIdentityTable (h : Tables d t held s) {i : Nat} (hi : i < 1024)
    (hne : (allocateFrame s.pmm).1 ≠ 0) :
    ∃ t' held', Tables d t' held' (addIdentityTable s i) ∧ ∀ q < 2 ^ 20,
      translate (Paging.addIdentityTable s i) q =
        if q / 1024 = i then some (q, true) else translate s q := by
  obtain ⟨f, haddr, hfresh, hbooks⟩ := h.books.allocate hne
  have hf := hbooks.lt (.head held)
  have hd := h.lt h.dirHeld
  have hdf : d ≠ f := fun he => hfresh (he ▸ h.dirHeld)
  have hmem : (Paging.addIdentityTable s i).mem = Function.update
      (fillIdentityTable (clearPage s.mem (BitVec.ofNat 32 (f * 4096)))
        (BitVec.ofNat 32 (f * 4096)) i) (entryWord d i) (pageEntry f 0x3) := by
    simp only [Paging.addIdentityTable, haddr, h.dir, storeEntry_eq hd, pageAddress_and_frameMask hf]
    rfl
  have hword : ∀ g j, j < 1024 → (g = d → j ≠ i) →
      (Paging.addIdentityTable s i).mem (entryWord g j) =
        if g = f then pageEntry (i * 1024 + j) 0x3 else s.mem (entryWord g j) := by
    intro g j hj hgd
    have hne' : entryWord g j ≠ entryWord d i := by
      intro he
      obtain ⟨rfl, rfl⟩ := entryWord_inj hj hi he
      exact hgd rfl rfl
    rw [hmem, Function.update_of_ne hne', fillIdentityTable_entryWord _ hf hi hj,
      clearPage_entryWord _ hf hj]
    split <;> rfl
  obtain ⟨htables, htrans⟩ := h.addTable (u := Paging.addIdentityTable s i) hfresh hbooks rfl
    (by rw [hmem]; exact Function.update_self _ _ _)
    (fun g j hj hg hgd => (hword g j hj hgd).trans (if_neg hg))
  refine ⟨_, _, htables, fun q hq => ?_⟩
  rw [htrans q hq]
  split
  · rename_i hqi
    have hentry := (hword f (q % 1024) (by omega) fun he => absurd he.symm hdf).trans (if_pos rfl)
    have hpage : i * 1024 + q % 1024 = q := by omega
    rw [hentry, hpage]
    exact decodeEntry_pageEntry hq true
  · rfl

/-- **`vmm_init` maps the first 32 MiB to themselves.** -/
theorem tables_vmmInit {pmm : PhysicalMemoryManager} (hbooks : Books pmm held)
    (havail : InitAvailable pmm) (mem : PhysMem) :
    ∃ d t held', Tables d t held' (vmmInit pmm mem) ∧ ∀ q < 2 ^ 20,
      translate (vmmInit pmm mem) q =
        if q < identityTables * 1024 then some (q, true) else none := by
  obtain ⟨d, haddr, -, hbooks'⟩ := hbooks.allocate (havail 0 (by decide))
  have hd := hbooks'.lt (.head held)
  have hstart : Tables d (fun _ => none) (d :: held) ⟨(allocateFrame pmm).2,
      clearPage mem (BitVec.ofNat 32 (d * 4096)), BitVec.ofNat 32 (d * 4096)⟩ := by
    refine ⟨hbooks', rfl, .head held, fun i hi _ => ?_, nofun, nofun, nofun⟩
    change clearPage mem _ _ &&& _ = 0
    rw [clearPage_entryWord _ hd hi, if_pos rfl]
    decide
  obtain ⟨start, hinit⟩ : ∃ start, start = Vmm.mk (allocateFrame pmm).2
      (clearPage mem (BitVec.ofNat 32 (d * 4096))) (BitVec.ofNat 32 (d * 4096)) := ⟨_, rfl⟩
  rw [← hinit] at hstart
  -- one table after the other
  have hloop : ∀ n ≤ identityTables,
      ((List.range n).foldl addIdentityTable start).pmm =
        (fun m => (allocateFrame m).2)^[n + 1] pmm ∧
      ∃ t' held', Tables d t' held' ((List.range n).foldl Paging.addIdentityTable start) ∧
        ∀ q < 2 ^ 20, translate ((List.range n).foldl Paging.addIdentityTable start) q =
          if q < n * 1024 then some (q, true) else none := by
    intro n
    induction n with
    | zero =>
      intro _
      refine ⟨by rw [hinit]; rfl, _, _, hstart, fun q hq => ?_⟩
      have hwalk := hstart.walk hq
      rw [if_neg (by omega)]
      exact hwalk
    | succ n ih =>
      intro hn
      obtain ⟨hpmm, t₁, held₁, htables, htrans⟩ := ih (by omega)
      obtain ⟨t₂, held₂, htables', htrans'⟩ := htables.addIdentityTable (i := n)
        (by simp only [identityTables] at hn; omega) (by rw [hpmm]; exact havail (n + 1) hn)
      rw [List.range_succ, List.foldl_append]
      refine ⟨?_, t₂, held₂, htables', fun q hq => ?_⟩
      · rw [Function.iterate_succ_apply', ← hpmm]
        rfl
      · change translate (Paging.addIdentityTable _ n) q = _
        rw [htrans' q hq, htrans q hq]
        by_cases hqn : q / 1024 = n
        · rw [if_pos hqn, if_pos (by omega)]
        · rw [if_neg hqn]
          have hiff : q < n * 1024 ↔ q < (n + 1) * 1024 := by omega
          simp only [hiff]
  obtain ⟨-, t', held', htables, htrans⟩ := hloop identityTables le_rfl
  have heq : vmmInit pmm mem = (List.range identityTables).foldl Paging.addIdentityTable start := by
    simp only [vmmInit, haddr, hinit]
  rw [heq]
  exact ⟨d, t', held', htables, htrans⟩

end

/-! ## Runs -/

/-- A range whose size, rounded up to whole pages, is computed without
overflow. -/
def RoundsUp : Call → Prop
  | .map _ _ _ => True
  | .mapRange v _ size _ => Rounds v size

theorem Tables.call {d : Nat} {t : Nat → Option Nat} {held : List Nat} {s : Vmm} {c : Call}
    (h : Tables d t held s) (hc : c.Allowed s) (hround : RoundsUp c) :
    ∃ t' held', Tables d t' held' (c.run s) ∧ ∀ q < 2 ^ 20,
      translate (c.run s) q = (Call.expects q c).or (translate s q) := by
  cases c with
  | map v p rw =>
    obtain ⟨t', held', htables, htrans⟩ := h.mapPage hc p rw
    refine ⟨t', held', htables, fun q hq => (htrans q hq).trans ?_⟩
    rw [Call.expects]
    by_cases hpage : q = v.toNat / pageSize
    · rw [if_pos hpage, Option.some_or]
      exact if_pos hpage
    · rw [if_neg hpage, Option.none_or]
      exact if_neg hpage
  | mapRange v p size rw =>
    obtain ⟨hoff, hv, hp, havail⟩ := hc
    by_cases hsize : size = 0
    · refine ⟨t, held, ?_, fun q _ => ?_⟩
      · rw [Call.run, vmmMapRange, if_pos hsize]
        exact h
      · rw [Call.run, vmmMapRange, if_pos hsize, Call.expects, if_neg (by simp [hsize])]
        rfl
    · have heq : v &&& pageMask = p &&& pageMask := by
        refine BitVec.eq_of_toNat_eq ?_
        rw [and_pageMask_eq, and_pageMask_eq]
        exact hoff
      obtain ⟨t', held', htables, htrans⟩ := h.mapRange hround hv hp hoff rw havail _ le_rfl
      rw [Call.run, vmmMapRange, if_neg hsize, if_neg (not_not.mpr heq)]
      refine ⟨t', held', htables, fun q hq => (htrans q hq).trans ?_⟩
      have hpos : 0 < size.toNat := by
        rw [Nat.pos_iff_ne_zero]
        exact fun hz => hsize (BitVec.eq_of_toNat_eq hz)
      have hcount := pageCount_eq hround
      -- the pages of the range are those that meet it
      have hiff : (v.toNat / 4096 ≤ q ∧ q < v.toNat / 4096 + pageCount v size) ↔
          (q * pageSize < v.toNat + size.toNat ∧ v.toNat < (q + 1) * pageSize ∧ size ≠ 0) := by
        simp only [hcount, pageSize, ne_eq, hsize, not_false_eq_true, and_true]
        omega
      simp only [Call.expects, hiff]
      split
      · rw [Option.some_or]
        rfl
      · rw [Option.none_or]

theorem reached_tables {s : Vmm} {calls : List Call} (h : Reached s calls)
    (hround : ∀ c ∈ calls, RoundsUp c) :
    ∃ d t held, Tables d t held s ∧ ∀ q < 2 ^ 20, translate s q = mapping calls q := by
  induction h with
  | init fits runs available mem =>
    obtain ⟨-, ht⟩ := fits.framesOf_eq
    have hinv := (inv_initializeManager fits _).runs ht fits.reserved.1 runs
    exact tables_vmmInit ⟨_, _, ht, fits.reserved.1, hinv⟩ available mem
  | call _ c allowed ih =>
    obtain ⟨d, t, held, htables, htrans⟩ := ih fun c' hc' => hround c' (.tail c hc')
    obtain ⟨t', held', htables', htrans'⟩ := htables.call allowed (hround c (.head _))
    refine ⟨d, t', held', htables', fun q hq => ?_⟩
    rw [htrans' q hq, htrans q hq]
    rfl

/-- **The page tables are the map of the calls**, in every run whose ranges
round up within 32 bits: the walk gives each page what the last call covering
it said, the page itself when no call covers it and it lies below 32 MiB, and
nothing otherwise. -/
theorem page_tables_refine_mapping {s : Vmm} {calls : List Call} (h : Reached s calls)
    (hround : ∀ c ∈ calls, RoundsUp c) {page : Nat} (hpage : page < 2 ^ 20) :
    translate s page = mapping calls page := by
  obtain ⟨-, -, -, -, htrans⟩ := reached_tables h hround
  exact htrans page hpage

theorem initAvailable_example : InitAvailable (initializeManager 15360 0x200000 fun _ => 0) := by
  intro n hn
  have hstart := prefix_initializeManager 15360 0x200000 fun _ => 0
  rw [endsBeforeHeap_example.2.1, endsBeforeHeap_example.2.2] at hstart
  have hlt : n ≤ 8 := hn
  have hnext := (hstart.iterate (by decide) n (by omega)).allocateFrame (by decide)
  rw [hnext.1, if_pos (by omega)]
  exact Nat.mul_ne_zero (by omega) (by decide)

theorem reached_example (mem : PhysMem) :
    Reached (vmmInit (initializeManager 15360 0x200000 fun _ => 0) mem) [] :=
  .init fits_example .start initAvailable_example mem

theorem available_of_translate {s : Vmm} {v : BitVec 32} {r : Nat × Bool}
    (h : translate s (v.toNat / 4096) = some r) : Available s v := by
  refine .inl fun habsent => ?_
  rw [pdIndex_eq] at habsent
  have hpde : loadEntry s.mem s.kernelPageDirectory (v.toNat / 4096 / 1024) &&& presentFlag = 0 :=
    habsent
  simp only [Paging.translate, if_pos hpde] at h
  cases h

/-- Page 1 is mapped to page 5, for reading. -/
theorem page_tables_refine_mapping_example :
    translate (vmmMap (vmmInit (initializeManager 15360 0x200000 fun _ => 0) fun _ => 0)
      0x1000 0x5000 false) 1 = some (5, false) := by
  have hpresent : translate (vmmInit (initializeManager 15360 0x200000 fun _ => 0) fun _ => 0) 1 =
      some (1, true) :=
    page_tables_refine_mapping (reached_example _) (by simp) (by decide)
  have hreached := (reached_example fun _ => 0).call (.map 0x1000 0x5000 false)
    (available_of_translate hpresent)
  exact page_tables_refine_mapping hreached (by simp [RoundsUp]) (by decide)

/-- The whole address space is to be mapped for reading: the size rounded up
wraps to 0, and no page is mapped. -/
theorem whole_space_is_not_mapped :
    ¬ ∀ s calls, Reached s calls → ∀ page < 2 ^ 20, translate s page = mapping calls page := by
  intro h
  have hallowed : (Call.mapRange 0 0 0xFFFFFFFF false).Allowed
      (vmmInit (initializeManager 15360 0x200000 fun _ => 0) fun _ => 0) := by
    have hcount : pageCount 0 0xFFFFFFFF = 0 := by decide
    refine ⟨rfl, by decide, by decide, fun page hlt => ?_⟩
    rw [hcount] at hlt
    omega
  have hwalk := h _ _ ((reached_example fun _ => 0).call _ hallowed) 0 (by decide)
  have hrun : (Call.mapRange 0 0 0xFFFFFFFF false).run
      (vmmInit (initializeManager 15360 0x200000 fun _ => 0) fun _ => 0) =
        vmmInit (initializeManager 15360 0x200000 fun _ => 0) fun _ => 0 := by
    have hcount : pageCount 0 0xFFFFFFFF = 0 := by decide
    rw [Call.run, vmmMapRange, if_neg (by decide), if_neg (by decide), hcount, List.range_zero,
      List.foldl_nil]
  obtain ⟨-, -, -, -, htrans⟩ := reached_tables (reached_example fun _ => 0) (by simp)
  rw [hrun, htrans 0 (by decide)] at hwalk
  exact absurd hwalk (by decide)

end ContinuumOS.Mem.Translation
