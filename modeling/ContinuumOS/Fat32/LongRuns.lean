import ContinuumOS.Fat32.LongName

/-! # Runs of long-name slots

The scan counts the slots of a long name. What it takes for the run of an entry is
found between the last flagged slot and the entry; the count does not tell whether
each number is there once, and the checksum of the last slot only is compared. -/
namespace ContinuumOS.Fat32.LongRuns
open ContinuumOS.Lib.Memory ContinuumOS.Libc.String ContinuumOS.Fat32.Volume
open ContinuumOS.Fat32.Names ContinuumOS.Fat32.Directory ContinuumOS.Fat32.Scan
open ContinuumOS.Fat32.LongName ContinuumOS.Fat32.Device

/-- `seq`, of the order byte. -/
def number (s : Buf) : Nat := (s 0 &&& 0x1F).toNat

/-- The first slot of a run is flagged with `0x40`. -/
def Flagged (s : Buf) : Prop := s 0 &&& 0x40 ≠ 0

instance (s : Buf) : Decidable (Flagged s) := inferInstanceAs (Decidable (_ ≠ _))

/-- The slots of a complete long name: their order bytes count down to 1 from a flagged
number of five bits, and each has the checksum of the short name. -/
structure Complete (run : List Buf) (short : ShortName) : Prop where
  long : ∀ s ∈ run, slotKind s = .longName
  length : 0 < run.length ∧ run.length < 32
  orders : ∀ i s, run[i]? = some s →
    s 0 = if i = 0 then UInt8.ofNat run.length ||| 0x40 else UInt8.ofNat (run.length - i)
  checksums : ∀ s ∈ run, lfnChecksumOf s = fat32LfnChecksum short

/-- A complete run stands directly before an entry. -/
def HasCompleteRun (before : List Placed) (e : Buf) : Prop :=
  ∃ front run, before = front ++ run ∧ Complete (run.map Placed.slot) (slotName e)

/-- Without a complete run before it, an entry is reported under its short name. -/
def Honest (before : List Placed) (e : Buf) (info : FileInfo) : Prop :=
  ¬ HasCompleteRun before e → info.hasLongName = false ∧ info.filename = info.shortName

/-- A flagged slot and slots that are not, with numbers up to `total`, the flagged one. -/
structure Counted (run : List Buf) (total : Nat) : Prop where
  long : ∀ s ∈ run, slotKind s = .longName
  numbers : ∀ s ∈ run, 1 ≤ number s ∧ number s ≤ total
  flagged : ∃ s rest, run = s :: rest ∧ Flagged s ∧ number s = total ∧ ∀ t ∈ rest, ¬ Flagged t

/-- The last slot with number 1. -/
def textSlot (run : List Buf) : Option Buf := run.reverse.find? fun s => number s == 1

/-- The first character of a slot does not end the text. -/
def StartsText (s : Buf) : Prop := ¬ (lfnUnit s 0 = 0xFFFF ∨ lfnUnit s 0 = 0)

/-- As many slots as the flagged number says; the last one fits the entry, and the last
one with number 1 starts a text. -/
structure Passes (run : List Buf) (short : ShortName) : Prop where
  counted : Counted run run.length
  checksum : run.getLast?.map lfnChecksumOf = some (fat32LfnChecksum short)
  text : ∃ s, textSlot run = some s ∧ StartsText s

/-- What the count does not tell: a number that is not below the one before it, a stray
bit in an order byte, a slot with the checksum of another name. -/
def Mixed (run : List Buf) (short : ShortName) : Prop :=
  ¬ (run.map number).Pairwise (· > ·) ∨ (∃ s ∈ run, s 0 &&& 0xA0 ≠ 0) ∨
    ∃ s ∈ run, lfnChecksumOf s ≠ fat32LfnChecksum short

/-- A run that is counted for the entry although it is mixed. -/
def TakesMixedRun (before : List Placed) (e : Buf) : Prop :=
  ∃ front run, before = front ++ run ∧ Passes (run.map Placed.slot) (slotName e) ∧
    Mixed (run.map Placed.slot) (slotName e)

/-- What the state holds of the counted slots. -/
structure Tracks (st : Lfn) (run : List Buf) (total : Nat) : Prop where
  expected : st.expected = total
  collected : st.collected = run.length
  checksum : run.getLast?.map lfnChecksumOf = some st.checksum
  text : st.name 0 ≠ 0 ↔ ∃ s, textSlot run = some s ∧ StartsText s

/-- The state behind slots: none of them counts, or those behind the flagged one do. -/
def Follows (before : List Buf) (st : Lfn) : Prop :=
  (st.expected = 0 ∧ ∀ front run total, before = front ++ run → ¬ Counted run total) ∨
    ∃ front run total, before = front ++ run ∧ Counted run total ∧ Tracks st run total

section

variable {run run' front front' before : List Buf} {total total' : Nat} {st : Lfn} {e s : Buf}
  {short : ShortName}

/-! ## The text -/

theorem chunkToAscii_behind : ∀ (units : List Nat) (dest : Buf) (written : Nat), 0 < written →
    fat32Utf16leChunkToAscii dest units written 0 = dest 0
  | [], dest, written, hpos => by
    rw [fat32Utf16leChunkToAscii]
    split
    · exact writeByte_outside (by omega)
    · exact writeByte_outside (by decide)
  | ch :: units, dest, written, hpos => by
    rw [fat32Utf16leChunkToAscii]
    split
    · split
      · exact writeByte_outside (by omega)
      · exact (chunkToAscii_behind units _ _ (by omega)).trans (writeByte_outside (by omega))
    split
    · exact writeByte_outside (by omega)
    · exact writeByte_outside (by decide)

theorem chunkToAscii_first (dest : Buf) (ch : Nat) (units : List Nat) :
    fat32Utf16leChunkToAscii dest (ch :: units) 0 0 ≠ 0 ↔ ¬ (ch = 0xFFFF ∨ ch = 0) := by
  rw [fat32Utf16leChunkToAscii, if_pos (by decide)]
  by_cases hend : ch = 0xFFFF ∨ ch = 0
  · rw [if_pos hend, writeByte_same]
    exact ⟨fun h => absurd rfl h, fun h => absurd hend h⟩
  · rw [if_neg hend, chunkToAscii_behind _ _ _ (by decide), writeByte_same]
    refine ⟨fun _ => hend, fun _ => ?_⟩
    split
    · rename_i hascii
      intro hzero
      have hnat := congrArg UInt8.toNat hzero
      rw [UInt8.toNat_ofNat', UInt8.toNat_zero] at hnat
      omega
    · decide

/-! ## Counting -/

theorem textSlot_append (run : List Buf) (s : Buf) :
    textSlot (run ++ [s]) = if number s = 1 then some s else textSlot run := by
  rw [textSlot, List.reverse_append, List.reverse_singleton, List.singleton_append,
    List.find?_cons]
  by_cases hone : number s = 1
  · rw [if_pos hone, beq_iff_eq.mpr hone]
  · rw [if_neg hone, beq_false_of_ne hone]
    rfl

theorem counted_unique (h : front ++ run = front' ++ run') (hc : Counted run total)
    (hc' : Counted run' total') : run = run' := by
  obtain ⟨s, rest, rfl, hs, -, hrest⟩ := hc.flagged
  obtain ⟨s', rest', rfl, hs', -, hrest'⟩ := hc'.flagged
  rcases List.append_eq_append_iff.mp h with ⟨mid, -, hmid⟩ | ⟨mid, -, hmid⟩
  · cases mid with
    | nil => exact hmid
    | cons t mid =>
      obtain ⟨-, hin⟩ := List.cons.inj hmid
      exact absurd hs' (hrest s' (hin ▸ List.mem_append_right _ List.mem_cons_self))
  · cases mid with
    | nil => exact hmid.symm
    | cons t mid =>
      obtain ⟨-, hin⟩ := List.cons.inj hmid
      exact absurd hs (hrest' s (hin ▸ List.mem_append_right _ List.mem_cons_self))

theorem Counted.ne_nil (hc : Counted run total) : run ≠ [] := by
  obtain ⟨s, rest, rfl, -⟩ := hc.flagged
  exact List.cons_ne_nil s rest

theorem Counted.total_unique (hc : Counted run total) (hc' : Counted run total') :
    total = total' := by
  obtain ⟨s, rest, rfl, -, htotal, -⟩ := hc.flagged
  obtain ⟨s', rest', hrun, -, htotal', -⟩ := hc'.flagged
  rw [← htotal, ← htotal', (List.cons.inj hrun).1]

theorem Counted.last (hc : Counted run total) (h : before ++ [s] = front ++ run) :
    slotKind s = .longName ∧ (1 ≤ number s ∧ number s ≤ total) ∧
      (¬ Flagged s → ∃ run', run = run' ++ [s] ∧ before = front ++ run' ∧ Counted run' total) := by
  obtain ⟨run', last, hrun⟩ := (List.eq_nil_or_concat run).resolve_left hc.ne_nil
  rw [List.concat_eq_append] at hrun
  subst hrun
  rw [← List.append_assoc] at h
  obtain ⟨rfl, hlast⟩ := List.append_inj' h rfl
  obtain rfl := (List.cons.inj hlast).1
  have hin : s ∈ run' ++ [s] := List.mem_append_right _ List.mem_cons_self
  refine ⟨hc.long s hin, hc.numbers s hin, fun hplain => ⟨run', rfl, rfl, ?_⟩⟩
  obtain ⟨t, rest, hrun, ht, hnumber, hrest⟩ := hc.flagged
  refine ⟨fun q hq => hc.long q (List.mem_append_left _ hq),
    fun q hq => hc.numbers q (List.mem_append_left _ hq), ?_⟩
  cases run' with
  | nil =>
    obtain ⟨rfl, -⟩ := List.cons.inj hrun
    exact absurd ht hplain
  | cons t' rest' =>
    obtain ⟨rfl, rfl⟩ := List.cons.inj hrun
    exact ⟨t', rest', rfl, ht, hnumber, fun q hq => hrest q (List.mem_append_left _ hq)⟩

theorem Counted.add (hc : Counted run total) (hlong : slotKind s = .longName)
    (hnumber : 1 ≤ number s ∧ number s ≤ total) (hplain : ¬ Flagged s) :
    Counted (run ++ [s]) total := by
  obtain ⟨t, rest, rfl, ht, htotal, hrest⟩ := hc.flagged
  refine ⟨fun q hq => ?_, fun q hq => ?_, t, rest ++ [s], rfl, ht, htotal, fun q hq => ?_⟩
  all_goals rcases List.mem_append.mp hq with hq | hq
  · exact hc.long q hq
  · rwa [List.mem_singleton.mp hq]
  · exact hc.numbers q hq
  · rwa [List.mem_singleton.mp hq]
  · exact hrest q hq
  · rwa [List.mem_singleton.mp hq]

theorem counted_first (hlong : slotKind s = .longName) (hpos : number s ≠ 0) (hf : Flagged s) :
    Counted [s] (number s) := by
  refine ⟨fun q hq => ?_, fun q hq => ?_, s, [], rfl, hf, rfl, fun q hq => (by cases hq)⟩
  · rwa [List.mem_singleton.mp hq]
  · rw [List.mem_singleton.mp hq]
    omega

/-! ## What the state follows -/

theorem follows_reset {before : List Buf} {s : Buf} (st : Lfn)
    (hnone : ∀ front run total, before ++ [s] = front ++ run → ¬ Counted run total) :
    Follows (before ++ [s]) st.reset := .inl ⟨rfl, hnone⟩

theorem collected_text (hpos : number s ≠ 0) (dest : Buf) :
    fat32Utf16leChunkToAscii dest ((List.range 13).map (lfnUnit s)) ((number s - 1) * 13) 0 ≠ 0 ↔
      if number s = 1 then StartsText s else dest 0 ≠ 0 := by
  by_cases hone : number s = 1
  · rw [if_pos hone, hone]
    exact chunkToAscii_first dest _ _
  · rw [if_neg hone, chunkToAscii_behind _ _ _ (by omega)]

theorem startsText_some (s : Buf) :
    StartsText s ↔ ∃ t, some s = some t ∧ StartsText t := by
  refine ⟨fun h => ⟨s, rfl, h⟩, ?_⟩
  rintro ⟨t, hst, h⟩
  exact Option.some.inj hst ▸ h

theorem Tracks.add (ht : Tracks st run total) (hpos : number s ≠ 0) :
    Tracks { st with
      name := fat32Utf16leChunkToAscii st.name ((List.range 13).map (lfnUnit s))
        ((number s - 1) * 13)
      checksum := lfnChecksumOf s
      collected := st.collected + 1 } (run ++ [s]) total := by
  refine ⟨ht.expected, ?_, ?_, ?_⟩
  · rw [List.length_append, List.length_singleton, ← ht.collected]
  · rw [List.getLast?_concat]
    rfl
  · dsimp only
    rw [collected_text hpos, textSlot_append]
    split
    · exact startsText_some s
    · exact ht.text

theorem tracks_flagged (st : Lfn) (hpos : number s ≠ 0) :
    Tracks { st with
      name := fat32Utf16leChunkToAscii (fun _ => 0) ((List.range 13).map (lfnUnit s))
        ((number s - 1) * 13)
      expected := number s
      checksum := lfnChecksumOf s
      collected := 1 } [s] (number s) := by
  refine ⟨rfl, rfl, rfl, ?_⟩
  dsimp only
  rw [collected_text hpos, ← List.nil_append [s], textSlot_append]
  split
  · exact startsText_some s
  · refine ⟨fun h => absurd rfl h, ?_⟩
    rintro ⟨t, hst, -⟩
    cases hst

theorem collect_eq (st : Lfn) (s : Buf) : st.collect s =
    if number s = 0 then st.reset
    else if Flagged s then
      { st with
        name := fat32Utf16leChunkToAscii (fun _ => 0) ((List.range 13).map (lfnUnit s))
          ((number s - 1) * 13)
        expected := number s
        checksum := lfnChecksumOf s
        collected := 1 }
    else if st.expected < number s then st.reset
    else
      { st with
        name := fat32Utf16leChunkToAscii st.name ((List.range 13).map (lfnUnit s))
          ((number s - 1) * 13)
        checksum := lfnChecksumOf s
        collected := st.collected + 1 } := by
  rw [Lfn.collect]
  dsimp only
  refine ite_congr rfl (fun _ => rfl) fun _ => ?_
  by_cases hf : Flagged s
  · have hflag : s 0 &&& 0x40 ≠ 0 := hf
    rw [if_pos hf, if_pos hflag, if_neg (Nat.lt_irrefl _)]
    rfl
  · have hplain : ¬ s 0 &&& 0x40 ≠ 0 := hf
    rw [if_neg hf, if_neg hplain]
    rfl

/-- **One slot**: the state goes on following what counts. -/
theorem Follows.step (h : Follows before st) (s : Buf) :
    Follows (before ++ [s]) (lfnAfter st s) := by
  rw [lfnAfter]
  split
  swap
  · rename_i hkind
    exact follows_reset st fun front run total heq hc => hkind (hc.last heq).1
  rename_i hlong
  rw [collect_eq]
  split
  · rename_i hzero
    refine follows_reset st fun front run total heq hc => ?_
    have hpos := (hc.last heq).2.1.1
    omega
  rename_i hpos
  split
  · rename_i hf
    exact .inr ⟨before, [s], number s, rfl, counted_first hlong hpos hf, tracks_flagged st hpos⟩
  rename_i hplain
  split
  · rename_i hlarge
    refine follows_reset st fun front run total heq hc => ?_
    obtain ⟨-, hnumber, hrun⟩ := hc.last heq
    obtain ⟨run', -, hbefore, hc'⟩ := hrun hplain
    rcases h with ⟨-, hnone⟩ | ⟨front', tracked, total', hsplit, htracked, htracks⟩
    · exact hnone front run' total hbefore hc'
    · obtain rfl := counted_unique (hbefore.symm.trans hsplit) hc' htracked
      have htotal := hc'.total_unique htracked
      have hexpected := htracks.expected
      omega
  · rename_i hsmall
    rcases h with ⟨hzero, -⟩ | ⟨front, run, total, rfl, hc, htracks⟩
    · omega
    · have hexpected := htracks.expected
      exact .inr ⟨front, run ++ [s], total, List.append_assoc .., hc.add hlong (by omega) hplain,
        htracks.add hpos⟩

theorem Follows.names_iff (h : Follows before st) (e : Buf) :
    st.Names e ↔ ∃ front run, before = front ++ run ∧ Passes run (slotName e) := by
  rcases h with ⟨hzero, hnone⟩ | ⟨front, run, total, rfl, hc, ht⟩
  · constructor
    · rintro ⟨hpos, -⟩
      omega
    · rintro ⟨front, run, heq, hp⟩
      exact absurd hp.counted (hnone front run _ heq)
  have hchecksum := ht.checksum
  constructor
  · rintro ⟨-, hcount, hsum, htext⟩
    have htotal : total = run.length := by
      rw [← ht.expected, ← hcount, ht.collected]
    refine ⟨front, run, rfl, htotal ▸ hc, ?_, ht.text.mp htext⟩
    rw [hchecksum, hsum]
  · rintro ⟨front', run', heq, hp⟩
    obtain rfl := counted_unique heq hc hp.counted
    obtain rfl := hc.total_unique hp.counted
    have hlen := List.length_pos_of_ne_nil hc.ne_nil
    refine ⟨ht.expected ▸ hlen, ht.collected.trans ht.expected.symm, ?_, ht.text.mpr hp.text⟩
    exact Option.some.inj (hchecksum.symm.trans hp.checksum)

/-! ## Numbers that count down -/

theorem le_of_decreasing {bound : Nat} : ∀ {l : List Nat}, l.Pairwise (· > ·) →
    (∀ x ∈ l, x ≤ bound) → ∀ i x, l[i]? = some x → x + i ≤ bound := by
  intro l hl
  induction hl generalizing bound with
  | nil => intro _ i x hx; cases hx
  | @cons y l hy _ ih =>
    intro hbound i x hx
    have hhead := hbound y List.mem_cons_self
    cases i with
    | zero =>
      rw [List.getElem?_cons_zero] at hx
      exact Option.some.inj hx ▸ hhead
    | succ i =>
      rw [List.getElem?_cons_succ] at hx
      have hmem := List.mem_of_getElem? hx
      have hless := @ih (y - 1) (fun z hz => by have := hy z hz; omega) i x hx
      have := hy x hmem
      omega

theorem ge_of_decreasing : ∀ {l : List Nat}, l.Pairwise (· > ·) → (∀ x ∈ l, 1 ≤ x) →
    ∀ i x, l[i]? = some x → l.length ≤ x + i := by
  intro l hl
  induction hl with
  | nil => intro _ i x hx; cases hx
  | @cons y l hy _ ih =>
    intro hpos i x hx
    have ih := ih fun z hz => hpos z (List.mem_cons_of_mem y hz)
    rw [List.length_cons]
    cases i with
    | zero =>
      rw [List.getElem?_cons_zero] at hx
      obtain rfl := Option.some.inj hx
      cases l with
      | nil => exact hpos y List.mem_cons_self
      | cons z l =>
        have hnext := ih 0 z rfl
        have hless := hy z List.mem_cons_self
        omega
    | succ i =>
      rw [List.getElem?_cons_succ] at hx
      have hnext := ih i x hx
      omega

/-! ## Order bytes -/

theorem order_split (s : Buf) : s 0 &&& 0xA0 = 0 →
    s 0 = if Flagged s then UInt8.ofNat (number s) ||| 0x40 else UInt8.ofNat (number s) := by
  have hall : ∀ b : UInt8, b &&& 0xA0 = 0 →
      b = if b &&& 0x40 ≠ 0 then UInt8.ofNat (b &&& 0x1F).toNat ||| 0x40
        else UInt8.ofNat (b &&& 0x1F).toNat := forall_byte (by decide +kernel)
  exact hall (s 0)

theorem order_bits {n : Nat} (h : n < 32) :
    (UInt8.ofNat n &&& 0x1F).toNat = n ∧ UInt8.ofNat n &&& 0x40 = 0 ∧ UInt8.ofNat n &&& 0xA0 = 0 ∧
      ((UInt8.ofNat n ||| 0x40) &&& 0x1F).toNat = n ∧ (UInt8.ofNat n ||| 0x40) &&& 0x40 ≠ 0 ∧
        (UInt8.ofNat n ||| 0x40) &&& 0xA0 = 0 := by
  have hall : ∀ n < 32, (UInt8.ofNat n &&& 0x1F).toNat = n ∧ UInt8.ofNat n &&& 0x40 = 0 ∧
      UInt8.ofNat n &&& 0xA0 = 0 ∧ ((UInt8.ofNat n ||| 0x40) &&& 0x1F).toNat = n ∧
        (UInt8.ofNat n ||| 0x40) &&& 0x40 ≠ 0 ∧ (UInt8.ofNat n ||| 0x40) &&& 0xA0 = 0 := by
    decide
  exact hall n h

theorem number_lt (s : Buf) : number s < 32 := by
  rw [number, UInt8.toNat_and]
  exact Nat.and_lt_two_pow (n := 5) _ (by decide)

theorem Complete.slot (h : Complete run short) {i : Nat} (hs : run[i]? = some s) :
    number s = run.length - i ∧ (Flagged s ↔ i = 0) ∧ s 0 &&& 0xA0 = 0 := by
  have hlt := h.length.2
  obtain ⟨hnumber, hplain, hrest, -⟩ := order_bits (show run.length - i < 32 by omega)
  obtain ⟨-, -, -, hfirst, hflag, hnone⟩ := order_bits hlt
  have horder := h.orders i s hs
  by_cases hi : i = 0
  · rw [if_pos hi] at horder
    rw [number, Flagged, horder, hi]
    exact ⟨hfirst, ⟨fun _ => rfl, fun _ => hflag⟩, hnone⟩
  · rw [if_neg hi] at horder
    rw [number, Flagged, horder]
    exact ⟨hnumber, ⟨fun hf => absurd hplain hf, fun h0 => absurd h0 hi⟩, hrest⟩

theorem Complete.counted (h : Complete run short) : Counted run run.length := by
  refine ⟨h.long, fun s hs => ?_, ?_⟩
  · obtain ⟨i, hi, rfl⟩ := List.mem_iff_getElem.mp hs
    have hnumber := (h.slot (List.getElem?_eq_getElem hi)).1
    omega
  · cases run with
    | nil => exact absurd h.length.1 (Nat.lt_irrefl 0)
    | cons s rest =>
      obtain ⟨hnumber, hflag, -⟩ := h.slot (List.getElem?_cons_zero ..)
      refine ⟨s, rest, rfl, hflag.mpr rfl, hnumber, fun t ht hf => ?_⟩
      obtain ⟨i, hi, rfl⟩ := List.mem_iff_getElem.mp ht
      have hslot := h.slot (i := i + 1) (s := rest[i])
        (by rw [List.getElem?_cons_succ, List.getElem?_eq_getElem hi])
      exact absurd (hslot.2.1.mp hf) (Nat.succ_ne_zero i)

theorem Complete.not_mixed (h : Complete run short) : ¬ Mixed run short := by
  rintro (horder | ⟨s, hs, hbits⟩ | ⟨s, hs, hsum⟩)
  · refine horder (List.pairwise_iff_getElem.mpr fun i j hi hj hlt => ?_)
    rw [List.length_map] at hi hj
    have h₁ := (h.slot (List.getElem?_eq_getElem hi)).1
    have h₂ := (h.slot (List.getElem?_eq_getElem hj)).1
    rw [List.getElem_map, List.getElem_map]
    omega
  · obtain ⟨i, hi, rfl⟩ := List.mem_iff_getElem.mp hs
    exact hbits (h.slot (List.getElem?_eq_getElem hi)).2.2
  · exact hsum (h.checksums s hs)

/-- **A run that passes is complete, unless it is mixed.** -/
theorem Passes.complete (h : Passes run short) (hmixed : ¬ Mixed run short) :
    Complete run short := by
  obtain ⟨horder, hrest⟩ := not_or.mp hmixed
  obtain ⟨hbits, hsums⟩ := not_or.mp hrest
  have hdecreasing : (run.map number).Pairwise (· > ·) := not_not.mp horder
  have hc := h.counted
  have hpos := List.length_pos_of_ne_nil hc.ne_nil
  obtain ⟨first, rest, hrun, hflag, hfirst, hplain⟩ := hc.flagged
  have hlt := number_lt first
  refine ⟨hc.long, ⟨hpos, by omega⟩, fun i s hs => ?_, fun s hs => ?_⟩
  · have hin := List.mem_of_getElem? hs
    have hmap : (run.map number)[i]? = some (number s) := by
      rw [List.getElem?_map, hs]
      rfl
    have hle := @le_of_decreasing run.length _ hdecreasing (by
      intro x hx
      obtain ⟨t, ht, rfl⟩ := List.mem_map.mp hx
      exact (hc.numbers t ht).2) i _ hmap
    have hge := ge_of_decreasing hdecreasing (by
      intro x hx
      obtain ⟨t, ht, rfl⟩ := List.mem_map.mp hx
      exact (hc.numbers t ht).1) i _ hmap
    rw [List.length_map] at hge
    have hnumber : number s = run.length - i := by omega
    have hsplit := order_split s (not_not.mp fun hne => hbits ⟨s, hin, hne⟩)
    rw [hnumber] at hsplit
    cases i with
    | zero =>
      rw [hrun, List.getElem?_cons_zero] at hs
      obtain rfl := Option.some.inj hs
      rw [if_pos hflag] at hsplit
      exact hsplit
    | succ i =>
      rw [hrun, List.getElem?_cons_succ] at hs
      rw [if_neg (hplain s (List.mem_of_getElem? hs))] at hsplit
      exact hsplit
  · exact not_not.mp fun hne => hsums ⟨s, hs, hne⟩

end

section

variable {w : World} {l : List Nat} {s : Nat}

/-! ## The whole directory -/

/-- **The state follows what counts of the slots read.** -/
theorem follows (ps : List Placed) : Follows (ps.map Placed.slot) (stateAfter Lfn.init ps) := by
  induction ps using List.reverseRecOn with
  | nil =>
    refine .inl ⟨rfl, fun front run total h hc => hc.ne_nil ?_⟩
    exact (List.append_eq_nil_iff.mp h.symm).2
  | append_singleton ps p ih =>
    rw [stateAfter, List.foldl_append, List.map_append]
    exact ih.step p.slot

theorem honest_iff_not_mixed (before : List Placed) (e : Buf) :
    Honest before e (slotInfo (stateAfter Lfn.init before) e) ↔ ¬ TakesMixedRun before e := by
  have hnames := (follows before).names_iff e
  constructor
  · rintro h ⟨front, run, hsplit, hpasses, hmixed⟩
    have hlong : (stateAfter Lfn.init before).Names e :=
      hnames.mpr ⟨front.map Placed.slot, run.map Placed.slot, by rw [hsplit, List.map_append],
        hpasses⟩
    have hrun : HasCompleteRun before e := by
      by_contra hnone
      have hfalse : decide ((stateAfter Lfn.init before).Names e) = false := (h hnone).1
      exact of_decide_eq_false hfalse hlong
    obtain ⟨front', run', hsplit', hcomplete⟩ := hrun
    have hslots : front.map Placed.slot ++ run.map Placed.slot =
        front'.map Placed.slot ++ run'.map Placed.slot := by
      rw [← List.map_append, ← List.map_append, ← hsplit, hsplit']
    have hsame := counted_unique hslots hpasses.counted hcomplete.counted
    exact hcomplete.not_mixed (hsame ▸ hmixed)
  · intro h hnone
    have hshort : ¬ (stateAfter Lfn.init before).Names e := by
      intro hlong
      obtain ⟨front, run, hsplit, hpasses⟩ := hnames.mp hlong
      obtain ⟨front, run, hbefore, rfl, rfl⟩ := List.map_eq_append_iff.mp hsplit
      by_cases hmixed : Mixed (run.map Placed.slot) (slotName e)
      · exact h ⟨front, run, hbefore, hpasses, hmixed⟩
      · exact hnone ⟨front, run, hbefore, hpasses.complete hmixed⟩
    rw [slotInfo]
    exact ⟨decide_eq_false hshort, if_neg hshort⟩

theorem mem_reportsOf_split {r : Report} : ∀ {ps : List Placed} {st : Lfn}, r ∈ reportsOf st ps →
    ∃ before after, ps = before ++ r.place :: after ∧
      r.info = slotInfo (stateAfter st before) r.place.slot
  | [], _, h => by cases h
  | p :: ps, st, h => by
    have hbehind : r ∈ reportsOf (lfnAfter st p.slot) ps → ∃ before after,
        p :: ps = before ++ r.place :: after ∧
          r.info = slotInfo (stateAfter st before) r.place.slot := by
      intro h
      obtain ⟨before, after, rfl, hinfo⟩ := mem_reportsOf_split h
      exact ⟨p :: before, after, rfl, hinfo⟩
    rw [reportsOf] at h
    split at h
    · rcases List.mem_cons.mp h with rfl | h
      · exact ⟨[], ps, rfl, rfl⟩
      · exact hbehind h
    · exact hbehind h

/-- **Long names come from complete runs, unless a mixed run is counted**: whatever a
directory holds, each entry that a scan tells of is reported under its short name when
no complete run stands directly before it, if and only if the slots before it do not
end in a run that passes the count although it is mixed. -/
theorem long_name_honest_iff (g : Geometry w) (nf : NoFaults w) (hm : Mallocs w)
    (h : ChainFrom w s l) :
    ∃ log, fat32IterateDirectory s recordCallback [] w = some ((0, log), w) ∧
      ∀ info cluster index, (info, cluster, index) ∈ log → ∃ before p after,
        dirSlots w l = before ++ p :: after ∧ p.cluster = cluster ∧ p.index = index ∧
          (Honest before p.slot info ↔ ¬ TakesMixedRun before p.slot) := by
  refine ⟨(reports (dirSlots w l)).map fun r => (r.info, r.place.cluster, r.place.index), ?_, ?_⟩
  · rw [iterateDirectory_eq g nf hm h, feed_record]
    rfl
  intro info cluster index hmem
  obtain ⟨r, hr, heq⟩ := List.mem_map.mp hmem
  obtain ⟨rfl, rfl, rfl⟩ : r.info = info ∧ r.place.cluster = cluster ∧ r.place.index = index := by
    simpa using heq
  obtain ⟨before, after, hsplit, hinfo⟩ := mem_reportsOf_split hr
  obtain ⟨rest, hrest⟩ := List.takeWhile_prefix notEnd (l := dirSlots w l)
  refine ⟨before, r.place, after ++ rest, ?_, rfl, rfl, ?_⟩
  · rw [← hrest, hsplit, List.append_assoc, List.cons_append]
  · rw [hinfo]
    exact honest_iff_not_mixed before r.place.slot

end

/-! ## A text that is lent -/

/-- The short name `A`, and the long name of another file. -/
def shortA : ShortName := .ofParts [0x41] []
def foreignName : CStr := [0x62]

/-- Slots 3 and 1 of another name, a slot 2 for `A`, and the entry `A`. -/
def mixedSlots : List Buf :=
  [lfnEntry 0x43 0 (fat32FillLfnEntry foreignName 0), lfnEntry 0x01 0 (fat32FillLfnEntry foreignName 0),
    lfnEntry 0x02 (fat32LfnChecksum shortA) (fat32FillLfnEntry foreignName 0),
    dirEntry shortA attrArchive 0 0]

/-- The slots before the entry. -/
def mixedBefore : List Placed := (List.range 3).map fun i => ⟨2, i, mixedSlots.getD i fun _ => 0⟩

theorem mixedSlots_outside : ∀ e ∈ mixedSlots, ∀ i, slotSize ≤ i → e i = 0 := by
  intro e he i hi
  have hi : 32 ≤ i := hi
  have hlfn : ∀ order sum units, lfnEntry order sum units i = 0 := by
    intro order sum units
    rw [lfnEntry]
    dsimp only
    rw [if_neg (by omega), if_neg (by omega), if_neg (by omega), if_neg (by omega),
      if_neg (by omega), if_neg (by omega)]
  simp only [mixedSlots, List.mem_cons, List.not_mem_nil, or_false] at he
  rcases he with rfl | rfl | rfl | rfl
  · exact hlfn ..
  · exact hlfn ..
  · exact hlfn ..
  · rw [dirEntry, if_neg (by omega), if_neg (by omega), if_neg (by omega), if_neg (by omega),
      if_neg (by omega)]

theorem dirSlots_mixed : ∃ after, dirSlots (rootVolume mixedSlots) [2] =
    mixedBefore ++ ⟨2, 3, dirEntry shortA attrArchive 0 0⟩ :: after := by
  rw [dirSlots_rootVolume mixedSlots_outside, mixedBefore]
  exact ⟨(List.range' 4 12).map fun i => ⟨2, i, mixedSlots.getD i fun _ => 0⟩, rfl⟩

theorem mem_reports_of_entry {before after : List Placed} {p : Placed}
    (hbefore : ∀ q ∈ before, notEnd q = true) (hp : slotKind p.slot = .entry) :
    ⟨p, slotInfo (stateAfter Lfn.init before) p.slot⟩ ∈ reports (before ++ p :: after) := by
  have hnot : notEnd p = true := by
    rw [notEnd, hp]
    rfl
  rw [reports, List.takeWhile_append_of_pos hbefore, List.takeWhile_cons, if_pos hnot,
    reportsOf_append, reportsOf, if_pos hp]
  exact List.mem_append_right _ List.mem_cons_self

theorem takes_mixed : TakesMixedRun mixedBefore (dirEntry shortA attrArchive 0 0) := by
  refine ⟨[], mixedBefore, rfl, ⟨⟨by decide +kernel, by decide +kernel, ?_⟩, by decide +kernel, ?_⟩,
    .inl (by decide +kernel)⟩
  · exact ⟨_, _, rfl, by decide +kernel, by decide +kernel, by decide +kernel⟩
  · exact ⟨lfnEntry 0x01 0 (fat32FillLfnEntry foreignName 0), rfl,
      not_or.mpr ⟨by decide +kernel, by decide +kernel⟩⟩

/-- The entry `A` is reported under the name of another file. -/
theorem foreign_text_lent :
    ∃ log info, fat32IterateDirectory 2 recordCallback [] (rootVolume mixedSlots) =
        some ((0, log), rootVolume mixedSlots) ∧
      (info, 2, 3) ∈ log ∧ info.filename = foreignName ∧ info.hasLongName = true ∧
      ∃ after, dirSlots (rootVolume mixedSlots) [2] =
          mixedBefore ++ ⟨2, 3, dirEntry shortA attrArchive 0 0⟩ :: after ∧
        ¬ Honest mixedBefore (dirEntry shortA attrArchive 0 0) info := by
  obtain ⟨after, hsplit⟩ := dirSlots_mixed
  have hmem := @mem_reports_of_entry mixedBefore after ⟨2, 3, dirEntry shortA attrArchive 0 0⟩
    (by decide +kernel) (by decide +kernel)
  rw [← hsplit] at hmem
  refine ⟨(reports (dirSlots (rootVolume mixedSlots) [2])).map
      fun r => (r.info, r.place.cluster, r.place.index), _, ?_, List.mem_map_of_mem hmem, ?_, ?_,
    after, hsplit, ?_⟩
  · rw [iterateDirectory_eq (geometry_rootVolume mixedSlots) (fun _ => rfl) (fun _ => rfl)
      (chainFrom_rootVolume mixedSlots), feed_record]
    rfl
  · decide +kernel
  · decide +kernel
  · exact fun h => (honest_iff_not_mixed _ _).mp h takes_mixed

theorem long_name_honest_iff_mixed :
    ∃ log, fat32IterateDirectory 2 recordCallback [] (rootVolume mixedSlots) =
        some ((0, log), rootVolume mixedSlots) ∧
      ∀ info cluster index, (info, cluster, index) ∈ log → ∃ before p after,
        dirSlots (rootVolume mixedSlots) [2] = before ++ p :: after ∧ p.cluster = cluster ∧
          p.index = index ∧ (Honest before p.slot info ↔ ¬ TakesMixedRun before p.slot) :=
  long_name_honest_iff (geometry_rootVolume mixedSlots) (fun _ => rfl) (fun _ => rfl)
    (chainFrom_rootVolume mixedSlots)

end ContinuumOS.Fat32.LongRuns
