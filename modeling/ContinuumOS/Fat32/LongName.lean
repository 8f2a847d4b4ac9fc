import ContinuumOS.Fat32.Aliases
import ContinuumOS.Fat32.Scan

/-! # Long names read back

The slots `fat32_create` and `fat32_mkdir_path` write for a name, scanned again
by `fat32_iterate_directory`. The slots come in descending order and each chunk
is ended by a NUL when it is copied into `lfn_name`; the NUL behind the first
chunk falls on the first character of the second one, which was copied before.
So a name comes back exactly when it fits one slot. -/
namespace ContinuumOS.Fat32.LongName
open ContinuumOS.Lib.Memory ContinuumOS.Libc.String
open ContinuumOS.Fat32.Volume ContinuumOS.Fat32.Device
open ContinuumOS.Fat32.Names ContinuumOS.Fat32.Directory ContinuumOS.Fat32.Aliases
open ContinuumOS.Fat32.Scan

/-! ## Filling a slot -/

theorem lfnUnit_lfnEntry {order checksum : UInt8} {units : List Nat} {i : Nat} (hi : i < 13)
    (hu : ∀ u ∈ units, u < 2 ^ 16) : lfnUnit (lfnEntry order checksum units) i = units.getD i 0 := by
  have hlt : units.getD i 0 < 2 ^ 16 := by
    rw [List.getD_eq_getElem?_getD]
    cases h : units[i]? with
    | none => simp
    | some u => exact hu u (List.mem_of_getElem? h)
  have hoff : lfnEntry order checksum units (unitOffset i) = wordByte (units.getD i 0) 0 ∧
      lfnEntry order checksum units (unitOffset i + 1) = wordByte (units.getD i 0) 1 := by
    have : i = 0 ∨ i = 1 ∨ i = 2 ∨ i = 3 ∨ i = 4 ∨ i = 5 ∨ i = 6 ∨ i = 7 ∨ i = 8 ∨ i = 9 ∨ i = 10 ∨
      i = 11 ∨ i = 12 := by omega
    rcases this with rfl | rfl | rfl | rfl | rfl | rfl | rfl | rfl | rfl | rfl | rfl | rfl | rfl <;>
      exact ⟨rfl, rfl⟩
  rw [lfnUnit, readHalf, hoff.1, hoff.2, toNat_wordByte, toNat_wordByte]
  omega

theorem length_fillUnits (name : CStr) : ∀ (count pos : Nat) (done : Bool),
    (fillUnits name count pos done).1.length = count
  | 0, _, _ => rfl
  | count + 1, pos, done => by simp [fillUnits, length_fillUnits name count]

theorem fillUnits_lt (name : CStr) : ∀ (count pos : Nat) (done : Bool),
    ∀ u ∈ (fillUnits name count pos done).1, u < 2 ^ 16
  | 0, _, _, u, hu => by simp [fillUnits] at hu
  | count + 1, pos, done, u, hu => by
    simp only [fillUnits, List.mem_cons] at hu
    rcases hu with rfl | hu
    · have := (name.getD pos 0).toNat_lt
      split
      · omega
      · split <;> omega
    · exact fillUnits_lt name count _ _ u hu

theorem fillUnits_add (name : CStr) (b : Nat) : ∀ (a pos : Nat) (done : Bool),
    fillUnits name (a + b) pos done =
      ((fillUnits name a pos done).1 ++ (fillUnits name b (pos + a) (fillUnits name a pos done).2).1,
        (fillUnits name b (pos + a) (fillUnits name a pos done).2).2)
  | 0, pos, done => by simp [fillUnits]
  | a + 1, pos, done => by
    have ih := fillUnits_add name b a (pos + 1) (done || name.getD pos 0 = 0)
    rw [show a + 1 + b = a + b + 1 by omega, fillUnits, ih, fillUnits]
    simp only [List.cons_append, show pos + 1 + a = pos + (a + 1) by omega]

theorem fillLfnEntry_eq (name : CStr) (start : Nat) :
    fat32FillLfnEntry name start = (fillUnits name 13 start false).1 := by
  have h₁ := fillUnits_add name 2 11 start false
  have h₂ := fillUnits_add name 6 5 start false
  rw [show 11 + 2 = 13 from rfl] at h₁
  rw [show 5 + 6 = 11 from rfl] at h₂
  rw [fat32FillLfnEntry, h₁, h₂]

theorem length_fillLfnEntry (name : CStr) (start : Nat) :
    (fat32FillLfnEntry name start).length = 13 := by
  rw [fillLfnEntry_eq, length_fillUnits]

theorem fillUnits_prefix (name : CStr) (hn : 0 ∉ name) : ∀ (count pos : Nat),
    ∃ tail, (fillUnits name count pos false).1 =
      ((name.drop pos).take count).map UInt8.toNat ++ tail ∧ (tail = [] ∨ tail.head? = some 0)
  | 0, pos => ⟨[], by simp [fillUnits], .inl rfl⟩
  | count + 1, pos => by
    by_cases hp : pos < name.length
    · obtain ⟨tail, ht, hend⟩ := fillUnits_prefix name hn count (pos + 1)
      have hget : name.getD pos 0 = name[pos] := by simp [hp]
      have hne : name[pos] ≠ 0 := fun h => hn (h ▸ List.getElem_mem hp)
      refine ⟨tail, ?_, hend⟩
      rw [List.drop_eq_getElem_cons hp, List.take_succ_cons, List.map_cons, List.cons_append, ← ht,
        fillUnits, hget]
      simp [hne]
    · have hget : name.getD pos 0 = 0 := by simp [hp]
      refine ⟨(fillUnits name (count + 1) pos false).1, ?_, .inr ?_⟩
      · simp [List.drop_eq_nil_of_le (Nat.le_of_not_lt hp)]
      · rw [fillUnits, hget]
        rfl

/-! ## Reading a slot back -/

theorem chunkToAscii_spec : ∀ (chars : CStr) (tail : List Nat) (dest : Buf) (pos : Nat),
    Ascii chars → (tail = [] ∨ tail.head? = some 0) → pos + chars.length < 255 →
    (∀ i, i < pos → fat32Utf16leChunkToAscii dest (chars.map UInt8.toNat ++ tail) pos i = dest i) ∧
    (∀ i (h : i < chars.length),
      fat32Utf16leChunkToAscii dest (chars.map UInt8.toNat ++ tail) pos (pos + i) = chars[i]) ∧
    fat32Utf16leChunkToAscii dest (chars.map UInt8.toNat ++ tail) pos (pos + chars.length) = 0
  | [], tail, dest, pos, _, ht, hlen => by
    have hend : fat32Utf16leChunkToAscii dest ([].map UInt8.toNat ++ tail) pos =
        writeByte dest pos 0 := by
      simp only [List.length_nil] at hlen
      have h₁ : pos < lfnNameSize := by simp only [lfnNameSize]; omega
      have h₂ : pos + 1 < lfnNameSize := by simp only [lfnNameSize]; omega
      rcases ht with rfl | ht
      · simp [fat32Utf16leChunkToAscii, h₁]
      · cases tail with
        | nil => cases ht
        | cons u tail =>
          obtain rfl := Option.some.inj ht
          simp [fat32Utf16leChunkToAscii, h₂]
    rw [hend]
    exact ⟨fun i hi => writeByte_outside (by omega), fun i h => absurd h (by simp), by simp⟩
  | c :: chars, tail, dest, pos, ha, ht, hlen => by
    obtain ⟨hc, hlt⟩ := ha c (by simp)
    simp only [List.length_cons] at hlen
    have h₂ : pos + 1 < lfnNameSize := by simp only [lfnNameSize]; omega
    have hlt' : c.toNat < 0x80 := hlt
    have hne : ¬ (c.toNat = 0xFFFF ∨ c.toNat = 0) := by
      have : c.toNat ≠ 0 := fun h => hc (UInt8.toNat.inj h)
      omega
    obtain ⟨h₁, h₃, h₄⟩ := chunkToAscii_spec chars tail (writeByte dest pos c) (pos + 1)
      (fun d hd => ha d (by simp [hd])) ht (by omega)
    have hstep : fat32Utf16leChunkToAscii dest ((c :: chars).map UInt8.toNat ++ tail) pos =
        fat32Utf16leChunkToAscii (writeByte dest pos c) (chars.map UInt8.toNat ++ tail) (pos + 1) := by
      have hle : c.toNat ≤ 0x7F := by omega
      simp [fat32Utf16leChunkToAscii, h₂, hne, hle]
    rw [hstep]
    refine ⟨fun i hi => ?_, fun i h => ?_, ?_⟩
    · rw [h₁ i (by omega), writeByte_outside (by omega)]
    · cases i with
      | zero => simpa using h₁ pos (by omega)
      | succ i =>
        have := h₃ i (by simpa using h)
        rw [show pos + 1 + i = pos + (i + 1) by omega] at this
        simpa using this
    · rw [show pos + 1 + chars.length = pos + (chars.length + 1) by omega] at h₄
      simpa using h₄

theorem cstrOf_eq {buf : Buf} {chars : CStr} (hn : 0 ∉ chars) (hlen : chars.length < 255)
    (hb : ∀ i (h : i < chars.length), buf i = chars[i]) (hz : buf chars.length = 0) :
    cstrOf buf 255 = chars := by
  have hsplit : (List.range 255).map buf =
      chars ++ 0 :: (List.range' (chars.length + 1) (254 - chars.length)).map buf := by
    have h₁ : List.range 255 = List.range' 0 chars.length ++
        chars.length :: List.range' (chars.length + 1) (254 - chars.length) := by
      have h := List.range'_append_1 (s := 0) (m := chars.length) (n := 254 - chars.length + 1)
      rw [Nat.zero_add] at h
      rw [← List.range'_succ, h, List.range_eq_range']
      congr 1
      omega
    have h₂ : (List.range' 0 chars.length).map buf = chars := by
      apply List.ext_getElem
      · simp
      · intro i hi₁ hi₂
        simpa using hb i hi₂
    rw [h₁, List.map_append, List.map_cons, h₂, hz]
  rw [cstrOf, hsplit, List.takeWhile_append_of_pos]
  · simp
  · intro c hc
    exact decide_eq_true fun (h : c = 0) => hn (h ▸ hc)

/-! ## The slots of a name -/

/-- Sequence numbers survive in the order byte, and the flag marks the first slot. -/
theorem order_byte {s : Nat} (h₁ : 1 ≤ s) (h₂ : s ≤ 20) :
    (UInt8.ofNat s &&& 0x1F).toNat = s ∧ UInt8.ofNat s &&& 0x40 = 0 ∧
    ((UInt8.ofNat s ||| 0x40) &&& 0x1F).toNat = s ∧ (UInt8.ofNat s ||| 0x40) &&& 0x40 ≠ 0 ∧
    UInt8.ofNat s ≠ 0 ∧ UInt8.ofNat s ≠ 0xE5 ∧ UInt8.ofNat s ||| 0x40 ≠ 0 ∧
    UInt8.ofNat s ||| 0x40 ≠ 0xE5 := by
  have h : ∀ s ∈ List.range' 1 20, (UInt8.ofNat s &&& 0x1F).toNat = s ∧
      UInt8.ofNat s &&& 0x40 = 0 ∧ ((UInt8.ofNat s ||| 0x40) &&& 0x1F).toNat = s ∧
      (UInt8.ofNat s ||| 0x40) &&& 0x40 ≠ 0 ∧ UInt8.ofNat s ≠ 0 ∧ UInt8.ofNat s ≠ 0xE5 ∧
      UInt8.ofNat s ||| 0x40 ≠ 0 ∧ UInt8.ofNat s ||| 0x40 ≠ 0xE5 := by decide
  exact h s (by rw [List.mem_range'_1]; omega)

section

variable {name : CStr} {checksum : UInt8} {total seq : Nat}

theorem slotKind_lfnSlot (h₁ : 1 ≤ seq) (h₂ : seq ≤ 20) :
    slotKind (lfnSlot name checksum total seq) = .longName := by
  obtain ⟨-, -, -, -, h₃, h₄, h₅, h₆⟩ := order_byte h₁ h₂
  have hattr : isLongName (lfnSlot name checksum total seq) = true := by
    change (attrLongName &&& attrLongName == attrLongName) = true
    decide
  have hfirst : lfnSlot name checksum total seq 0 =
      if seq = total then UInt8.ofNat seq ||| 0x40 else UInt8.ofNat seq := rfl
  rw [slotKind, hfirst, hattr]
  split <;> simp [*]

theorem collect_lfnSlot {st : Lfn} (h₁ : 1 ≤ seq) (h₂ : seq ≤ total) (h₃ : total ≤ 20)
    (hst : seq = total ∨ st.expected = total) : st.collect (lfnSlot name checksum total seq) =
      { name := fat32Utf16leChunkToAscii (if seq = total then fun _ => 0 else st.name)
          (fat32FillLfnEntry name ((seq - 1) * 13)) ((seq - 1) * 13)
        expected := total
        collected := (if seq = total then 0 else st.collected) + 1
        checksum := checksum } := by
  obtain ⟨h₄, h₅, h₆, h₇, -⟩ := order_byte h₁ (h₂.trans h₃)
  have hunits : (List.range 13).map (lfnUnit (lfnSlot name checksum total seq)) =
      fat32FillLfnEntry name ((seq - 1) * 13) := by
    have hu : ∀ u ∈ fat32FillLfnEntry name ((seq - 1) * 13), u < 2 ^ 16 := by
      rw [fillLfnEntry_eq]
      exact fillUnits_lt _ _ _ _
    apply List.ext_getElem
    · simp [length_fillLfnEntry]
    · intro i hi hi'
      have hlt : i < 13 := by simpa using hi
      rw [List.getElem_map, List.getElem_range, lfnSlot, lfnUnit_lfnEntry hlt hu,
        List.getD_eq_getElem?_getD, List.getElem?_eq_getElem hi', Option.getD_some]
  have hfirst : lfnSlot name checksum total seq 0 =
      if seq = total then UInt8.ofNat seq ||| 0x40 else UInt8.ofNat seq := rfl
  have hck : lfnChecksumOf (lfnSlot name checksum total seq) = checksum := rfl
  have hpos : seq ≠ 0 := by omega
  rw [Lfn.collect, hfirst, hunits, hck]
  by_cases heq : seq = total
  · subst heq
    simp only [if_true, h₆, hpos, h₇, if_false, ne_eq, not_false_eq_true, Nat.lt_irrefl, gt_iff_lt]
  · have hexp : st.expected = total := by tauto
    simp only [if_neg heq, h₄, h₅, hpos, ne_eq, not_true_eq_false, if_false, hexp, gt_iff_lt,
      Nat.not_lt.mpr h₂]

theorem collect_front {st : Lfn} (h₃ : total ≤ 20) : ∀ i, 0 < i → i ≤ total →
    (((List.range i).map fun j => lfnSlot name checksum total (total - j)).foldl Lfn.collect
      st).expected = total ∧
    (((List.range i).map fun j => lfnSlot name checksum total (total - j)).foldl Lfn.collect
      st).collected = i
  | 0, h, _ => absurd h (Nat.lt_irrefl _)
  | i + 1, _, hle => by
    rw [List.range_succ, List.map_append, List.foldl_append, List.map_singleton, List.foldl_cons,
      List.foldl_nil]
    by_cases hi : i = 0
    · subst hi
      rw [collect_lfnSlot (by omega) (by omega) h₃ (.inl (by omega))]
      simp
    · obtain ⟨he, hc⟩ := collect_front h₃ i (by omega) (by omega)
      have hne : total - i ≠ total := by omega
      rw [collect_lfnSlot (by omega) (by omega) h₃ (.inr he), hc]
      simp only [hne, if_false, and_self]

end

theorem lfnEntries_le {name : CStr} (h : name.length ≤ 255) : lfnEntries name ≤ 20 := by
  rw [lfnEntries]
  omega

/-- The state behind all long-name slots of a name. The slot read last, of the
first 13 characters, ends them with a NUL: what lies behind it is lost. -/
theorem lfnSlots_state {name : CStr} (ha : Ascii name) (h₁ : 1 ≤ name.length)
    (h₂ : name.length ≤ 255) (short : ShortName) (st : Lfn) :
    ∃ buf, (lfnSlots name short).foldl Lfn.collect st =
        ⟨buf, lfnEntries name, lfnEntries name, fat32LfnChecksum short⟩ ∧
      cstrOf buf 255 = name.take 13 ∧ buf 0 ≠ 0 := by
  have hle := lfnEntries_le h₂
  obtain ⟨n, hn⟩ : ∃ n, lfnEntries name = n + 1 := ⟨lfnEntries name - 1, by rw [lfnEntries]; omega⟩
  rw [lfnSlots, hn, List.range_succ, List.map_append, List.foldl_append, List.map_singleton,
    List.foldl_cons, List.foldl_nil, Nat.add_sub_cancel_left]
  -- the last slot, with number 1
  rw [collect_lfnSlot (by omega) (by omega) (by omega) ?_]
  · simp only [Nat.sub_self, Nat.zero_mul]
    obtain ⟨tail, hfill, ht⟩ := fillUnits_prefix name (fun h => (ha 0 h).1 rfl) 13 0
    rw [← fillLfnEntry_eq, List.drop_zero] at hfill
    have hascii : Ascii (name.take 13) := fun c hc => ha c (List.mem_of_mem_take hc)
    have hlen : (name.take 13).length < 255 := by rw [List.length_take]; omega
    generalize (if 1 = n + 1 then fun _ => 0 else _ : Buf) = dest
    obtain ⟨-, hb, hz⟩ := chunkToAscii_spec (name.take 13) tail dest 0 hascii ht (by omega)
    simp only [Nat.zero_add] at hb hz
    rw [hfill]
    refine ⟨_, ?_, cstrOf_eq (fun h => (hascii 0 h).1 rfl) hlen hb hz, ?_⟩
    · congr 1
      by_cases h : n = 0
      · subst h; rfl
      · rw [if_neg (by omega), (collect_front (by omega) n (by omega) (by omega)).2]
    · have h0 : 0 < (name.take 13).length := by rw [List.length_take]; omega
      rw [hb 0 h0]
      exact (hascii _ (List.getElem_mem h0)).1
  · by_cases h : n = 0
    · exact .inl (by omega)
    · exact .inr (collect_front (by omega) n (by omega) (by omega)).1

/-! ## Scanning them -/

theorem slotKind_lfnSlots {name : CStr} {short : ShortName} (h : name.length ≤ 255) {e : Buf}
    (he : e ∈ lfnSlots name short) : slotKind e = .longName := by
  obtain ⟨i, hi, rfl⟩ := List.mem_map.mp he
  have hlt := List.mem_range.mp hi
  have hle := lfnEntries_le h
  exact slotKind_lfnSlot (by omega) (by omega)

theorem stateAfter_lfnSlots {name : CStr} {short : ShortName} (h₂ : name.length ≤ 255)
    {mid : List Placed} (hmid : mid.map Placed.slot = lfnSlots name short) (st : Lfn) :
    stateAfter st mid = (lfnSlots name short).foldl Lfn.collect st ∧ reportsOf st mid = [] := by
  have hkind : ∀ p ∈ mid, slotKind p.slot = .longName := fun p hp =>
    slotKind_lfnSlots h₂ (hmid ▸ List.mem_map_of_mem hp)
  rw [← hmid]
  clear hmid
  induction mid generalizing st with
  | nil => exact ⟨rfl, rfl⟩
  | cons p mid ih =>
    have hp := hkind p (by simp)
    obtain ⟨ih₁, ih₂⟩ := ih (st.collect p.slot) fun q hq => hkind q (by simp [hq])
    have hafter : lfnAfter st p.slot = st.collect p.slot := if_pos hp
    constructor
    · rw [stateAfter, List.foldl_cons, hafter, List.map_cons, List.foldl_cons, ← ih₁, stateAfter]
    · rw [reportsOf, if_neg (by rw [hp]; decide), hafter, ih₂]

/-- What the callback is told of the slots of a name: one entry, under the first
13 characters of the name. -/
theorem reportsOf_entryBytes {name : CStr} {short : ShortName} {attributes : UInt8} {cluster : Nat}
    (ha : Ascii name) (h₁ : 1 ≤ name.length) (h₂ : name.length ≤ 255)
    (hs : StartsEntry short.first) (hattr : attributes = attrArchive ∨ attributes = attrDirectory)
    {mid : List Placed} {p : Placed} (hmid : mid.map Placed.slot = lfnSlots name short)
    (hp : p.slot = dirEntry short attributes cluster 0) (st : Lfn) :
    ∃ info, reportsOf st (mid ++ [p]) = [⟨p, info⟩] ∧ info.filename = name.take 13 ∧
      info.hasLongName = true := by
  obtain ⟨hstate, hnone⟩ := stateAfter_lfnSlots h₂ hmid st
  obtain ⟨buf, hbuf, hstr, hne⟩ := lfnSlots_state ha h₁ h₂ short st
  have hnames : (stateAfter st mid).Names p.slot := by
    have hpos : 0 < lfnEntries name := by
      rw [lfnEntries]
      omega
    rw [hstate, hbuf, hp, Lfn.Names, slotName_dirEntry]
    exact ⟨hpos, rfl, rfl, hne⟩
  refine ⟨slotInfo (stateAfter st mid) p.slot, ?_, ?_, decide_eq_true hnames⟩
  · rw [reportsOf_append, hnone, List.nil_append, reportsOf, if_pos (hp ▸ slotKind_dirEntry hs hattr),
      reportsOf]
  · rw [slotInfo]
    simp only [if_pos hnames]
    rw [hstate, hbuf, hstr]

/-- A callback that keeps what it is told. -/
def recordCallback : Callback (List (FileInfo × Nat × Nat)) := fun _ info cluster index log =>
  (0, log ++ [(info, cluster, index)])

theorem feed_record (rs : List Report) : ∀ log, feed recordCallback rs log =
    .inr (log ++ rs.map fun r => (r.info, r.place.cluster, r.place.index)) := by
  induction rs with
  | nil => intro log; simp [feed]
  | cons r rs ih => intro log; simp [feed, recordCallback, ih]

/-- How many entries stand among slots. -/
def entryCount (ps : List Placed) : Nat := ps.countP fun p => slotKind p.slot = .entry

theorem length_reportsOf (ps : List Placed) : ∀ st, (reportsOf st ps).length = entryCount ps := by
  induction ps with
  | nil => intro st; rfl
  | cons p ps ih =>
    intro st
    have h := ih (lfnAfter st p.slot)
    rw [reportsOf, entryCount, List.countP_cons]
    split
    · rename_i hk
      simp [h, hk, entryCount]
    · rename_i hk
      simp [h, hk, entryCount]

/-- Slots of a name in a directory: `pre` before them, none of it the end. -/
structure Written (w : World) (l : List Nat) (name : CStr) (short : ShortName) (attributes : UInt8)
    (cluster : Nat) (pre : List Placed) (p : Placed) : Prop where
  slots : ∃ mid post, dirSlots w l = pre ++ (mid ++ [p]) ++ post ∧
    (mid ++ [p]).map Placed.slot = entryBytes name short true attributes cluster
  pre_notEnd : ∀ q ∈ pre, notEnd q = true
  kind : attributes = attrArchive ∨ attributes = attrDirectory

theorem scan_tells {w : World} {s : Nat} {l : List Nat} {name : CStr} {short : ShortName}
    {attributes : UInt8} {cluster : Nat} {pre : List Placed} {p : Placed}
    (g : Geometry w) (nf : NoFaults w) (hm : Mallocs w) (hc : ChainFrom w s l) (ha : Ascii name)
    (h₁ : 1 ≤ name.length) (h₂ : name.length ≤ 255) (hs : StartsEntry short.first)
    (hw : Written w l name short attributes cluster pre p) :
    ∃ log info, fat32IterateDirectory s recordCallback [] w = some ((0, log), w) ∧
      log[entryCount pre]? = some (info, p.cluster, p.index) ∧ info.filename = name.take 13 ∧
      info.hasLongName = true := by
  obtain ⟨⟨mid, post, hslots, hbytes⟩, hpre, hattr⟩ := hw
  rw [entryBytes, if_pos rfl, List.map_append, List.map_singleton] at hbytes
  obtain ⟨hmid, hp⟩ := List.append_inj' hbytes rfl
  have hp : p.slot = dirEntry short attributes cluster 0 := by simpa using hp
  have hend : ∀ q ∈ pre ++ (mid ++ [p]), notEnd q = true := by
    intro q hq
    rcases List.mem_append.mp hq with hq | hq
    · exact hpre q hq
    · have hs' : q.slot ∈ lfnSlots name short ++ [dirEntry short attributes cluster 0] := by
        rw [← hmid, ← hp, ← List.map_singleton, ← List.map_append]
        exact List.mem_map_of_mem hq
      rcases List.mem_append.mp hs' with hs' | hs'
      · obtain ⟨i, hi, he⟩ := List.mem_map.mp hs'
        have hlt := List.mem_range.mp hi
        have hle := lfnEntries_le h₂
        rw [notEnd, ← he, slotKind_lfnSlot (by omega) (by omega)]
        rfl
      · rw [notEnd, List.mem_singleton.mp hs', slotKind_dirEntry hs hattr]
        rfl
  obtain ⟨info, hinfo, hname, hlong⟩ :=
    reportsOf_entryBytes ha h₁ h₂ hs hattr hmid hp (stateAfter Lfn.init pre)
  refine ⟨(reports (dirSlots w l)).map fun r => (r.info, r.place.cluster, r.place.index), info,
    ?_, ?_, hname, hlong⟩
  · rw [iterateDirectory_eq g nf hm hc, feed_record, outcome, List.nil_append]
  · rw [reports, hslots, List.takeWhile_append_of_pos hend, reportsOf_append, reportsOf_append,
      hinfo, List.map_append, List.map_append]
    rw [List.getElem?_append_left (by simp [length_reportsOf]),
      List.getElem?_append_right (by simp [length_reportsOf])]
    simp [length_reportsOf]

/-- **A long name survives exactly when it has at most 13 characters.** For
every name of 1 to 255 ASCII characters, every short name chosen for it and
every directory that holds the slots written for it, the callback is told of
the entry under its name, as a long name, if and only if it fits one slot. -/
theorem long_name_survives_iff {name : CStr} (ha : Ascii name) (h₁ : 1 ≤ name.length)
    (h₂ : name.length ≤ 255) {short : ShortName} {dirCluster : Nat} {lfn : Bool} {w₀ w₁ : World}
    (hs : fat32PrepareShortName dirCluster name w₀ = some (some (short, lfn), w₁))
    {w : World} {s : Nat} {l : List Nat} {attributes : UInt8} {cluster : Nat} {pre : List Placed}
    {p : Placed} (g : Geometry w) (nf : NoFaults w) (hm : Mallocs w) (hc : ChainFrom w s l)
    (hw : Written w l name short attributes cluster pre p) :
    ∃ log info, fat32IterateDirectory s recordCallback [] w = some ((0, log), w) ∧
      log[entryCount pre]? = some (info, p.cluster, p.index) ∧
      (info.filename = name ∧ info.hasLongName = true ↔ name.length ≤ 13) := by
  have hstart : StartsEntry short.first :=
    (prepareShortName_chosen dirCluster name w₀ trivial _ _ hs short lfn rfl).startsEntry ha
  obtain ⟨log, info, hrun, hlog, hname, hlong⟩ := scan_tells g nf hm hc ha h₁ h₂ hstart hw
  refine ⟨log, info, hrun, hlog, ?_⟩
  rw [hname, hlong]
  simp only [and_true, List.take_eq_self_iff]

/-! ## A name that fits and one that does not -/

theorem entryBytes_outside {name : CStr} {short : ShortName} {lfn : Bool} {attributes : UInt8}
    {cluster : Nat} : ∀ e ∈ entryBytes name short lfn attributes cluster,
    ∀ i, slotSize ≤ i → e i = 0 := by
  intro e he i hi
  have hi : 32 ≤ i := hi
  rw [entryBytes] at he
  rcases List.mem_append.mp he with he | he
  · split at he
    · obtain ⟨j, -, rfl⟩ := List.mem_map.mp he
      simp only [lfnSlot, lfnEntry]
      rw [if_neg (by omega), if_neg (by omega), if_neg (by omega), if_neg (by omega),
        if_neg (by omega), if_neg (by omega)]
    · cases he
  · rw [List.mem_singleton.mp he, dirEntry, if_neg (by omega), if_neg (by omega), if_neg (by omega),
      if_neg (by omega), if_neg (by omega)]

theorem written_rootVolume (name : CStr) (short : ShortName) (h : lfnEntries name < 16) :
    ∃ p, Written (rootVolume (entryBytes name short true attrArchive 0)) [2] name short attrArchive
      0 [] p := by
  generalize hs : entryBytes name short true attrArchive 0 = slots
  have hout : ∀ e ∈ slots, ∀ i, slotSize ≤ i → e i = 0 := hs ▸ entryBytes_outside
  have hlen : slots.length = lfnEntries name + 1 := by simp [← hs, entryBytes, lfnSlots]
  let f : Nat → Placed := fun i => ⟨2, i, slots.getD i fun _ => 0⟩
  have hrange : List.range' 0 16 = List.range' 0 (lfnEntries name + 1) ++
      List.range' (lfnEntries name + 1) (15 - lfnEntries name) := by
    have := List.range'_append_1 (s := 0) (m := lfnEntries name + 1) (n := 15 - lfnEntries name)
    rw [Nat.zero_add] at this
    rw [this]
    congr 1
    omega
  have hfront : (List.range' 0 (lfnEntries name + 1)).map f =
      (List.range' 0 (lfnEntries name)).map f ++ [f (lfnEntries name)] := by
    rw [List.range'_concat, List.map_append, Nat.zero_add, Nat.one_mul, List.map_singleton]
  refine ⟨f (lfnEntries name), ⟨⟨(List.range' 0 (lfnEntries name)).map f,
    (List.range' (lfnEntries name + 1) (15 - lfnEntries name)).map f, ?_, ?_⟩, by simp, .inl rfl⟩⟩
  · rw [dirSlots_rootVolume hout, hrange, List.map_append, List.nil_append, ← hfront]
  · rw [← hfront, hs]
    apply List.ext_getElem
    · simp [hlen]
    · intro i hi hi'
      simp [f, hi']

/-- Fourteen times `a`. -/
def fourteen : CStr := List.replicate 14 0x61

/-- A name of 14 characters loses the last one. -/
theorem fourteenth_character_lost :
    ¬ ∀ (name : CStr) (short : ShortName) (dirCluster : Nat) (lfn : Bool) (w₀ w₁ w : World) (s : Nat)
      (l : List Nat) (attributes : UInt8) (cluster : Nat) (pre : List Placed) (p : Placed),
      Ascii name → 1 ≤ name.length → name.length ≤ 255 →
      fat32PrepareShortName dirCluster name w₀ = some (some (short, lfn), w₁) →
      Geometry w → NoFaults w → Mallocs w → ChainFrom w s l →
      Written w l name short attributes cluster pre p →
      ∃ log info, fat32IterateDirectory s recordCallback [] w = some ((0, log), w) ∧
        log[entryCount pre]? = some (info, p.cluster, p.index) ∧ info.filename = name ∧
        info.hasLongName = true := by
  intro h
  have hprep : (fat32PrepareShortName 2 fourteen (rootVolume [])).map (fun r => r.1.isSome) =
      some true := by decide +kernel
  obtain ⟨⟨r, w₁⟩, hrun, hsome⟩ := Option.map_eq_some_iff.mp hprep
  obtain ⟨⟨short, lfn⟩, rfl⟩ := Option.isSome_iff_exists.mp hsome
  have ha : Ascii fourteen := by decide +kernel
  obtain ⟨p, hw⟩ := written_rootVolume fourteen short (by decide)
  have g := geometry_rootVolume (entryBytes fourteen short true attrArchive 0)
  have hc := chainFrom_rootVolume (entryBytes fourteen short true attrArchive 0)
  have hstart : StartsEntry short.first :=
    (prepareShortName_chosen 2 fourteen _ trivial _ _ hrun short lfn rfl).startsEntry ha
  obtain ⟨log, info, h₁, h₂, h₃, -⟩ := h _ _ _ _ _ _ _ _ _ _ _ _ _ ha (by decide) (by decide) hrun g
    (fun _ => rfl) (fun _ => rfl) hc hw
  obtain ⟨log', info', h₁', h₂', h₃', -⟩ := scan_tells g (fun _ => rfl) (fun _ => rfl) hc ha
    (by decide) (by decide) hstart hw
  rw [h₁] at h₁'
  obtain rfl : log = log' := (Prod.mk.inj (Prod.mk.inj (Option.some.inj h₁')).1).2
  rw [h₂] at h₂'
  obtain rfl : info = info' := (Prod.mk.inj (Option.some.inj h₂')).1
  rw [h₃] at h₃'
  exact absurd h₃' (by decide)

/-- Thirteen times `a`. -/
def thirteen : CStr := List.replicate 13 0x61

/-- A name of 13 characters, written to an empty root directory, comes back. -/
theorem long_name_survives_thirteen :
    ∃ w s log info place, fat32IterateDirectory s recordCallback [] w = some ((0, log), w) ∧
      log[0]? = some (info, place) ∧ info.filename = thirteen ∧ info.hasLongName = true := by
  have hprep : (fat32PrepareShortName 2 thirteen (rootVolume [])).map (fun r => r.1.isSome) =
      some true := by decide +kernel
  obtain ⟨⟨r, w₁⟩, hrun, hsome⟩ := Option.map_eq_some_iff.mp hprep
  obtain ⟨⟨short, lfn⟩, rfl⟩ := Option.isSome_iff_exists.mp hsome
  obtain ⟨p, hw⟩ := written_rootVolume thirteen short (by decide)
  obtain ⟨log, info, h₁, h₂, h₃⟩ := long_name_survives_iff (by decide +kernel) (by decide)
    (by decide) hrun
    (geometry_rootVolume (entryBytes thirteen short true attrArchive 0)) (fun _ => rfl)
    (fun _ => rfl) (chainFrom_rootVolume _) hw
  have hfit := h₃.mpr (by decide)
  exact ⟨_, 2, log, info, _, h₁, h₂, hfit.1, hfit.2⟩

end ContinuumOS.Fat32.LongName
