import ContinuumOS.Fat32.Scan
import ContinuumOS.Lib.Stores

/-! # The arrays of the long-name decoder

`fat32_iterate_directory` with every store that it and its helpers make into
`lfn_name`, `lfn_chunk` and the two names of `info`. What it tells the callback is
what the scan without arrays tells. -/
namespace ContinuumOS.Fat32.Decoder
open ContinuumOS.Lib.Memory ContinuumOS.Lib.Stores ContinuumOS.Libc.String
open ContinuumOS.Fat32.Volume ContinuumOS.Fat32.Device
open ContinuumOS.Fat32.Names ContinuumOS.Fat32.Directory ContinuumOS.Fat32.Scan

/-- `lfn_name`, `lfn_chunk`, `info.short_name` and `info.filename` -/
inductive Arr where
  | lfnName
  | lfnChunk
  | shortName
  | filename
  deriving DecidableEq, Repr

/-- Sizes in bytes. -/
def Arr.size : Arr → Nat
  | .lfnName => lfnNameSize
  | .lfnChunk => 26
  | .shortName => 13
  | .filename => 256

/-! ## The helpers -/

/-- `fat32_utf16le_chunk_to_ascii` into `lfn_name`, from `written` on. -/
def chunkStores (destSize : Nat) : List Nat → Nat → List (Store Arr)
  | [], written =>
    if written < destSize then [⟨.lfnName, written, 0⟩]
    else if destSize > 0 then [⟨.lfnName, destSize - 1, 0⟩]
    else []
  | ch :: src, written =>
    if written + 1 < destSize then
      if ch = 0xFFFF ∨ ch = 0 then [⟨.lfnName, written, 0⟩]
      else
        let out : UInt8 := if ch ≤ 0x7F then UInt8.ofNat ch else 0x3F
        ⟨.lfnName, written, out⟩ :: chunkStores destSize src (written + 1)
    else if written < destSize then [⟨.lfnName, written, 0⟩]
    else if destSize > 0 then [⟨.lfnName, destSize - 1, 0⟩]
    else []

/-- A loop that copies bytes to `out[pos++]` while there is room, and `pos` behind it. -/
def copyStores (outSize : Nat) : List UInt8 → Nat → List (Store Arr) × Nat
  | [], pos => ([], pos)
  | b :: bytes, pos =>
    if pos + 1 < outSize then
      let (stores, last) := copyStores outSize bytes (pos + 1)
      (⟨.shortName, pos, b⟩ :: stores, last)
    else copyStores outSize bytes pos

/-- `name_bytes` -/
def nameBytes (name : ShortName) : List UInt8 :=
  (if name.first = 0x05 then 0xE5 else name.first) :: name.bytes.tail

/-- `fat32_short_name_to_string` into `short_name`. -/
def shortNameStores (name : ShortName) (outSize : Nat) : List (Store Arr) :=
  if outSize = 0 then []
  else
    let base := ((nameBytes name).take 8).takeWhile (· ≠ 0x20)
    let ext := ((nameBytes name).drop 8).takeWhile (· ≠ 0x20)
    let (stores, pos) := copyStores outSize base 0
    let (stores, pos) := if ext.length > 0 ∧ pos + ext.length + 1 < outSize then
        let (more, last) := copyStores outSize ext (pos + 1)
        (stores ++ ⟨.shortName, pos, dot⟩ :: more, last)
      else (stores, pos)
    stores ++ [⟨.shortName, pos, 0⟩]

def memsetStores (a : Arr) (size : Nat) : List (Store Arr) := copyTo a 0 (List.replicate size 0)

/-- `memcpy` of the bytes of `src` from `offset` on. -/
def memcpyStores (a : Arr) (start : Nat) (src : Buf) (offset size : Nat) : List (Store Arr) :=
  copyTo a start ((List.range size).map fun i => src (offset + i))

/-- The string is copied, and NULs behind it. -/
def strncpyStores (a : Arr) (src : Buf) (n : Nat) : List (Store Arr) :=
  copyTo a 0 ((List.range n).map fun i => (cstrOf src n).getD i 0)

/-! ## The scan -/

/-- The variables of the scan, the stores made so far and the names handed to the
callback. -/
structure Scanner where
  arrays : Arr → Buf
  expected : Nat
  collected : Nat
  checksum : UInt8
  stores : List (Store Arr)
  handed : List (Buf × Buf)

variable (sc : Scanner)

def Scanner.write (stores : List (Store Arr)) : Scanner :=
  { sc with arrays := performAll sc.arrays stores, stores := sc.stores ++ stores }

/-- `lfn_name[0] = '\0'` comes first; the arrays hold anything. -/
def Scanner.start (arrays : Arr → Buf) : Scanner :=
  Scanner.write ⟨arrays, 0, 0, 0, [], []⟩ [⟨.lfnName, 0, 0⟩]

def Scanner.reset : Scanner :=
  { sc.write [⟨.lfnName, 0, 0⟩] with expected := 0, collected := 0 }

/-- The flagged slot clears `lfn_name`. -/
def Scanner.begin (seq : Nat) : Scanner :=
  { sc.write (memsetStores .lfnName lfnNameSize) with expected := seq, collected := 0 }

/-- The three parts of a slot, copied to `lfn_chunk`. -/
def Scanner.readChunk (e : Buf) : Scanner :=
  sc.write (memcpyStores .lfnChunk 0 e 1 10 ++ memcpyStores .lfnChunk 10 e 14 12 ++
    memcpyStores .lfnChunk 22 e 28 4)

/-- A character of `lfn_chunk`. -/
def Scanner.chunk (i : Nat) : Nat := readHalf (sc.arrays .lfnChunk) (2 * i)

def Scanner.collect (e : Buf) : Scanner :=
  let order := e 0
  let seq := (order &&& 0x1F).toNat
  if seq = 0 then sc.reset
  else
    let sc := if order &&& 0x40 ≠ 0 then sc.begin seq else sc
    if seq > sc.expected then sc.reset
    else
      let sc := sc.readChunk e
      let sc := sc.write (chunkStores lfnNameSize ((List.range 13).map sc.chunk) ((seq - 1) * 13))
      { sc with checksum := lfnChecksumOf e, collected := sc.collected + 1 }

/-- The condition on which the long name is told. -/
def Scanner.Names (e : Buf) : Prop :=
  sc.expected > 0 ∧ sc.collected = sc.expected ∧ sc.checksum = fat32LfnChecksum (slotName e) ∧
    sc.arrays .lfnName 0 ≠ 0

instance (e : Buf) : Decidable (sc.Names e) := inferInstanceAs (Decidable (_ ∧ _))

/-- A string of at most 255 characters into `info.filename`. -/
def Scanner.nameFile (src : Arr) : Scanner :=
  (sc.write (strncpyStores .filename (sc.arrays src) 255)).write [⟨.filename, 255, 0⟩]

/-- The names of `info`. -/
def Scanner.fillInfo (e : Buf) : Scanner :=
  let sc := sc.write (memsetStores .filename 256 ++ memsetStores .shortName 13)
  let sc := sc.write (shortNameStores (slotName e) 13)
  let sc := sc.nameFile .shortName
  if sc.Names e then sc.nameFile .lfnName else sc

/-- `info`, as the arrays hold it. -/
def Scanner.info (e : Buf) : FileInfo :=
  { filename := cstrOf (sc.arrays .filename) 255
    shortName := cstrOf (sc.arrays .shortName) 12
    hasLongName := decide (sc.Names e)
    attributes := slotAttributes e
    size := slotFileSize e
    cluster := slotCluster e }

/-- The names are handed to the callback. -/
def Scanner.hand : Scanner :=
  { sc with handed := sc.handed ++ [(sc.arrays .filename, sc.arrays .shortName)] }

/-- The loops over the slots of a directory. -/
def scanSlots {κ : Type} (callback : Callback κ) :
    Scanner → List Placed → κ → Scanner × Int × κ
  | sc, [], context => (sc, 0, context)
  | sc, p :: ps, context =>
    match slotKind p.slot with
    | .endOfDirectory => (sc, 0, context)
    | .deleted => scanSlots callback sc.reset ps context
    | .longName => scanSlots callback (sc.collect p.slot) ps context
    | .volumeId => scanSlots callback sc.reset ps context
    | .entry =>
      let sc := sc.fillInfo p.slot
      let info := sc.info p.slot
      let sc := sc.reset.hand
      let (result, context) := callback p.slot info p.cluster p.index context
      if result > 0 then (sc, 0, context)
      else if result < 0 then (sc, result, context)
      else scanSlots callback sc ps context

/-- Every store is inside its array, and the names handed over end in them. -/
structure Safe (sc : Scanner) : Prop where
  stores : AllInside Arr.size sc.stores
  handed : ∀ names ∈ sc.handed, (∃ i ≤ 255, names.1 i = 0) ∧ ∃ i ≤ 12, names.2 i = 0

/-- The scan without arrays. Where no name is expected, only the first byte of
`lfn_name` counts. -/
structure Agrees (sc : Scanner) (st : Lfn) : Prop where
  expected : sc.expected = st.expected
  collected : sc.collected = st.collected
  checksum : sc.checksum = st.checksum
  head : sc.arrays .lfnName 0 = st.name 0
  text : 0 < st.expected → ∀ i < lfnNameSize, sc.arrays .lfnName i = st.name i

/-- The text that `fat32_short_name_to_string` writes. -/
def shortText (name : ShortName) : List UInt8 :=
  let base := ((nameBytes name).take 8).takeWhile (· ≠ 0x20)
  let ext := ((nameBytes name).drop 8).takeWhile (· ≠ 0x20)
  if ext.length > 0 then base ++ dot :: ext else base

section

variable {m : Arr → Buf} {sc : Scanner} {st : Lfn} {e : Buf}

/-! ## Strings in arrays -/

theorem cstrOf_of_terminated {buf : Buf} {n : Nat} {chars : List UInt8} (hlen : chars.length ≤ n)
    (hb : ∀ i, i < chars.length → buf i = chars.getD i 0) (hz : buf chars.length = 0) :
    cstrOf buf n = chars.takeWhile (· ≠ 0) := by
  have hfront : (List.range chars.length).map buf = chars := by
    refine List.ext_getElem (by simp) fun i hi hi' => ?_
    rw [List.getElem_map, List.getElem_range, hb i hi', List.getD_eq_getElem?_getD,
      List.getElem?_eq_getElem hi', Option.getD_some]
  have hsplit : (List.range n).map buf =
      chars ++ ((List.range' chars.length (n - chars.length)).map buf) := by
    have hrange := List.range'_append_1 (s := 0) (m := chars.length) (n := n - chars.length)
    rw [Nat.zero_add, Nat.add_sub_cancel' hlen] at hrange
    rw [List.range_eq_range', ← hrange, List.map_append, ← List.range_eq_range', hfront]
  have hrest : ((List.range' chars.length (n - chars.length)).map buf).takeWhile
      (fun c => decide (c ≠ 0)) = [] := by
    cases n - chars.length with
    | zero => rfl
    | succ k =>
      rw [List.range'_succ, List.map_cons, hz]
      rfl
  rw [cstrOf, hsplit, List.takeWhile_append, hrest, List.append_nil]
  split
  · rename_i hall
    exact ((List.takeWhile_prefix fun c : UInt8 => decide (c ≠ 0)).eq_of_length hall).symm
  · rfl

theorem cstrOf_congr {buf buf' : Buf} {n : Nat} (h : ∀ i < n, buf i = buf' i) :
    cstrOf buf n = cstrOf buf' n := by
  rw [cstrOf, cstrOf, List.map_congr_left fun i hi => h i (List.mem_range.mp hi)]

theorem length_cstrOf (buf : Buf) (n : Nat) : (cstrOf buf n).length ≤ n := by
  have hle := (List.takeWhile_prefix (fun c : UInt8 => decide (c ≠ 0))
    (l := (List.range n).map buf)).length_le
  rw [List.length_map, List.length_range] at hle
  exact hle

/-! ## What is stored -/

theorem chunkStores_inside (units : List Nat) : ∀ written,
    AllInside Arr.size (chunkStores lfnNameSize units written) := by
  have hend : ∀ written, AllInside Arr.size (if written < lfnNameSize then
      [⟨.lfnName, written, 0⟩] else if lfnNameSize > 0 then [⟨.lfnName, lfnNameSize - 1, 0⟩]
      else []) := by
    intro written
    split
    · rename_i hlt
      exact allInside_cons.mpr ⟨hlt, allInside_nil⟩
    · exact allInside_cons.mpr ⟨by decide, allInside_nil⟩
  induction units with
  | nil => exact hend
  | cons ch units ih =>
    intro written
    rw [chunkStores]
    split
    · rename_i hroom
      have hlt : written < lfnNameSize := Nat.lt_of_succ_lt hroom
      split
      · exact allInside_cons.mpr ⟨hlt, allInside_nil⟩
      · exact allInside_cons.mpr ⟨hlt, ih (written + 1)⟩
    · exact hend written

/-- **The stores of the decoder write what the decoder without arrays writes.** -/
theorem performAll_chunkStores (units : List Nat) : ∀ (m : Arr → Buf) (written : Nat),
    performAll m (chunkStores lfnNameSize units written) .lfnName =
      fat32Utf16leChunkToAscii (m .lfnName) units written := by
  have hend : ∀ (m : Arr → Buf) (written : Nat), performAll m (if written < lfnNameSize then
      [⟨.lfnName, written, 0⟩] else if lfnNameSize > 0 then [⟨.lfnName, lfnNameSize - 1, 0⟩]
      else []) .lfnName = if written < lfnNameSize then writeByte (m .lfnName) written 0
        else writeByte (m .lfnName) (lfnNameSize - 1) 0 := by
    intro m written
    split
    · exact performAll_single ..
    · exact performAll_single ..
  induction units with
  | nil => exact hend
  | cons ch units ih =>
    intro m written
    rw [chunkStores, fat32Utf16leChunkToAscii]
    split
    · split
      · exact performAll_single ..
      · rw [performAll_cons, ih, @perform_same Arr _ m ⟨.lfnName, written, _⟩]
    · exact hend m written

theorem chunkToAscii_congr (units : List Nat) : ∀ {dest dest' : Buf} (written : Nat),
    (∀ i < lfnNameSize, dest i = dest' i) → ∀ i < lfnNameSize,
      fat32Utf16leChunkToAscii dest units written i =
        fat32Utf16leChunkToAscii dest' units written i := by
  have hput : ∀ {dest dest' : Buf} (place : Nat) (b : UInt8),
      (∀ i < lfnNameSize, dest i = dest' i) → ∀ i < lfnNameSize,
        writeByte dest place b i = writeByte dest' place b i := by
    intro dest dest' place b h i hi
    by_cases hsame : i = place
    · rw [hsame, writeByte_same, writeByte_same]
    · rw [writeByte_outside hsame, writeByte_outside hsame, h i hi]
  have hend : ∀ {dest dest' : Buf} (written : Nat), (∀ i < lfnNameSize, dest i = dest' i) →
      ∀ i < lfnNameSize, (if written < lfnNameSize then writeByte dest written 0
        else writeByte dest (lfnNameSize - 1) 0) i = (if written < lfnNameSize then
          writeByte dest' written 0 else writeByte dest' (lfnNameSize - 1) 0) i := by
    intro dest dest' written h i hi
    split
    · exact hput _ _ h i hi
    · exact hput _ _ h i hi
  induction units with
  | nil => exact hend
  | cons ch units ih =>
    intro dest dest' written h
    rw [fat32Utf16leChunkToAscii, fat32Utf16leChunkToAscii]
    split
    · split
      · exact hput _ _ h
      · exact ih (written + 1) (hput _ _ h)
    · exact hend written h

theorem copyStores_eq (outSize : Nat) (bytes : List UInt8) : ∀ pos,
    pos + bytes.length < outSize →
      copyStores outSize bytes pos = (copyTo .shortName pos bytes, pos + bytes.length) := by
  induction bytes with
  | nil => exact fun pos _ => rfl
  | cons b bytes ih =>
    intro pos h
    rw [List.length_cons] at h
    rw [copyStores, if_pos (by omega), ih (pos + 1) (by omega), copyTo, List.length_cons,
      Nat.add_right_comm, Nat.add_assoc]

theorem length_shortParts (name : ShortName) :
    (((nameBytes name).take 8).takeWhile (· ≠ 0x20)).length ≤ 8 ∧
      (((nameBytes name).drop 8).takeWhile (· ≠ 0x20)).length ≤ 3 := by
  have hlength : (nameBytes name).length = 11 := by
    rw [nameBytes, List.length_cons, List.length_tail, name.length_eq]
  have hbase := (List.takeWhile_prefix (fun c : UInt8 => decide (c ≠ 0x20))
    (l := (nameBytes name).take 8)).length_le
  have hext := (List.takeWhile_prefix (fun c : UInt8 => decide (c ≠ 0x20))
    (l := (nameBytes name).drop 8)).length_le
  rw [List.length_take] at hbase
  rw [List.length_drop] at hext
  omega

theorem length_shortText (name : ShortName) : (shortText name).length ≤ 12 := by
  obtain ⟨hbase, hext⟩ := length_shortParts name
  rw [shortText]
  split
  · rw [List.length_append, List.length_cons]
    omega
  · omega

theorem shortNameStores_eq (name : ShortName) :
    shortNameStores name 13 = copyTo .shortName 0 (shortText name ++ [0]) := by
  obtain ⟨hbase, hext⟩ := length_shortParts name
  rw [shortNameStores, shortText, if_neg (by decide)]
  generalize ((nameBytes name).take 8).takeWhile (· ≠ 0x20) = base at hbase
  generalize ((nameBytes name).drop 8).takeWhile (· ≠ 0x20) = ext at hext
  dsimp only
  rw [copyStores_eq 13 base 0 (by omega)]
  by_cases hdot : ext.length > 0
  · rw [if_pos ⟨hdot, by omega⟩, if_pos hdot, copyStores_eq 13 ext _ (by omega), copyTo_append,
      copyTo_append, copyTo, List.length_append, List.length_cons]
    have hend : 0 + base.length + 1 + ext.length = 0 + (base.length + (ext.length + 1)) := by omega
    rw [hend]
    rfl
  · rw [if_neg fun h => hdot h.1, if_neg hdot, copyTo_append]
    rfl

/-! ## Copies -/

theorem getD_map_range {n i : Nat} (f : Nat → UInt8) (b : UInt8) (hi : i < n) :
    ((List.range n).map f).getD i b = f i := by
  rw [List.getD_eq_getElem?_getD, List.getElem?_map, List.getElem?_range hi]
  rfl

theorem memcpy_byte (m : Arr → Buf) (a : Arr) (start : Nat) (src : Buf) (offset size i : Nat)
    (hi : i < size) : performAll m (memcpyStores a start src offset size) a (start + i) =
      src (offset + i) := by
  rw [memcpyStores, performAll_copyTo, if_pos (by omega), Nat.add_sub_cancel_left,
    getD_map_range _ _ hi]

theorem strncpy_text (m : Arr → Buf) (a : Arr) (src : Buf) (n : Nat) :
    ∀ i < n, performAll m (strncpyStores a src n) a i = (cstrOf src n).getD i 0 := by
  intro i hi
  rw [strncpyStores, performAll_copyTo, if_pos (Nat.zero_le i), Nat.sub_zero,
    getD_map_range _ _ hi]

theorem strncpyStores_inside {a : Arr} {n : Nat} (src : Buf) (h : n ≤ a.size) :
    AllInside Arr.size (strncpyStores a src n) := by
  refine copyTo_inside _ 0 ?_
  rw [List.length_map, List.length_range]
  omega

theorem memsetStores_inside {a : Arr} {n : Nat} (h : n ≤ a.size) :
    AllInside Arr.size (memsetStores a n) := by
  refine copyTo_inside _ 0 ?_
  rw [List.length_replicate]
  omega

theorem memcpyStores_inside {a : Arr} {start n : Nat} (src : Buf) (offset : Nat)
    (h : start + n ≤ a.size) : AllInside Arr.size (memcpyStores a start src offset n) := by
  refine copyTo_inside _ start ?_
  rw [List.length_map, List.length_range]
  exact h

theorem shortNameStores_inside (name : ShortName) :
    AllInside Arr.size (shortNameStores name 13) := by
  have hlength := length_shortText name
  rw [shortNameStores_eq]
  refine copyTo_inside _ 0 ?_
  rw [List.length_append, List.length_singleton, Nat.zero_add]
  exact Nat.succ_le_succ hlength

/-! ## Stores of the scan -/

theorem Safe.write (h : Safe sc) {stores : List (Store Arr)} (hs : AllInside Arr.size stores) :
    Safe (sc.write stores) := ⟨allInside_append.mpr ⟨h.stores, hs⟩, h.handed⟩

theorem Safe.reset (h : Safe sc) : Safe sc.reset :=
  ⟨(h.write (allInside_cons.mpr ⟨by decide, allInside_nil⟩)).stores, h.handed⟩

theorem Safe.collect (h : Safe sc) (e : Buf) : Safe (sc.collect e) := by
  rw [Scanner.collect]
  dsimp only
  split
  · exact h.reset
  have hbegin : Safe (if e 0 &&& 0x40 ≠ 0 then sc.begin (e 0 &&& 0x1F).toNat else sc) := by
    split
    · exact ⟨(h.write (memsetStores_inside (Nat.le_refl _))).stores, h.handed⟩
    · exact h
  generalize (if e 0 &&& 0x40 ≠ 0 then sc.begin (e 0 &&& 0x1F).toNat else sc) = sc' at hbegin ⊢
  split
  · exact hbegin.reset
  · have hchunk : Safe (sc'.readChunk e) := hbegin.write (allInside_append.mpr
      ⟨allInside_append.mpr ⟨memcpyStores_inside e 1 (by decide),
        memcpyStores_inside e 14 (by decide)⟩, memcpyStores_inside e 28 (by decide)⟩)
    exact ⟨(hchunk.write (chunkStores_inside _ _)).stores, hchunk.handed⟩

/-! ## The names of an entry -/

theorem write_arrays (sc : Scanner) (stores : List (Store Arr)) :
    (sc.write stores).arrays = performAll sc.arrays stores := rfl

theorem write_of_ne (sc : Scanner) {stores : List (Store Arr)} {a b : Arr} (h : Into a stores)
    (hb : b ≠ a) : (sc.write stores).arrays b = sc.arrays b := performAll_of_ne h hb

theorem nameFile_of_ne (sc : Scanner) (src : Arr) {a : Arr} (ha : a ≠ .filename) :
    (sc.nameFile src).arrays a = sc.arrays a := by
  rw [Scanner.nameFile, write_of_ne _ (into_single _ _ _) ha, strncpyStores,
    write_of_ne _ (into_copyTo _ _) ha]

theorem nameFile_end (sc : Scanner) (src : Arr) :
    (sc.nameFile src).arrays .filename 255 = 0 := by
  rw [Scanner.nameFile, write_arrays, performAll_single, writeByte_same]

theorem nameFile_text (sc : Scanner) (src : Arr) :
    cstrOf ((sc.nameFile src).arrays .filename) 255 = cstrOf (sc.arrays src) 255 := by
  have hcopied : ∀ i < 255, (sc.nameFile src).arrays .filename i =
      (cstrOf (sc.arrays src) 255).getD i 0 := by
    intro i hi
    have hne : i ≠ 255 := Nat.ne_of_lt hi
    rw [Scanner.nameFile, write_arrays, performAll_single, writeByte_outside hne, write_arrays]
    exact strncpy_text sc.arrays .filename (sc.arrays src) 255 i hi
  have hlength := length_cstrOf (sc.arrays src) 255
  have hself : (cstrOf (sc.arrays src) 255).takeWhile (· ≠ 0) = cstrOf (sc.arrays src) 255 := by
    refine List.takeWhile_eq_self_iff.mpr fun c hc => ?_
    have hne := List.mem_takeWhile_imp hc
    exact hne
  refine (cstrOf_of_terminated hlength (fun i hi => hcopied i (by omega)) ?_).trans hself
  rcases Nat.lt_or_ge (cstrOf (sc.arrays src) 255).length 255 with hlt | hge
  · rw [hcopied _ hlt, List.getD_eq_getElem?_getD, List.getElem?_eq_none (Nat.le_refl _)]
    rfl
  · rw [Nat.le_antisymm hlength hge]
    exact nameFile_end sc src

theorem Safe.nameFile (h : Safe sc) (src : Arr) : Safe (sc.nameFile src) :=
  (h.write (strncpyStores_inside _ (by decide))).write
    (allInside_cons.mpr ⟨by decide, allInside_nil⟩)

theorem Safe.fillInfo (h : Safe sc) (e : Buf) : Safe (sc.fillInfo e) := by
  have hnames : AllInside Arr.size (memsetStores .filename 256 ++ memsetStores .shortName 13) :=
    allInside_append.mpr ⟨memsetStores_inside (by decide), memsetStores_inside (by decide)⟩
  have hclear := h.write hnames
  have hshort := (hclear.write (shortNameStores_inside (slotName e))).nameFile .shortName
  rw [Scanner.fillInfo]
  split
  · exact hshort.nameFile .lfnName
  · exact hshort

/-- What an entry leaves in the arrays of the names. -/
structure Filled (sc sc' : Scanner) (e : Buf) : Prop where
  expected : sc'.expected = sc.expected
  collected : sc'.collected = sc.collected
  checksum : sc'.checksum = sc.checksum
  lfnName : sc'.arrays .lfnName = sc.arrays .lfnName
  short : ∀ i, i < (shortText (slotName e) ++ [0]).length →
    sc'.arrays .shortName i = (shortText (slotName e) ++ [0]).getD i 0
  ended : sc'.arrays .filename 255 = 0

theorem filled_short (sc : Scanner) (e : Buf) :
    Filled sc (((sc.write (memsetStores .filename 256 ++ memsetStores .shortName 13)).write
      (shortNameStores (slotName e) 13)).nameFile .shortName) e := by
  refine ⟨rfl, rfl, rfl, ?_, fun i hi => ?_, nameFile_end _ _⟩
  · have hne : Arr.lfnName ≠ .shortName := by decide
    have hne' : Arr.lfnName ≠ .filename := by decide
    rw [nameFile_of_ne _ _ hne', shortNameStores_eq, write_of_ne _ (into_copyTo _ _) hne,
      write_arrays, performAll_append, memsetStores, memsetStores,
      performAll_of_ne (into_copyTo _ _) hne, performAll_of_ne (into_copyTo _ _) hne']
  · rw [nameFile_of_ne _ _ (by decide), shortNameStores_eq, write_arrays, performAll_copyTo,
      if_pos (Nat.zero_le i), Nat.sub_zero, List.getD_eq_getElem?_getD,
      List.getD_eq_getElem?_getD, List.getElem?_eq_getElem hi, Option.getD_some, Option.getD_some]

theorem Filled.nameFile {sc' : Scanner} (h : Filled sc sc' e) (src : Arr) :
    Filled sc (sc'.nameFile src) e := by
  refine ⟨h.expected, h.collected, h.checksum, ?_, fun i hi => ?_, nameFile_end _ _⟩
  · rw [nameFile_of_ne _ _ (by decide), h.lfnName]
  · rw [nameFile_of_ne _ _ (by decide), h.short i hi]

theorem filled_fillInfo (sc : Scanner) (e : Buf) : Filled sc (sc.fillInfo e) e := by
  have hshort := filled_short sc e
  rw [Scanner.fillInfo]
  split
  · exact hshort.nameFile .lfnName
  · exact hshort

theorem Filled.names {sc' : Scanner} (h : Filled sc sc' e) : sc'.Names e ↔ sc.Names e := by
  rw [Scanner.Names, Scanner.Names, h.expected, h.collected, h.checksum, h.lfnName]

theorem Filled.shortText_eq {sc' : Scanner} (h : Filled sc sc' e) {n : Nat} (hn : 12 ≤ n) :
    cstrOf (sc'.arrays .shortName) n = fat32ShortNameToString (slotName e) ∧
      sc'.arrays .shortName (shortText (slotName e)).length = 0 := by
  have hlength := length_shortText (slotName e)
  have hall : (shortText (slotName e) ++ [0]).length = (shortText (slotName e)).length + 1 := by
    rw [List.length_append, List.length_singleton]
  have hzero : sc'.arrays .shortName (shortText (slotName e)).length = 0 := by
    rw [h.short _ (by omega), List.getD_eq_getElem?_getD, List.getElem?_concat_length]
    rfl
  refine ⟨@cstrOf_of_terminated _ n (shortText (slotName e)) (by omega) (fun i hi => ?_) hzero,
    hzero⟩
  rw [h.short i (by omega), List.getD_eq_getElem?_getD, List.getD_eq_getElem?_getD,
    List.getElem?_append_left hi]

/-! ## The scan without arrays -/

theorem Agrees.names (h : Agrees sc st) : sc.Names e ↔ st.Names e := by
  rw [Scanner.Names, Lfn.Names, h.expected, h.collected, h.checksum, h.head]

/-- **The callback is told what the scan without arrays tells.** -/
theorem Agrees.info (h : Agrees sc st) (e : Buf) : (sc.fillInfo e).info e = slotInfo st e := by
  have hfilled := filled_fillInfo sc e
  have hshort := filled_short sc e
  have hnames := hfilled.names.trans (h.names (e := e))
  have hfile : cstrOf ((sc.fillInfo e).arrays .filename) 255 =
      if st.Names e then cstrOf st.name 255 else fat32ShortNameToString (slotName e) := by
    have hlong := hshort.names.trans (h.names (e := e))
    rw [Scanner.fillInfo]
    by_cases hn : st.Names e
    · rw [if_pos (hlong.mpr hn), if_pos hn, nameFile_text, hshort.lfnName]
      exact cstrOf_congr fun i hi => h.text hn.1 i (Nat.lt_succ_of_lt hi)
    · rw [if_neg fun hyes => hn (hlong.mp hyes), if_neg hn, nameFile_text]
      have hread := (hshort.shortText_eq (n := 255) (by decide)).1
      rwa [nameFile_of_ne _ _ (by decide)] at hread
  rw [Scanner.info, slotInfo, hfile, (hfilled.shortText_eq (Nat.le_refl 12)).1,
    decide_eq_decide.mpr hnames]

theorem Agrees.reset (h : Agrees sc st) : Agrees sc.reset st.reset := by
  refine ⟨rfl, rfl, h.checksum, ?_, fun hpos => absurd hpos (Nat.lt_irrefl 0)⟩
  rw [Scanner.reset, write_arrays, performAll_single, writeByte_same]
  exact (@writeByte_same st.name 0 0).symm

theorem Agrees.begin (h : Agrees sc st) (seq : Nat) : Agrees (sc.begin seq)
    { st with name := fun _ => 0, expected := seq, collected := 0 } := by
  have hclear : ∀ i < lfnNameSize, (sc.begin seq).arrays .lfnName i = 0 := by
    intro i hi
    rw [Scanner.begin, write_arrays, memsetStores, performAll_copyTo, if_pos (Nat.zero_le i),
      Nat.sub_zero, List.getD_eq_getElem?_getD, List.getElem?_replicate, if_pos hi]
    rfl
  exact ⟨rfl, rfl, h.checksum, hclear 0 (by decide), fun _ => hclear⟩

theorem readChunk_of_ne (sc : Scanner) (e : Buf) {a : Arr} (ha : a ≠ .lfnChunk) :
    (sc.readChunk e).arrays a = sc.arrays a := by
  rw [Scanner.readChunk, write_arrays, performAll_append, performAll_append, memcpyStores,
    memcpyStores, memcpyStores, performAll_of_ne (into_copyTo _ _) ha,
    performAll_of_ne (into_copyTo _ _) ha, performAll_of_ne (into_copyTo _ _) ha]

theorem memcpy_before (m : Arr → Buf) (a : Arr) {start i : Nat} (src : Buf) (offset size : Nat)
    (hi : i < start) : performAll m (memcpyStores a start src offset size) a i = m a i := by
  rw [memcpyStores, performAll_copyTo, if_neg (by omega)]

theorem readChunk_byte (sc : Scanner) (e : Buf) {i : Nat} (hi : i < 26) :
    (sc.readChunk e).arrays .lfnChunk i =
      e (if i < 10 then 1 + i else if i < 22 then 14 + (i - 10) else 28 + (i - 22)) := by
  rw [Scanner.readChunk, write_arrays, performAll_append, performAll_append]
  by_cases h₁ : i < 10
  · rw [memcpy_before _ _ _ _ _ (by omega), memcpy_before _ _ _ _ _ h₁, if_pos h₁]
    have hbyte := memcpy_byte sc.arrays .lfnChunk 0 e 1 10 i h₁
    rwa [Nat.zero_add] at hbyte
  rw [if_neg h₁]
  by_cases h₂ : i < 22
  · obtain ⟨k, rfl⟩ := Nat.exists_eq_add_of_le (Nat.le_of_not_lt h₁)
    rw [memcpy_before _ _ _ _ _ h₂, if_pos h₂, memcpy_byte _ _ _ _ _ _ _ (by omega),
      Nat.add_sub_cancel_left]
  · obtain ⟨k, rfl⟩ := Nat.exists_eq_add_of_le (Nat.le_of_not_lt h₂)
    rw [if_neg h₂, memcpy_byte _ _ _ _ _ _ _ (by omega), Nat.add_sub_cancel_left]

theorem readChunk_chunk (sc : Scanner) (e : Buf) : ∀ i < 13,
    (sc.readChunk e).chunk i = lfnUnit e i := by
  intro i hi
  rw [Scanner.chunk, readHalf, readChunk_byte sc e (by omega), readChunk_byte sc e (by omega),
    lfnUnit, unitOffset, readHalf]
  by_cases h₁ : i < 5
  · rw [if_pos (show 2 * i < 10 by omega), if_pos (show 2 * i + 1 < 10 by omega), if_pos h₁,
      Nat.add_assoc]
  rw [if_neg (show ¬ 2 * i < 10 by omega), if_neg (show ¬ 2 * i + 1 < 10 by omega), if_neg h₁]
  by_cases h₂ : i < 11
  · rw [if_pos (show 2 * i < 22 by omega), if_pos (show 2 * i + 1 < 22 by omega), if_pos h₂,
      show 2 * i - 10 = 2 * (i - 5) by omega,
      show 14 + (2 * i + 1 - 10) = 14 + 2 * (i - 5) + 1 by omega]
  · rw [if_neg (show ¬ 2 * i < 22 by omega), if_neg (show ¬ 2 * i + 1 < 22 by omega), if_neg h₂,
      show 2 * i - 22 = 2 * (i - 11) by omega,
      show 28 + (2 * i + 1 - 22) = 28 + 2 * (i - 11) + 1 by omega]

theorem Agrees.collect (h : Agrees sc st) (e : Buf) : Agrees (sc.collect e) (st.collect e) := by
  rw [Scanner.collect, Lfn.collect]
  dsimp only
  split
  · exact h.reset
  rename_i hseq
  have hbegin : Agrees (if e 0 &&& 0x40 ≠ 0 then sc.begin (e 0 &&& 0x1F).toNat else sc)
      (if e 0 &&& 0x40 ≠ 0 then { st with
        name := fun _ => 0, expected := (e 0 &&& 0x1F).toNat, collected := 0 } else st) := by
    split
    · exact h.begin _
    · exact h
  generalize (if e 0 &&& 0x40 ≠ 0 then sc.begin (e 0 &&& 0x1F).toNat else sc) = sc' at hbegin ⊢
  generalize (if e 0 &&& 0x40 ≠ 0 then { st with
    name := fun _ => 0, expected := (e 0 &&& 0x1F).toNat, collected := 0 } else st) = st'
    at hbegin ⊢
  rw [hbegin.expected]
  split
  · exact hbegin.reset
  rename_i hle
  have hunits : (List.range 13).map (sc'.readChunk e).chunk = (List.range 13).map (lfnUnit e) :=
    List.map_congr_left fun i hi => readChunk_chunk sc' e i (List.mem_range.mp hi)
  have htext : ∀ i < lfnNameSize, performAll (sc'.readChunk e).arrays (chunkStores lfnNameSize
      ((List.range 13).map (sc'.readChunk e).chunk) (((e 0 &&& 0x1F).toNat - 1) * 13)) .lfnName i =
      fat32Utf16leChunkToAscii st'.name ((List.range 13).map (lfnUnit e))
        (((e 0 &&& 0x1F).toNat - 1) * 13) i := by
    rw [performAll_chunkStores, hunits]
    refine chunkToAscii_congr _ _ fun i hi => ?_
    rw [readChunk_of_ne _ _ (by decide)]
    exact hbegin.text (by omega) i hi
  exact ⟨hbegin.expected, congrArg (· + 1) hbegin.collected, rfl, htext 0 (by decide),
    fun _ => htext⟩

theorem Safe.hand (h : Safe sc) (e : Buf) : Safe (sc.fillInfo e).reset.hand := by
  have hfilled := filled_fillInfo sc e
  have hreset := (h.fillInfo e).reset
  refine ⟨hreset.stores, fun names hnames => ?_⟩
  rcases List.mem_append.mp hnames with hold | hnew
  · exact hreset.handed names hold
  rw [List.mem_singleton.mp hnew]
  have hkept : ∀ a ≠ Arr.lfnName, (sc.fillInfo e).reset.arrays a = (sc.fillInfo e).arrays a :=
    fun a ha => write_of_ne _ (into_single _ _ _) ha
  refine ⟨⟨255, Nat.le_refl 255, ?_⟩, ⟨_, length_shortText (slotName e), ?_⟩⟩
  · rw [hkept _ (by decide)]
    exact hfilled.ended
  · rw [hkept _ (by decide)]
    exact (hfilled.shortText_eq (Nat.le_refl 12)).2

theorem Agrees.hand (h : Agrees sc st) (e : Buf) :
    Agrees (sc.fillInfo e).reset.hand st.reset := by
  have hfilled := filled_fillInfo sc e
  have hsame : Agrees (sc.fillInfo e) st := by
    refine ⟨hfilled.expected.trans h.expected, hfilled.collected.trans h.collected,
      hfilled.checksum.trans h.checksum, ?_, ?_⟩
    · rw [hfilled.lfnName]
      exact h.head
    · rw [hfilled.lfnName]
      exact h.text
  have hreset := hsame.reset
  exact ⟨hreset.expected, hreset.collected, hreset.checksum, hreset.head, hreset.text⟩

theorem safe_start (arrays : Arr → Buf) : Safe (.start arrays) :=
  ⟨allInside_cons.mpr ⟨by decide, allInside_nil⟩, fun _ h => nomatch h⟩

theorem agrees_start (arrays : Arr → Buf) : Agrees (.start arrays) Lfn.init := by
  refine ⟨rfl, rfl, rfl, ?_, fun h => absurd h (Nat.lt_irrefl 0)⟩
  rw [Scanner.start, write_arrays, performAll_single, writeByte_same]
  rfl

end

section

variable {κ : Type} {callback : Callback κ}

/-- **Over any slots, the scan stays inside its arrays.** -/
theorem scanSlots_safe (ps : List Placed) : ∀ {sc : Scanner} (context : κ), Safe sc →
    Safe (scanSlots callback sc ps context).1 := by
  induction ps with
  | nil => exact fun _ h => h
  | cons p ps ih =>
    intro sc context h
    rw [scanSlots]
    split
    · exact h
    · exact ih context h.reset
    · exact ih context (h.collect p.slot)
    · exact ih context h.reset
    · have hhand := h.hand p.slot
      dsimp only
      split
      · exact hhand
      split
      · exact hhand
      · exact ih _ hhand

/-- **Over any slots, the scan gives what the scan without arrays gives.** -/
theorem scanSlots_result (ps : List Placed) : ∀ {sc : Scanner} {st : Lfn} (context : κ),
    Agrees sc st → (scanSlots callback sc ps context).2 =
      outcome (feed callback (reportsOf st (ps.takeWhile notEnd)) context) := by
  induction ps with
  | nil => exact fun _ _ => rfl
  | cons p ps ih =>
    intro sc st context h
    have hlong : slotKind p.slot = .longName →
        lfnAfter st p.slot = st.collect p.slot := fun hk => if_pos hk
    have hreset : slotKind p.slot ≠ .longName → lfnAfter st p.slot = st.reset := fun hk => if_neg hk
    rw [scanSlots, List.takeWhile_cons, notEnd]
    cases hkind : slotKind p.slot with
    | endOfDirectory => rfl
    | deleted =>
      rw [hkind] at hreset
      rw [if_pos (by decide), reportsOf, hkind, if_neg (by decide), hreset (by decide)]
      exact ih context h.reset
    | volumeId =>
      rw [hkind] at hreset
      rw [if_pos (by decide), reportsOf, hkind, if_neg (by decide), hreset (by decide)]
      exact ih context h.reset
    | longName =>
      rw [if_pos (by decide), reportsOf, hkind, if_neg (by decide), hlong hkind]
      exact ih context (h.collect p.slot)
    | entry =>
      rw [hkind] at hreset
      have hinfo := h.info p.slot
      have hhand := h.hand p.slot
      rw [if_pos (by decide), reportsOf, if_pos hkind, hreset (by decide), feed]
      dsimp only
      rw [hinfo]
      split
      · rfl
      split
      · rfl
      · exact ih _ hhand

/-- **The long-name decoder stays in its arrays**: whatever slots are read, from
whatever the arrays held before, every store into the four arrays is inside, and every
file name and short name handed to the callback ends inside its array. Over a
directory this is the scan: it gives the same result, for every callback. -/
theorem decoder_inside (callback : Callback κ) (context : κ) (arrays : Arr → Buf)
    (ps : List Placed) :
    Safe (scanSlots callback (.start arrays) ps context).1 ∧
      ∀ w s l, Geometry w → NoFaults w → Mallocs w → ChainFrom w s l → ps = dirSlots w l →
        fat32IterateDirectory s callback context w =
          some ((scanSlots callback (.start arrays) ps context).2, w) := by
  refine ⟨scanSlots_safe ps context (safe_start arrays), ?_⟩
  intro w s l g nf hm h hps
  rw [iterateDirectory_eq g nf hm h, scanSlots_result ps context (agrees_start arrays), hps]
  rfl

end

/-- A root directory with a name of a hundred characters, in eight slots. -/
def longNamed : World :=
  rootVolume (entryBytes (List.replicate 100 0x61) (.ofParts [0x41] []) true attrArchive 0)

theorem decoder_inside_longNamed :
    Safe (scanSlots (listCallback 4) (.start fun _ _ => 0xFF) (dirSlots longNamed [2]) []).1 ∧
      fat32IterateDirectory 2 (listCallback 4) [] longNamed =
        some ((scanSlots (listCallback 4) (.start fun _ _ => 0xFF) (dirSlots longNamed [2]) []).2,
          longNamed) ∧
      ((scanSlots (listCallback 4) (.start fun _ _ => 0xFF) (dirSlots longNamed [2]) []).2.2.map
        fun info => info.hasLongName) = [true] := by
  have h := decoder_inside (listCallback 4) [] (fun _ _ => 0xFF) (dirSlots longNamed [2])
  exact ⟨h.1, h.2 _ 2 [2] (geometry_rootVolume _) (fun _ => rfl) (fun _ => rfl)
    (chainFrom_rootVolume _) rfl, by decide +kernel⟩

end ContinuumOS.Fat32.Decoder
