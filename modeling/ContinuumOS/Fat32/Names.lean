import ContinuumOS.Libc.String
import ContinuumOS.Fat32.Volume

/-! # Short names, long names and directory slots

The name functions of `src/kernel/fat32.cpp` and the 32-byte slots that carry
names: 8.3 names and the aliases made for long names, and the packed records
`fat32_dir_entry_t` and `fat32_lfn_entry_t` as bytes. -/
namespace ContinuumOS.Fat32.Names
open ContinuumOS.Libc.String ContinuumOS.Lib.Memory ContinuumOS.Fat32.Volume

def fat32ToUpper (ch : UInt8) : UInt8 := if 0x61 ≤ ch ∧ ch ≤ 0x7A then ch - 0x20 else ch

def fat32ToLower (ch : UInt8) : UInt8 := if 0x41 ≤ ch ∧ ch ≤ 0x5A then ch + 0x20 else ch

def fat32Casecmp : CStr → CStr → Int
  | a :: as, b :: bs =>
    let ca := fat32ToLower a
    let cb := fat32ToLower b
    if ca ≠ cb then (ca.toNat : Int) - cb.toNat else fat32Casecmp as bs
  | as, bs => ((fat32ToLower (as.headD 0)).toNat : Int) - (fat32ToLower (bs.headD 0)).toNat

/-- The eleven bytes of an 8.3 name. -/
structure ShortName where
  bytes : List UInt8
  length_eq : bytes.length = 11
  deriving DecidableEq

/-- The front of `l`, filled up with blanks. -/
def padded (n : Nat) (l : List UInt8) : List UInt8 := (l ++ List.replicate n 0x20).take n

theorem length_padded (n : Nat) (l : List UInt8) : (padded n l).length = n := by
  simp [padded]

/-- A base name and an extension, each filled up with blanks. -/
def ShortName.ofParts (base ext : List UInt8) : ShortName :=
  ⟨padded 8 base ++ padded 3 ext, by simp [length_padded]⟩

/-- `short_name[0]` -/
def ShortName.first (name : ShortName) : UInt8 := name.bytes.headD 0

def fat32LfnChecksum (name : ShortName) : UInt8 :=
  name.bytes.foldl (fun sum b => (if sum &&& 1 ≠ 0 then (0x80 : UInt8) else 0) + (sum >>> 1) + b) 0

/-- Both callers give 13 bytes, which hold every base name, dot and extension. -/
def fat32ShortNameToString (name : ShortName) : CStr :=
  let first := if name.first = 0x05 then 0xE5 else name.first
  let nameBytes := first :: name.bytes.tail
  let base := (nameBytes.take 8).takeWhile (· ≠ 0x20)
  let ext := (nameBytes.drop 8).takeWhile (· ≠ 0x20)
  -- a NUL among the bytes ends the string
  (if ext.length > 0 then base ++ dot :: ext else base).takeWhile (· ≠ 0)

/-! ## Building short names -/

/-- A character that `fat32_build_short_name` refuses. -/
def isRefused (ch : UInt8) : Bool := ch == 0x20 || ch == 0x2E || ch == 0x2F || ch == 0x5C

/-- The part before the first dot. -/
def beforeDot (name : CStr) : CStr :=
  match strchr dot name with
  | some i => name.take i
  | none => name

/-- The part behind the first dot. -/
def behindDot (name : CStr) : CStr :=
  match strchr dot name with
  | some i => name.drop (i + 1)
  | none => []

def fat32BuildShortName (name : CStr) : Option ShortName :=
  let base := beforeDot name
  let ext := behindDot name
  if base.length = 0 ∨ base.length > 8 ∨ ext.length > 3 then none
  else if (base.map fat32ToUpper).any isRefused then none
  else if (ext.map fat32ToUpper).any isRefused then none
  else some (.ofParts (base.map fat32ToUpper) (ext.map fat32ToUpper))

/-- The punctuation a short name may hold: ``!#$%&'()-@^_`{}~``. -/
def shortPunctuation : List UInt8 :=
  [0x21, 0x23, 0x24, 0x25, 0x26, 0x27, 0x28, 0x29, 0x2D, 0x40, 0x5E, 0x5F, 0x60, 0x7B, 0x7D, 0x7E]

def fat32SanitizeShortChar (ch : UInt8) : UInt8 :=
  let upper := fat32ToUpper ch
  if (0x41 ≤ upper ∧ upper ≤ 0x5A) ∨ (0x30 ≤ upper ∧ upper ≤ 0x39) then upper
  else if shortPunctuation.contains upper then upper
  else 0x5F

/-- Both output buffers have 256 bytes. -/
def fat32ExtractBaseExt (name : CStr) : CStr × CStr :=
  match strrchr dot name with
  | none | some 0 => (name.take 255, [])
  | some i => (name.take (min i 255), (name.drop (i + 1)).take 255)

def fat32SanitizeComponent (input : CStr) (maxLen : Nat) : CStr :=
  ((input.filter (· ≠ 0x20)).take maxLen).map fat32SanitizeShortChar

/-- The loop of `fat32_count_digits`; a `size_t` has at most ten digits. -/
def countDigitsLoop : Nat → Nat → Nat → Nat
  | 0, _, digits => digits
  | left + 1, value, digits =>
    if value ≥ 10 then countDigitsLoop left (value / 10) (digits + 1) else digits

def fat32CountDigits (value : Nat) : Nat := countDigitsLoop 10 value 1

/-- The digits of `value` from the last one on, as `temp` collects them. -/
def tempDigits : Nat → Nat → List UInt8
  | 0, _ => []
  | left + 1, value =>
    if value > 0 then UInt8.ofNat (0x30 + value % 10) :: tempDigits left (value / 10) else []

def fat32DecimalToString (value bufferSize : Nat) : CStr :=
  if value = 0 then (if bufferSize > 1 then [0x30] else [])
  else (tempDigits 20 value).reverse.take (bufferSize - 1)

/-- `FILE` -/
def fileName : CStr := [0x46, 0x49, 0x4C, 0x45]

/-- The base name `fat32_generate_unique_short_name` makes its aliases from. -/
def sanitizedBase (name : CStr) : CStr :=
  let base := fat32SanitizeComponent (fat32ExtractBaseExt name).1 255
  if base = [] then fileName else base

def sanitizedExt (name : CStr) : CStr := fat32SanitizeComponent (fat32ExtractBaseExt name).2 3

/-- The alias with number `suffix`. The base keeps at most six characters, so
there is always room for the tilde. -/
def aliasCandidate (base ext : CStr) (suffix : Nat) : ShortName :=
  let digits := fat32CountDigits suffix
  let baseAllow := if 8 > digits + 1 then 8 - (digits + 1) else 1
  .ofParts (base.take baseAllow ++ 0x7E :: fat32DecimalToString suffix 8) ext

/-! ## Slots -/

/-- `FAT32_ATTR_LONG_NAME` -/
def attrLongName : UInt8 := 0x0F

/-- `FAT32_ATTR_VOLUME_ID` -/
def attrVolumeId : UInt8 := 0x08

/-- `FAT32_ATTR_DIRECTORY` -/
def attrDirectory : UInt8 := 0x10

/-- `FAT32_ATTR_ARCHIVE` -/
def attrArchive : UInt8 := 0x20

/-- `sizeof(fat32_dir_entry_t)` -/
def slotSize : Nat := 32

/-- Slot `index` of a directory cluster: its 32 bytes, and zeros behind them. -/
def slotAt (buf : Buf) (index : Nat) : Buf := fun i =>
  if i < slotSize then buf (index * slotSize + i) else 0

/-- The cluster with slot `index` overwritten. -/
def putSlot (buf : Buf) (index : Nat) (e : Buf) : Buf := store buf (index * slotSize) slotSize e

/-- `entry->filename` -/
def slotName (e : Buf) : ShortName := ⟨(List.range 11).map e, by simp⟩

/-- `entry->attributes` -/
def slotAttributes (e : Buf) : UInt8 := e 11

/-- `entry->file_size` -/
def slotFileSize (e : Buf) : Nat := readWord e 28

/-- The 16-bit word at `a`. -/
def readHalf (e : Buf) (a : Nat) : Nat := (e a).toNat + 2 ^ 8 * (e (a + 1)).toNat

/-- `(first_cluster_high << 16) | first_cluster_low` -/
def slotCluster (e : Buf) : Nat := readHalf e 20 * 2 ^ 16 ||| readHalf e 26

/-- A slot with a name, attributes, first cluster and size; the other fields
are zero. -/
def dirEntry (name : ShortName) (attributes : UInt8) (cluster size : Nat) : Buf := fun i =>
  if i < 11 then name.bytes.getD i 0
  else if i = 11 then attributes
  else if 20 ≤ i ∧ i < 22 then wordByte (cluster / 2 ^ 16 % 2 ^ 16) (i - 20)
  else if 26 ≤ i ∧ i < 28 then wordByte (cluster % 2 ^ 16) (i - 26)
  else if 28 ≤ i ∧ i < 32 then wordByte size (i - 28)
  else 0

/-- Where character `i` of a chunk lies: `name1[5]`, `name2[6]`, `name3[2]`. -/
def unitOffset (i : Nat) : Nat :=
  if i < 5 then 1 + 2 * i else if i < 11 then 14 + 2 * (i - 5) else 28 + 2 * (i - 11)

/-- Character `i` of the 13 of a long-name slot. -/
def lfnUnit (e : Buf) (i : Nat) : Nat := readHalf e (unitOffset i)

/-- `lfn->checksum` -/
def lfnChecksumOf (e : Buf) : UInt8 := e 13

/-- One of the three loops of `fat32_fill_lfn_entry`: `count` characters of
`name` from `pos` on, and whether its end was met. -/
def fillUnits (name : CStr) : Nat → Nat → Bool → List Nat × Bool
  | 0, _, done => ([], done)
  | count + 1, pos, done =>
    -- the field was preset to `0xFFFF`
    let unit := if !done && name.getD pos 0 ≠ 0 then (name.getD pos 0).toNat
      else if !done then 0 else 0xFFFF
    let rest := fillUnits name count (pos + 1) (done || name.getD pos 0 = 0)
    (unit :: rest.1, rest.2)

/-- The 13 characters of the chunk that starts at `startIndex`. The last part
of the source writes `0xFFFF` where `0xFFFF` stands. -/
def fat32FillLfnEntry (name : CStr) (startIndex : Nat) : List Nat :=
  let name1 := fillUnits name 5 startIndex false
  let name2 := fillUnits name 6 (startIndex + 5) name1.2
  let name3 := fillUnits name 2 (startIndex + 11) name2.2
  name1.1 ++ name2.1 ++ name3.1

/-- A long-name slot with order, checksum and the characters `units`. -/
def lfnEntry (order checksum : UInt8) (units : List Nat) : Buf := fun i =>
  let half (u j : Nat) : UInt8 := wordByte (units.getD u 0) j
  if i = 0 then order
  else if i < 11 then half ((i - 1) / 2) ((i - 1) % 2)
  else if i = 11 then attrLongName
  else if i = 13 then checksum
  else if 14 ≤ i ∧ i < 26 then half (5 + (i - 14) / 2) ((i - 14) % 2)
  else if 28 ≤ i ∧ i < 32 then half (11 + (i - 28) / 2) ((i - 28) % 2)
  else 0

/-- The slot with sequence number `seq` of `total` for `name`. -/
def lfnSlot (name : CStr) (checksum : UInt8) (total seq : Nat) : Buf :=
  let order := UInt8.ofNat seq
  lfnEntry (if seq = total then order ||| 0x40 else order) checksum
    (fat32FillLfnEntry name ((seq - 1) * 13))

/-- How many long-name slots `name` takes. -/
def lfnEntries (name : CStr) : Nat := (name.length + 12) / 13

/-- The long-name slots of `name`, highest sequence number first. -/
def lfnSlots (name : CStr) (short : ShortName) : List Buf :=
  (List.range (lfnEntries name)).map fun i =>
    lfnSlot name (fat32LfnChecksum short) (lfnEntries name) (lfnEntries name - i)

/-- The slots `fat32_create` and `fat32_mkdir_path` write for `name`. -/
def entryBytes (name : CStr) (short : ShortName) (needsLfn : Bool) (attributes : UInt8)
    (cluster : Nat) : List Buf :=
  (if needsLfn then lfnSlots name short else []) ++ [dirEntry short attributes cluster 0]

/-! ## Reading slots back -/

section

variable {name : ShortName} {attributes : UInt8} {cluster size : Nat}

@[simp] theorem slotName_dirEntry : slotName (dirEntry name attributes cluster size) = name := by
  have hl := name.length_eq
  have hb : (List.range 11).map (dirEntry name attributes cluster size) = name.bytes := by
    apply List.ext_getElem
    · simp [hl]
    · intro i hi hi'
      have hlt : i < 11 := by simpa using hi
      simp [dirEntry, hlt, hi']
  cases name
  exact ShortName.mk.injEq .. ▸ hb

@[simp] theorem slotAttributes_dirEntry :
    slotAttributes (dirEntry name attributes cluster size) = attributes := rfl

theorem readHalf_wordByte {e : Buf} {a v : Nat} (hv : v < 2 ^ 16) (h₀ : e a = wordByte v 0)
    (h₁ : e (a + 1) = wordByte v 1) : readHalf e a = v := by
  rw [readHalf, h₀, h₁, toNat_wordByte, toNat_wordByte]
  omega

theorem halves_or {v : Nat} (h : v < 2 ^ 32) : v / 2 ^ 16 % 2 ^ 16 * 2 ^ 16 ||| v % 2 ^ 16 = v := by
  have hlt : v % 2 ^ 16 < 2 ^ 16 := Nat.mod_lt _ (by decide)
  rw [← Nat.shiftLeft_eq, ← Nat.shiftLeft_add_eq_or_of_lt hlt, Nat.shiftLeft_eq]
  omega

theorem slotCluster_dirEntry (h : cluster < 2 ^ 32) :
    slotCluster (dirEntry name attributes cluster size) = cluster := by
  have hhigh : readHalf (dirEntry name attributes cluster size) 20 = cluster / 2 ^ 16 % 2 ^ 16 :=
    readHalf_wordByte (Nat.mod_lt _ (by decide)) rfl rfl
  have hlow : readHalf (dirEntry name attributes cluster size) 26 = cluster % 2 ^ 16 :=
    readHalf_wordByte (Nat.mod_lt _ (by decide)) rfl rfl
  rw [slotCluster, hhigh, hlow, halves_or h]

theorem dirEntry_first : dirEntry name attributes cluster size 0 = name.first := by
  rw [ShortName.first]
  change name.bytes.getD 0 0 = name.bytes.headD 0
  cases name.bytes <;> rfl

end

theorem slotAt_outside (buf : Buf) (index : Nat) {i : Nat} (h : slotSize ≤ i) :
    slotAt buf index i = 0 := if_neg (Nat.not_lt.mpr h)

theorem slotAt_putSlot_same {buf e : Buf} {index : Nat} (he : ∀ i, slotSize ≤ i → e i = 0) :
    slotAt (putSlot buf index e) index = e := by
  funext i
  by_cases h : i < slotSize
  · rw [slotAt, if_pos h, putSlot, store_inside (by omega) (by omega), Nat.add_sub_cancel_left]
  · rw [slotAt_outside _ _ (Nat.not_lt.mp h), he i (Nat.not_lt.mp h)]

theorem slotAt_putSlot_other {buf e : Buf} {index j : Nat} (h : j ≠ index) :
    slotAt (putSlot buf index e) j = slotAt buf j := by
  funext i
  by_cases hi : i < slotSize
  · rw [slotAt, slotAt, if_pos hi, if_pos hi, putSlot, store_outside]
    simp only [slotSize] at *
    omega
  · rw [slotAt_outside _ _ (Nat.not_lt.mp hi), slotAt_outside _ _ (Nat.not_lt.mp hi)]

end ContinuumOS.Fat32.Names
