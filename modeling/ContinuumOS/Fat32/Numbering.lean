import ContinuumOS.Lib.Decimal
import ContinuumOS.Fat32.ShortNames
import ContinuumOS.Fat32.Walks

/-! # Numbered aliases

`fat32_generate_unique_short_name` tries the aliases of a name one after the
other. Every alias is a front of the sanitised name, a tilde and the whole number,
whatever tildes and digits the name holds itself, so aliases with different
numbers are different names. In any directory that can be scanned the first
alias that no live slot has is the one that is chosen. -/
namespace ContinuumOS.Fat32.Numbering
open Function
open ContinuumOS.Lib.Effect ContinuumOS.Lib.Chains ContinuumOS.Lib.Decimal ContinuumOS.Lib.Walks
open ContinuumOS.Libc.String
open ContinuumOS.Fat32.Volume ContinuumOS.Fat32.Device ContinuumOS.Fat32.Allocation
open ContinuumOS.Fat32.Names
open ContinuumOS.Fat32.Directory ContinuumOS.Fat32.Scan ContinuumOS.Fat32.Walks
open ContinuumOS.Fat32.Aliases ContinuumOS.Fat32.Ownership ContinuumOS.Fat32.ShortNames

/-- `~` -/
def tilde : UInt8 := 0x7E

def blank : UInt8 := 0x20

/-- A character that a short name may hold. -/
def IsShortChar (c : UInt8) : Prop :=
  0x41 ≤ c ∧ c ≤ 0x5A ∨ IsDigit c ∨ c ∈ shortPunctuation

instance (c : UInt8) : Decidable (IsShortChar c) := inferInstanceAs (Decidable (_ ∨ _ ∨ _))

/-- The alias of the name with number `n`. -/
def aliasOf (name : CStr) (n : Nat) : ShortName :=
  aliasCandidate (sanitizedBase name) (sanitizedExt name) n

/-- An alias with number `n`: behind a front of the sanitised name stand the tilde
and the number, none of its digits cut off. -/
structure IsAlias (name : CStr) (n : Nat) (short : ShortName) : Prop where
  base : ∃ stem blanks, stem ≠ [] ∧ stem <+: sanitizedBase name ∧
    short.bytes.take 8 = stem ++ tilde :: decimal n ++ List.replicate blanks blank
  chars : ∀ c ∈ short.bytes, IsShortChar c ∨ c = blank

/-! ## Directories that can be scanned -/

/-- The slots of a cluster that was read. -/
def slotsIn (w : World) (c : Nat) (buf : Buf) : List Placed :=
  clusterSlots buf c 0 (entriesPerCluster w)

/-- The scan from a cluster on comes to its end; it reads so many clusters, and
these are the slots before the end. -/
inductive Scans (w : World) : Nat → Nat → List Placed → Prop
  | away {c : Nat} (chained : isChained c = false) : Scans w c 0 []
  | ends {c : Nat} {buf : Buf} (chained : isChained c = true)
      (read : fat32ReadCluster c w = some (some buf, w))
      (atEnd : (slotsIn w c buf).all notEnd = false) :
      Scans w c 1 ((slotsIn w c buf).takeWhile notEnd)
  | more {c n : Nat} {buf : Buf} {ps : List Placed} (chained : isChained c = true)
      (read : fat32ReadCluster c w = some (some buf, w))
      (notAtEnd : (slotsIn w c buf).all notEnd = true)
      (rest : Scans w (fat32GetNextCluster w c) n ps) : Scans w c (n + 1) (slotsIn w c buf ++ ps)

/-- The directory that begins at `s` can be scanned: heap and device give what a
scan asks for. `ps` are its slots. -/
structure CanScan (w : World) (s : Nat) (ps : List Placed) : Prop where
  noFaults : NoFaults w
  mallocs : Mallocs w
  size : 0 < clusterSize w
  slots : ∃ n, Scans w s n ps

/-- A scan goes on behind the cluster. -/
def Goes (w : World) (c : Nat) : Prop :=
  isChained c = true ∧ ∃ buf, fat32ReadCluster c w = some (some buf, w) ∧
    (slotsIn w c buf).all notEnd = true

section

variable {w : World} {s n : Nat} {ps : List Placed} {κ : Type} {callback : Callback κ}

theorem Scans.walk (h : Scans w s n ps) : ∃ m, n ≤ m + 1 ∧
    (∀ i < m, Goes w ((fat32GetNextCluster w)^[i] s)) ∧
      ¬ Goes w ((fat32GetNextCluster w)^[m] s) := by
  induction h with
  | away chained =>
    refine ⟨0, Nat.zero_le _, nofun, fun hgo => ?_⟩
    exact Bool.false_ne_true (chained.symm.trans hgo.1)
  | ends chained read atEnd =>
    refine ⟨0, le_rfl, nofun, fun hgo => ?_⟩
    obtain ⟨-, buf, hread, hall⟩ := hgo
    obtain ⟨hbuf, -⟩ := Prod.mk.inj (Option.some.inj (read.symm.trans hread))
    obtain rfl := Option.some.inj hbuf
    exact Bool.false_ne_true (atEnd.symm.trans hall)
  | more chained read notAtEnd rest ih =>
    obtain ⟨m, hle, hgo, hstop⟩ := ih
    refine ⟨m + 1, by omega, fun i hi => ?_, hstop⟩
    cases i with
    | zero => exact ⟨chained, _, read, notAtEnd⟩
    | succ i => exact hgo i (by omega)

theorem Scans.le (h : Scans w s n ps) : n ≤ walkLimit := by
  obtain ⟨m, hle, hgo, hstop⟩ := h.walk
  have hcard := card_clusterNumbers
  by_contra hlong
  have hnodes : ∀ c, Goes w c → c ∈ clusterNumbers := fun c hc => mem_clusterNumbers c hc.1
  have hcircular := circular_of_long hnodes fun i hi => hgo i (by omega)
  exact hstop (hcircular.endless m)

theorem Scans.eq_nil (h : Scans w s n ps) (hs : isChained s = false) : ps = [] := by
  cases h with
  | away => rfl
  | ends chained => exact absurd (hs.symm.trans chained) Bool.false_ne_true
  | more chained => exact absurd (hs.symm.trans chained) Bool.false_ne_true

theorem Scans.iterateLoop (h : Scans w s n ps) : ∀ (rounds : Nat) (st : Lfn) (context : κ),
    n ≤ rounds → iterateLoop callback rounds s st context w =
      some (outcome (feed callback (reportsOf st ps) context), w) := by
  induction h with
  | away chained =>
    intro rounds st context _
    cases rounds with
    | zero => simp [Directory.iterateLoop, chained, reportsOf, feed, outcome]
    | succ rounds => simp [Directory.iterateLoop, chained, reportsOf, feed, outcome]
  | @ends c buf chained read atEnd =>
    intro rounds st context hle
    obtain ⟨rounds, rfl⟩ := Nat.exists_eq_add_of_le' hle
    rw [Directory.iterateLoop, if_neg (by rw [chained]; decide), bind_run, read]
    simp only [Option.bind_some, bind_run, get_run, scanCluster_eq]
    rw [slotsIn] at atEnd ⊢
    rw [atEnd]
    cases feed callback (reportsOf st (List.takeWhile notEnd _)) context with
    | inl r => rfl
    | inr context => rfl
  | @more c n buf ps chained read notAtEnd rest ih =>
    intro rounds st context hle
    obtain ⟨rounds, rfl⟩ := Nat.exists_eq_add_of_le' (Nat.le_of_add_left_le hle)
    have htake : (slotsIn w c buf).takeWhile notEnd = slotsIn w c buf :=
      List.takeWhile_eq_self_iff.mpr (List.all_eq_true.mp notAtEnd)
    rw [Directory.iterateLoop, if_neg (by rw [chained]; decide), bind_run, read]
    simp only [Option.bind_some, bind_run, get_run, scanCluster_eq]
    rw [reportsOf_append, feed_append]
    rw [slotsIn] at htake notAtEnd ⊢
    rw [htake, notAtEnd]
    cases feed callback (reportsOf st (clusterSlots buf c 0 (entriesPerCluster w))) context with
    | inl r => rfl
    | inr context =>
      simp only [if_true, ite_run]
      split
      · rename_i haway
        rw [rest.eq_nil (Bool.not_eq_true _ ▸ haway)]
        rfl
      · exact ih rounds _ context (by omega)

theorem CanScan.shortNameExists (h : CanScan w s ps) (name : ShortName) :
    fat32ShortNameExists s name w = some (some (decide (name ∈ liveNames ps)), w) := by
  obtain ⟨n, hscan⟩ := h.slots
  have hany : ((reportsOf Lfn.init ps).any fun r => slotName r.place.slot = name) =
      decide (name ∈ liveNames ps) := by
    rw [← names_reportsOf ps Lfn.init, Bool.eq_iff_iff, List.any_eq_true, decide_eq_true_iff,
      List.mem_map]
    exact exists_congr fun r => and_congr_right fun _ => decide_eq_true_iff
  simp only [fat32ShortNameExists, fat32IterateDirectory, bind_run, get_run, Option.bind_some,
    h.mallocs.kmalloc h.size, ite_run, if_true, hscan.iterateLoop _ _ _ hscan.le, feed_exists, hany]
  rfl

theorem scans_of_linked (g : Geometry w) (nf : NoFaults w) {z : Nat} (hz : isChained z = false) :
    ∀ l : List Nat, Linked (nextOf w) z l → (∀ c ∈ l, InRange w c) →
      ∃ n, Scans w (l.headD z) n ((dirSlots w l).takeWhile notEnd)
  | [], _, _ => ⟨0, .away hz⟩
  | c :: l, hl, hr => by
    have hc := hr c (.head _)
    obtain ⟨n, hrest⟩ := scans_of_linked g nf hz l hl.2 fun d hd => hr d (.tail _ hd)
    have hnext : fat32GetNextCluster w c = l.headD z := (getNextCluster_eq g hc).trans hl.1
    have hslots : dirSlots w (c :: l) = slotsIn w c (clusterBuf w c) ++ dirSlots w l := by
      simp [dirSlots, slotsIn]
    have hread := readCluster_eq g nf hc
    rw [List.headD_cons, hslots]
    cases hall : (slotsIn w c (clusterBuf w c)).all notEnd with
    | true =>
      rw [List.takeWhile_append_of_pos (List.all_eq_true.mp hall)]
      exact ⟨n + 1, .more (hc.isChained g) hread hall (hnext ▸ hrest)⟩
    | false =>
      refine ⟨1, ?_⟩
      rw [List.takeWhile_append, if_neg fun hlen => ?_]
      · exact .ends (hc.isChained g) hread hall
      · have heq := (List.takeWhile_prefix notEnd).eq_of_length hlen
        rw [List.all_eq_true.mpr (List.takeWhile_eq_self_iff.mp heq)] at hall
        cases hall

/-- **Every directory of a volume can be scanned** when heap and device do not
fail. -/
theorem canScan_of_chainFrom (g : Geometry w) (nf : NoFaults w) (hm : Mallocs w) {l : List Nat}
    (h : ChainFrom w s l) : CanScan w s ((dirSlots w l).takeWhile notEnd) := by
  obtain ⟨z, hz, hl⟩ := h.linked
  have hslots := scans_of_linked g nf hz l hl h.inRange
  rw [h.headD] at hslots
  exact ⟨nf, hm, g.clusterSize_pos, hslots⟩

end

/-! ## What an alias looks like -/

theorem countDigitsLoop_eq : ∀ left v digits : Nat, 0 < v → v < 10 ^ (left + 1) →
    countDigitsLoop left v digits + 1 = digits + (decimal v).length
  | 0, v, digits, hpos, hlt => by
    have hlen : (decimal v).length = 1 := by
      rw [decimal, List.length_reverse, List.length_map,
        Nat.digits_of_lt 10 v hpos.ne' (by simpa using hlt)]
      rfl
    rw [countDigitsLoop, hlen]
  | left + 1, v, digits, hpos, hlt => by
    rw [countDigitsLoop]
    have hlen : (decimal v).length = (Nat.digits 10 v).length := by
      rw [decimal, List.length_reverse, List.length_map]
    split
    · rename_i hten
      have hrest := countDigitsLoop_eq left (v / 10) (digits + 1) (by omega)
        (by rw [pow_succ] at hlt; omega)
      have hlen' : (decimal (v / 10)).length = (Nat.digits 10 (v / 10)).length := by
        rw [decimal, List.length_reverse, List.length_map]
      rw [hlen, Nat.digits_def' (by decide) hpos, List.length_cons, ← hlen', hrest]
      omega
    · rename_i hten
      rw [hlen, Nat.digits_of_lt 10 v hpos.ne' (by omega)]
      rfl

theorem countDigits_eq {n : Nat} (hpos : 0 < n) (hlt : n < 10 ^ 11) :
    fat32CountDigits n = (decimal n).length := by
  have h := countDigitsLoop_eq 10 n 1 hpos hlt
  rw [fat32CountDigits]
  omega

theorem tempDigits_eq : ∀ left v : Nat, v < 10 ^ left →
    tempDigits left v = (Nat.digits 10 v).map digitChar
  | 0, v, hlt => by
    obtain rfl : v = 0 := Nat.lt_one_iff.mp hlt
    simp [tempDigits]
  | left + 1, v, hlt => by
    rw [tempDigits]
    split
    · rename_i hpos
      rw [tempDigits_eq left (v / 10) (by rw [pow_succ] at hlt; omega),
        Nat.digits_def' (by decide) hpos]
      rfl
    · rename_i hzero
      obtain rfl : v = 0 := by omega
      simp

theorem decimalToString_eq {n : Nat} (hpos : 0 < n) (hlt : n < 10 ^ 7) :
    fat32DecimalToString n 8 = decimal n := by
  have hlen : (decimal n).length ≤ 7 := length_decimal_le_iff.mpr hlt
  rw [fat32DecimalToString, if_neg hpos.ne', tempDigits_eq 20 n (by omega)]
  exact List.take_of_length_le hlen

theorem countDigits_lt {n : Nat} (hpos : 0 < n) (hlt : n < 10 ^ 6) : fat32CountDigits n < 7 := by
  have hlen : (decimal n).length ≤ 6 := length_decimal_le_iff.mpr hlt
  rw [countDigits_eq hpos (by omega)]
  omega

theorem padded_eq {k : Nat} {l : List UInt8} (h : l.length ≤ k) :
    padded k l = l ++ List.replicate (k - l.length) blank := by
  rw [padded, List.take_append, List.take_of_length_le h, List.take_replicate,
    Nat.min_eq_left (by omega)]
  rfl

theorem bytes_aliasCandidate (base ext : CStr) {n : Nat} (hpos : 0 < n) (hlt : n < 10 ^ 6) :
    ∃ blanks, (aliasCandidate base ext n).bytes = (base.take (7 - (decimal n).length) ++
      tilde :: decimal n ++ List.replicate blanks blank) ++ padded 3 ext := by
  have hlen : (decimal n).length ≤ 6 := length_decimal_le_iff.mpr hlt
  have hallow : (if 8 > (decimal n).length + 1 then 8 - ((decimal n).length + 1) else 1) =
      7 - (decimal n).length := by
    rw [if_pos (by omega)]
    omega
  have hfits : (base.take (7 - (decimal n).length) ++ tilde :: decimal n).length ≤ 8 := by
    rw [List.length_append, List.length_cons, List.length_take]
    omega
  refine ⟨8 - (base.take (7 - (decimal n).length) ++ tilde :: decimal n).length, ?_⟩
  rw [aliasCandidate, countDigits_eq hpos (by omega), decimalToString_eq hpos (by omega), hallow]
  exact congrArg (· ++ padded 3 ext) (padded_eq hfits)

theorem take_aliasCandidate (base ext : CStr) {n : Nat} (hpos : 0 < n) (hlt : n < 10 ^ 6) :
    ∃ blanks, (aliasCandidate base ext n).bytes.take 8 =
      base.take (7 - (decimal n).length) ++ tilde :: decimal n ++ List.replicate blanks blank := by
  obtain ⟨blanks, hbytes⟩ := bytes_aliasCandidate base ext hpos hlt
  refine ⟨blanks, ?_⟩
  have hlength := (aliasCandidate base ext n).length_eq
  rw [hbytes, List.length_append, length_padded] at hlength
  rw [hbytes]
  exact List.take_left' (by omega)

/-- **Aliases with different numbers differ.** -/
theorem aliasCandidate_inj (base ext : CStr) {m n : Nat} (hm : 0 < m) (hm' : m < 10 ^ 6)
    (hn : 0 < n) (hn' : n < 10 ^ 6)
    (h : aliasCandidate base ext m = aliasCandidate base ext n) : m = n := by
  obtain ⟨i, hi⟩ := take_aliasCandidate base ext hm hm'
  obtain ⟨j, hj⟩ := take_aliasCandidate base ext hn hn'
  rw [h, hj] at hi
  exact numbered_inj (by decide) (by decide) (by decide) hi.symm

theorem isShortChar_sanitize (c : UInt8) : IsShortChar (fat32SanitizeShortChar c) := by
  rw [fat32SanitizeShortChar]
  split
  · rename_i h
    exact h.imp id .inl
  · split
    · rename_i h
      exact .inr (.inr (List.contains_iff_mem.mp h))
    · decide

theorem isShortChar_base {name : CStr} {c : UInt8} (h : c ∈ sanitizedBase name) :
    IsShortChar c := by
  rw [sanitizedBase] at h
  split at h
  · have hall : fileName.all (fun d => decide (IsShortChar d)) = true := by decide
    exact of_decide_eq_true (List.all_eq_true.mp hall c h)
  · obtain ⟨d, -, rfl⟩ := List.mem_map.mp h
    exact isShortChar_sanitize d

theorem isShortChar_ext {name : CStr} {c : UInt8} (h : c ∈ sanitizedExt name) : IsShortChar c := by
  obtain ⟨d, -, rfl⟩ := List.mem_map.mp h
  exact isShortChar_sanitize d

theorem mem_padded {k : Nat} {l : List UInt8} {c : UInt8} (h : c ∈ padded k l) :
    c ∈ l ∨ c = blank := by
  rcases List.mem_append.mp (List.mem_of_mem_take h) with h | h
  · exact .inl h
  · exact .inr (List.eq_of_mem_replicate h)

theorem isAlias_aliasOf (name : CStr) {n : Nat} (hpos : 0 < n) (hlt : n < 10 ^ 6) :
    IsAlias name n (aliasOf name n) := by
  constructor
  · obtain ⟨blanks, htake⟩ := take_aliasCandidate (sanitizedBase name) (sanitizedExt name) hpos hlt
    have hlen : (decimal n).length ≤ 6 := length_decimal_le_iff.mpr hlt
    refine ⟨_, blanks, fun hnil => ?_, List.take_prefix _ _, htake⟩
    rcases List.take_eq_nil_iff.mp hnil with hzero | hempty
    · omega
    · exact (sanitizedBase_spec name).1 hempty
  · intro c hc
    obtain ⟨blanks, hbytes⟩ := bytes_aliasCandidate (sanitizedBase name) (sanitizedExt name) hpos hlt
    rw [aliasOf, hbytes] at hc
    rcases List.mem_append.mp hc with hc | hc
    · rcases List.mem_append.mp hc with hc | hc
      · rcases List.mem_append.mp hc with hc | hc
        · exact .inl (isShortChar_base (List.mem_of_mem_take hc))
        · rcases List.mem_cons.mp hc with rfl | hc
          · exact .inl (by decide)
          · exact .inl (.inr (.inl (isDigit_of_mem_decimal hc)))
      · exact .inr (List.eq_of_mem_replicate hc)
    · exact (mem_padded hc).imp_left isShortChar_ext

section

variable {w : World} {s : Nat} {ps : List Placed}

/-! ## The search for an alias -/

theorem uniqueLoop_run (h : CanScan w s ps) (base ext : CStr) : ∀ left suffix : Nat,
    0 < suffix → suffix + left ≤ 1000000 → ∃ r, uniqueLoop s base ext left suffix w = some (r, w) ∧
      (∀ short, r = some short → short ∉ liveNames ps ∧
        ∃ n, suffix ≤ n ∧ n < suffix + left ∧ short = aliasCandidate base ext n) ∧
      (r = none → ∀ n, suffix ≤ n → n < suffix + left → aliasCandidate base ext n ∈ liveNames ps)
  | 0, suffix, _, _ =>
    ⟨none, rfl, fun short hr => (Option.some_ne_none short hr.symm).elim,
      fun _ n hle hlt => by omega⟩
  | left + 1, suffix, hpos, hle => by
    have hdigits : ¬ fat32CountDigits suffix ≥ 7 := by
      have hlen := countDigits_lt (n := suffix) (by omega) (by omega)
      omega
    rw [uniqueLoop, ite_run, if_neg hdigits]
    simp only [bind_run, h.shortNameExists, Option.bind_some]
    by_cases hmem : aliasCandidate base ext suffix ∈ liveNames ps
    · obtain ⟨r, hrun, hsome, hnone⟩ := uniqueLoop_run h base ext left (suffix + 1) (by omega) (by omega)
      rw [decide_eq_true hmem]
      refine ⟨r, hrun, fun short hr => ?_, fun hr n hfrom hto => ?_⟩
      · obtain ⟨hnew, n, hfrom, hto, heq⟩ := hsome short hr
        exact ⟨hnew, n, by omega, by omega, heq⟩
      · by_cases heq : n = suffix
        · exact heq ▸ hmem
        · exact hnone hr n (by omega) (by omega)
    · rw [decide_eq_false hmem]
      refine ⟨some _, rfl, fun short hr => ?_, fun hr => (Option.some_ne_none _ hr).elim⟩
      obtain rfl := Option.some.inj hr
      exact ⟨hmem, suffix, le_rfl, by omega, rfl⟩

theorem card_aliases {name : CStr} {names : List ShortName}
    (h : ∀ n, 1 ≤ n → n ≤ 999999 → aliasOf name n ∈ names) : 999999 ≤ names.length := by
  classical
  have hinj : Set.InjOn (aliasOf name) (Finset.Icc 1 999999 : Finset Nat) := by
    intro m hm n hn heq
    obtain ⟨hm₁, hm₂⟩ := Finset.mem_Icc.mp (Finset.mem_coe.mp hm)
    obtain ⟨hn₁, hn₂⟩ := Finset.mem_Icc.mp (Finset.mem_coe.mp hn)
    exact aliasCandidate_inj _ _ (by omega) (by omega) (by omega) (by omega) heq
  have hmaps : ∀ n ∈ Finset.Icc 1 999999, aliasOf name n ∈ names.toFinset := by
    intro n hn
    obtain ⟨hn₁, hn₂⟩ := Finset.mem_Icc.mp hn
    exact List.mem_toFinset.mpr (h n hn₁ hn₂)
  have hcard := Finset.card_le_card_of_injOn (aliasOf name) hmaps hinj
  rw [Nat.card_Icc] at hcard
  exact hcard.trans names.toFinset_card_le

end

end ContinuumOS.Fat32.Numbering
