import ContinuumOS.Fat32.Aliases
import ContinuumOS.Fat32.Entries

/-! # Short names there and back

What `fat32_build_short_name` makes of a name, `fat32_short_name_to_string` reads as
the name in upper case. So the eleven bytes of two names are equal exactly when the
names differ in case only. -/
namespace ContinuumOS.Fat32.RoundTrip
open ContinuumOS.Lib.Memory ContinuumOS.Libc.String ContinuumOS.Fat32.Names
open ContinuumOS.Fat32.Aliases ContinuumOS.Fat32.Entries

/-- A C string whose dot is followed by an extension. The first byte `0x05` stands
for another one in a directory. -/
structure Regular (name : CStr) : Prop where
  noNul : 0 ∉ name
  extension : dot ∈ name → behindDot name ≠ []
  first : name.head? ≠ some 0x05

/-! ## Case -/

theorem case_byte (c : UInt8) :
    (fat32ToUpper c = 0 → c = 0) ∧ (fat32ToUpper c = 0x05 → c = 0x05) ∧
      (fat32ToUpper c = dot ↔ c = dot) ∧ fat32ToUpper (fat32ToUpper c) = fat32ToUpper c ∧
      fat32ToUpper (fat32ToLower c) = fat32ToUpper c ∧
      fat32ToLower (fat32ToUpper c) = fat32ToLower c := by
  revert c
  exact forall_byte (by decide +kernel)

theorem upper_eq_iff_lower_eq {a b : CStr} :
    a.map fat32ToUpper = b.map fat32ToUpper ↔ a.map fat32ToLower = b.map fat32ToLower := by
  have hlower : ∀ name : CStr, (name.map fat32ToUpper).map fat32ToLower = name.map fat32ToLower := by
    intro name
    rw [List.map_map]
    exact List.map_congr_left fun c _ => (case_byte c).2.2.2.2.2
  have hupper : ∀ name : CStr, (name.map fat32ToLower).map fat32ToUpper = name.map fat32ToUpper := by
    intro name
    rw [List.map_map]
    exact List.map_congr_left fun c _ => (case_byte c).2.2.2.2.1
  constructor
  · intro h
    rw [← hlower a, h, hlower b]
  · intro h
    rw [← hupper a, h, hupper b]

theorem casecmp_of_lower_eq : ∀ {a b : CStr}, a.map fat32ToLower = b.map fat32ToLower →
    fat32Casecmp a b = 0
  | [], [], _ => rfl
  | [], b :: bs, h => nomatch h
  | a :: as, [], h => nomatch h
  | a :: as, b :: bs, h => by
    obtain ⟨hhead, htail⟩ := List.cons.inj h
    rw [fat32Casecmp, if_neg (not_not.mpr hhead)]
    exact casecmp_of_lower_eq htail

/-! ## The dot -/

theorem strchr_some {c : UInt8} : ∀ {s : CStr} {i : Nat}, strchr c s = some i →
    s = s.take i ++ c :: s.drop (i + 1)
  | x :: xs, i, h => by
    rw [strchr] at h
    split at h
    · rename_i hx
      obtain rfl := Option.some.inj h
      rw [hx]
      rfl
    · obtain ⟨j, hj, rfl⟩ := Option.map_eq_some_iff.mp h
      exact congrArg (x :: ·) (strchr_some hj)

theorem strchr_none {c : UInt8} : ∀ {s : CStr}, strchr c s = none → c ∉ s
  | [], _ => List.not_mem_nil
  | x :: xs, h => by
    rw [strchr] at h
    split at h
    · cases h
    · rename_i hx
      rw [List.mem_cons]
      rintro (rfl | hin)
      · exact hx rfl
      · exact strchr_none (Option.map_eq_none_iff.mp h) hin

theorem name_parts (name : CStr) :
    name = beforeDot name ++ if dot ∈ name then dot :: behindDot name else [] := by
  rw [beforeDot, behindDot]
  cases h : strchr dot name with
  | none =>
    rw [if_neg (strchr_none h), List.append_nil]
  | some i =>
    have hsplit := strchr_some h
    have hdot : dot ∈ name := by
      rw [hsplit]
      exact List.mem_append_right _ List.mem_cons_self
    rw [if_pos hdot]
    exact hsplit

theorem behindDot_of_not_mem {name : CStr} (h : dot ∉ name) : behindDot name = [] := by
  rw [behindDot]
  cases hdot : strchr dot name with
  | none => rfl
  | some i =>
    rw [strchr_some hdot] at h
    exact absurd (List.mem_append_right _ List.mem_cons_self) h

theorem strchr_upper : ∀ name : CStr, strchr dot (name.map fat32ToUpper) = strchr dot name
  | [] => rfl
  | c :: name => by
    rw [List.map_cons, strchr, strchr, strchr_upper name]
    exact if_congr (case_byte c).2.2.1 rfl rfl

theorem build_upper (name : CStr) :
    fat32BuildShortName (name.map fat32ToUpper) = fat32BuildShortName name := by
  have hbefore : beforeDot (name.map fat32ToUpper) = (beforeDot name).map fat32ToUpper := by
    rw [beforeDot, beforeDot, strchr_upper]
    cases strchr dot name with
    | none => rfl
    | some i => exact List.map_take.symm
  have hbehind : behindDot (name.map fat32ToUpper) = (behindDot name).map fat32ToUpper := by
    rw [behindDot, behindDot, strchr_upper]
    cases strchr dot name with
    | none => rfl
    | some i => exact List.map_drop.symm
  have htwice : ∀ part : CStr, (part.map fat32ToUpper).map fat32ToUpper = part.map fat32ToUpper := by
    intro part
    rw [List.map_map]
    exact List.map_congr_left fun c _ => (case_byte c).2.2.2.1
  rw [fat32BuildShortName, fat32BuildShortName, hbefore, hbehind, htwice, htwice, List.length_map,
    List.length_map]

/-! ## Blanks -/

theorem takeWhile_padded {n : Nat} {part : List UInt8} (hlen : part.length ≤ n)
    (hblank : 0x20 ∉ part) : (padded n part).takeWhile (· ≠ 0x20) = part := by
  have hpart : ∀ c ∈ part, decide (c ≠ 0x20) = true :=
    fun c hc => decide_eq_true fun h => hblank (h ▸ hc)
  rw [padded, List.take_append, List.take_of_length_le hlen, List.take_replicate,
    List.takeWhile_append_of_pos hpart]
  cases min (n - part.length) n with
  | zero => exact List.append_nil part
  | succ k => exact List.append_nil part

theorem mem_upper_iff_refused {part : CStr}
    (h : ∀ c ∈ part, isRefused (fat32ToUpper c) = false) : 0x20 ∉ part.map fat32ToUpper := by
  intro hmem
  obtain ⟨c, hc, hblank⟩ := List.mem_map.mp hmem
  have hrefused := h c hc
  rw [hblank] at hrefused
  cases hrefused

theorem toString_ofParts {base ext : List UInt8} (hbase : base.length ≤ 8) (hext : ext.length ≤ 3)
    (hbaseBlank : 0x20 ∉ base) (hextBlank : 0x20 ∉ ext) (hne : base ≠ [])
    (hfirst : base.head? ≠ some 0x05) : fat32ShortNameToString (.ofParts base ext) =
      (if ext.length > 0 then base ++ dot :: ext else base).takeWhile (· ≠ 0) := by
  obtain ⟨c, rest, rfl⟩ := List.exists_cons_of_ne_nil hne
  have hc : ¬ (ShortName.ofParts (c :: rest) ext).first = 0x05 := by
    rw [first_ofParts]
    exact fun h => hfirst (congrArg some h)
  have hbytes : (ShortName.ofParts (c :: rest) ext).first ::
      (ShortName.ofParts (c :: rest) ext).bytes.tail = padded 8 (c :: rest) ++ padded 3 ext := rfl
  have htake : (padded 8 (c :: rest) ++ padded 3 ext).take 8 = padded 8 (c :: rest) := by
    rw [List.take_append_of_le_length (Nat.le_of_eq (length_padded ..).symm),
      List.take_of_length_le (Nat.le_of_eq (length_padded ..))]
  have hdrop : (padded 8 (c :: rest) ++ padded 3 ext).drop 8 = padded 3 ext :=
    List.drop_left' (length_padded ..)
  rw [fat32ShortNameToString, if_neg hc, hbytes, htake, hdrop, takeWhile_padded hbase hbaseBlank,
    takeWhile_padded hext hextBlank]

/-- **What is built of a name reads as the name in upper case.** -/
theorem toString_build {name : CStr} {short : ShortName} (hr : Regular name)
    (h : fat32BuildShortName name = some short) :
    fat32ShortNameToString short = name.map fat32ToUpper := by
  obtain ⟨hne, hbase, hext, hbaseOk, hextOk, rfl⟩ := buildShortName_some h
  have hparts := name_parts name
  have hfirst : ((beforeDot name).map fat32ToUpper).head? ≠ some 0x05 := by
    obtain ⟨c, rest, hcons⟩ := List.exists_cons_of_ne_nil hne
    rw [hcons, List.map_cons, List.head?_cons]
    intro hfive
    have hc := (case_byte c).2.1 (Option.some.inj hfive)
    refine hr.first ?_
    rw [hparts, hcons, hc]
    rfl
  have hupper : (if ((behindDot name).map fat32ToUpper).length > 0 then
      (beforeDot name).map fat32ToUpper ++ dot :: (behindDot name).map fat32ToUpper
      else (beforeDot name).map fat32ToUpper) = name.map fat32ToUpper := by
    rw [List.length_map]
    by_cases hdot : dot ∈ name
    · have hpos := List.length_pos_of_ne_nil (hr.extension hdot)
      rw [if_pos hdot] at hparts
      rw [if_pos hpos]
      refine Eq.trans ?_ (congrArg (List.map fat32ToUpper) hparts.symm)
      rw [List.map_append, List.map_cons]
      rfl
    · rw [if_neg hdot, List.append_nil] at hparts
      rw [behindDot_of_not_mem hdot, List.length_nil, if_neg (Nat.lt_irrefl 0), ← hparts]
  have hnul : ∀ c ∈ name.map fat32ToUpper, decide (c ≠ 0) = true := by
    intro c hc
    obtain ⟨b, hb, rfl⟩ := List.mem_map.mp hc
    exact decide_eq_true fun hzero => hr.noNul ((case_byte b).1 hzero ▸ hb)
  rw [toString_ofParts (by rwa [List.length_map]) (by rwa [List.length_map])
    (mem_upper_iff_refused hbaseOk) (mem_upper_iff_refused hextOk)
    (fun hnil => hne (List.map_eq_nil_iff.mp hnil)) hfirst, hupper,
    List.takeWhile_eq_self_iff.mpr hnul]

/-- **Short names agree exactly when the names do, ignoring case**: for names that are
accepted, the eleven bytes read as the name in upper case, and they are equal exactly
when the names are equal in upper case, as the comparison of names finds. -/
theorem short_names_agree {a b : CStr} {short short' : ShortName} (ha : Regular a) (hb : Regular b)
    (hshort : fat32BuildShortName a = some short) (hshort' : fat32BuildShortName b = some short') :
    fat32ShortNameToString short = a.map fat32ToUpper ∧
      (short = short' ↔ a.map fat32ToUpper = b.map fat32ToUpper) ∧
      (short = short' ↔ fat32Casecmp a b = 0) := by
  have hsame : short = short' ↔ a.map fat32ToUpper = b.map fat32ToUpper := by
    constructor
    · rintro rfl
      rw [← toString_build ha hshort, toString_build hb hshort']
    · intro h
      rw [← build_upper, h, build_upper, hshort'] at hshort
      exact (Option.some.inj hshort).symm
  refine ⟨toString_build ha hshort, hsame, hsame.trans (upper_eq_iff_lower_eq.trans ?_)⟩
  exact ⟨casecmp_of_lower_eq, casecmp_eq_zero ha.noNul hb.noNul⟩

/-- `Boot.cfg` and `BOOT.CFG` -/
def bootMixed : CStr := [0x42, 0x6F, 0x6F, 0x74, 0x2E, 0x63, 0x66, 0x67]
def bootUpper : CStr := [0x42, 0x4F, 0x4F, 0x54, 0x2E, 0x43, 0x46, 0x47]

theorem short_names_agree_boot :
    ∃ short, fat32BuildShortName bootMixed = some short ∧
      fat32BuildShortName bootUpper = some short ∧ fat32ShortNameToString short = bootUpper := by
  have hmixed : Regular bootMixed := ⟨by decide, by decide, by decide⟩
  have hupper : Regular bootUpper := ⟨by decide, by decide, by decide⟩
  obtain ⟨short, hshort⟩ := Option.isSome_iff_exists.mp
    (show (fat32BuildShortName bootMixed).isSome = true by decide)
  obtain ⟨short', hshort'⟩ := Option.isSome_iff_exists.mp
    (show (fat32BuildShortName bootUpper).isSome = true by decide)
  obtain ⟨htext, hsame, -⟩ := short_names_agree hmixed hupper hshort hshort'
  obtain rfl := hsame.mpr (by decide)
  exact ⟨short, hshort, hshort', htext⟩

end ContinuumOS.Fat32.RoundTrip
