import ContinuumOS.Fat32.Directory

/-! # The short names that are chosen

Every short name `fat32_prepare_short_name` chooses is the upper-case form of
the name or one of its numbered aliases, and a slot with it is a live entry: it
is neither free nor the end of a directory nor a dot entry. -/
namespace ContinuumOS.Fat32.Aliases
open ContinuumOS.Lib.Effect ContinuumOS.Libc.String
open ContinuumOS.Fat32.Volume ContinuumOS.Fat32.Names ContinuumOS.Fat32.Directory

/-- 7-bit characters and no NUL. -/
def Ascii (name : CStr) : Prop := ∀ c ∈ name, c ≠ 0 ∧ c < 0x80

instance (name : CStr) : Decidable (Ascii name) := inferInstanceAs (Decidable (∀ c ∈ name, _))

/-- A byte that starts an entry. -/
def StartsEntry (c : UInt8) : Prop := c ≠ 0x00 ∧ c ≠ 0xE5 ∧ c ≠ dot

theorem slotKind_dirEntry {short : ShortName} {attributes : UInt8} {cluster size : Nat}
    (h : StartsEntry short.first) (ha : attributes = attrArchive ∨ attributes = attrDirectory) :
    slotKind (dirEntry short attributes cluster size) = .entry := by
  have hlong : isLongName (dirEntry short attributes cluster size) = false := by
    rw [isLongName, slotAttributes_dirEntry]
    rcases ha with rfl | rfl <;> decide
  have hvol : attributes &&& attrVolumeId = 0 := by rcases ha with rfl | rfl <;> decide
  rw [slotKind, dirEntry_first, if_neg h.1, if_neg h.2.1, hlong, slotAttributes_dirEntry, hvol]
  rfl

theorem first_ofParts (c : UInt8) (base ext : List UInt8) :
    (ShortName.ofParts (c :: base) ext).first = c := rfl

theorem toUpper_ascii {c : UInt8} (h₀ : c ≠ 0) (h : c < 0x80) :
    fat32ToUpper c ≠ 0x00 ∧ fat32ToUpper c ≠ 0xE5 := by
  have hn : c.toNat ≠ 0 := fun hz => h₀ (UInt8.toNat.inj hz)
  have hlt : c.toNat < 0x80 := h
  rw [fat32ToUpper]
  split
  · rename_i hc
    have h₁ : 0x61 ≤ c.toNat := hc.1
    have hsub : (c - 0x20).toNat = c.toNat - 0x20 := UInt8.toNat_sub_of_le _ _ (by
      change 0x20 ≤ c.toNat
      omega)
    constructor
    · intro he
      rw [he] at hsub
      change 0 = _ at hsub
      omega
    · intro he
      rw [he] at hsub
      change 0xE5 = _ at hsub
      omega
  · exact ⟨h₀, fun he => by rw [he] at hlt; exact absurd hlt (by decide)⟩

theorem mem_of_mem_beforeDot {name : CStr} {c : UInt8} (h : c ∈ beforeDot name) : c ∈ name := by
  rw [beforeDot] at h
  split at h
  · exact List.mem_of_mem_take h
  · exact h

theorem buildShortName_some {name : CStr} {short : ShortName}
    (h : fat32BuildShortName name = some short) :
    beforeDot name ≠ [] ∧ (beforeDot name).length ≤ 8 ∧ (behindDot name).length ≤ 3 ∧
    (∀ c ∈ beforeDot name, isRefused (fat32ToUpper c) = false) ∧
    (∀ c ∈ behindDot name, isRefused (fat32ToUpper c) = false) ∧
    short = .ofParts ((beforeDot name).map fat32ToUpper) ((behindDot name).map fat32ToUpper) := by
  simp only [fat32BuildShortName, ite_eq_iff, reduceCtorEq, and_false, false_or, not_or,
    Option.some.injEq, Bool.not_eq_true, List.any_eq_false, List.mem_map, forall_exists_index,
    and_imp, forall_apply_eq_imp_iff₂] at h
  obtain ⟨⟨h₁, h₂, h₃⟩, h₄, h₅, h₆⟩ := h
  exact ⟨fun he => h₁ (by rw [he]; rfl), by omega, by omega, h₄, h₅, h₆.symm⟩

theorem startsEntry_build {name : CStr} (ha : Ascii name) {short : ShortName}
    (h : fat32BuildShortName name = some short) : StartsEntry short.first := by
  obtain ⟨hne, -, -, hok, -, rfl⟩ := buildShortName_some h
  obtain ⟨c, base, hb⟩ := List.exists_cons_of_ne_nil hne
  have hc : c ∈ beforeDot name := by simp [hb]
  have hn := ha c (mem_of_mem_beforeDot hc)
  obtain ⟨h₁, h₂⟩ := toUpper_ascii hn.1 hn.2
  rw [hb, List.map_cons, first_ofParts]
  refine ⟨h₁, h₂, fun hdot => ?_⟩
  have hr := hok c hc
  rw [hdot] at hr
  exact absurd hr (by decide)

/-! ## Numbered aliases -/

theorem startsEntry_sanitize (c : UInt8) : StartsEntry (fat32SanitizeShortChar c) := by
  rw [fat32SanitizeShortChar]
  generalize fat32ToUpper c = u
  split
  · rename_i h
    refine ⟨?_, ?_, ?_⟩ <;> rintro rfl <;> revert h <;> decide
  · split
    · rename_i h
      refine ⟨?_, ?_, ?_⟩ <;> rintro rfl <;> revert h <;> decide
    · exact ⟨by decide, by decide, by decide⟩

theorem sanitizedBase_spec (name : CStr) :
    sanitizedBase name ≠ [] ∧ ∀ c ∈ sanitizedBase name, StartsEntry c := by
  rw [sanitizedBase]
  split
  · exact ⟨by decide, by simp only [fileName, StartsEntry]; decide +kernel⟩
  · rename_i h
    refine ⟨h, fun c hc => ?_⟩
    obtain ⟨d, -, rfl⟩ := List.mem_map.mp hc
    exact startsEntry_sanitize d

theorem startsEntry_alias {base : CStr} (hne : base ≠ []) (hb : ∀ c ∈ base, StartsEntry c)
    (ext : CStr) (suffix : Nat) : StartsEntry (aliasCandidate base ext suffix).first := by
  obtain ⟨c, base, rfl⟩ := List.exists_cons_of_ne_nil hne
  rw [aliasCandidate]
  generalize hallow : (if 8 > fat32CountDigits suffix + 1 then 8 - (fat32CountDigits suffix + 1)
    else 1) = allow
  have hpos : allow ≠ 0 := by
    rw [← hallow]
    split <;> omega
  obtain ⟨k, rfl⟩ := Nat.exists_eq_succ_of_ne_zero hpos
  rw [List.take_succ_cons, List.cons_append, first_ofParts]
  exact hb c (by simp)

/-! ## What is chosen -/

/-- The upper-case form of `name` or an alias of it. -/
def Chosen (name : CStr) (short : ShortName) : Prop :=
  fat32BuildShortName name = some short ∨
    ∃ suffix, short = aliasCandidate (sanitizedBase name) (sanitizedExt name) suffix

theorem Chosen.startsEntry {name : CStr} {short : ShortName} (h : Chosen name short)
    (ha : Ascii name) : StartsEntry short.first := by
  rcases h with h | ⟨suffix, rfl⟩
  · exact startsEntry_build ha h
  · exact startsEntry_alias (sanitizedBase_spec name).1 (sanitizedBase_spec name).2 _ _

theorem uniqueLoop_alias (dirCluster : Nat) (base ext : CStr) : ∀ left suffix,
    Triple (fun _ => True) (uniqueLoop dirCluster base ext left suffix) fun r _ =>
      ∀ short, r = some short → ∃ n, short = aliasCandidate base ext n
  | 0, suffix => Triple.pure fun _ _ short h => by cases h
  | left + 1, suffix => by
    rw [uniqueLoop]
    refine Triple.ite (fun _ => Triple.pure fun _ _ short h => by cases h) fun _ => ?_
    refine Triple.bind (Q := fun _ _ => True) (fun _ _ _ _ _ => trivial) fun found => ?_
    match found with
    | none => exact Triple.pure fun _ _ short h => by cases h
    | some true => exact uniqueLoop_alias dirCluster base ext left (suffix + 1)
    | some false =>
      exact Triple.pure fun _ _ short h => ⟨suffix, (Option.some.inj h).symm⟩

theorem prepareShortName_chosen (dirCluster : Nat) (name : CStr) :
    Triple (fun _ => True) (fat32PrepareShortName dirCluster name) fun r _ =>
      ∀ short lfn, r = some (short, lfn) → Chosen name short := by
  have hgen : Triple (fun _ => True) (fat32GenerateUniqueShortName dirCluster name) fun r _ =>
      ∀ short, r = some short → Chosen name short :=
    (uniqueLoop_alias dirCluster _ _ 999999 1).post fun _ _ hr short hs => .inr (hr short hs)
  have hnone : ∀ {P : World → Prop}, Triple P (pure none : Fat (Option (ShortName × Bool))) fun r _ =>
      ∀ short lfn, r = some (short, lfn) → Chosen name short :=
    Triple.pure fun _ _ short lfn h => by cases h
  have hsome : ∀ candidate, Triple (fun _ => ∀ short, some candidate = some short →
      Chosen name short) (pure (some (candidate, true)) : Fat (Option (ShortName × Bool))) fun r _ =>
        ∀ short lfn, r = some (short, lfn) → Chosen name short := by
    refine fun candidate => Triple.pure fun _ hr short lfn h => ?_
    obtain ⟨rfl, -⟩ := Prod.mk.inj (Option.some.inj h)
    exact hr _ rfl
  rw [fat32PrepareShortName]
  cases hb : fat32BuildShortName name with
  | none =>
    refine Triple.bind hgen fun r => ?_
    cases r with
    | none => exact hnone
    | some candidate => exact hsome candidate
  | some candidate =>
    refine Triple.bind (Q := fun _ _ => True) (fun _ _ _ _ _ => trivial) fun found => ?_
    obtain _ | _ | _ := found
    · exact hnone
    · refine Triple.pure fun _ _ short lfn h => ?_
      obtain ⟨rfl, -⟩ := Prod.mk.inj (Option.some.inj h)
      exact .inl hb
    · refine Triple.bind hgen fun r => ?_
      cases r with
      | none => exact hnone
      | some candidate => exact hsome candidate

end ContinuumOS.Fat32.Aliases
