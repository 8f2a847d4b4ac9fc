import Mathlib.Data.Finset.Card
import Mathlib.Data.Finset.Range
import Mathlib.Logic.Function.Basic

/-! # Bits packed into words

A set of numbers kept as bits of 32-bit words: number `n` is bit `n % 32` of
word `n / 32`. Setting and clearing a bit, and searching the first clear bit a
word at a time, are described by the set. -/
namespace ContinuumOS.Lib.Bitmap

/-- The bit of a number. -/
def bit (words : Nat → BitVec 32) (n : Nat) : Bool := (words (n / 32)).getLsbD (n % 32)

def setBit (words : Nat → BitVec 32) (n : Nat) : Nat → BitVec 32 :=
  Function.update words (n / 32) (words (n / 32) ||| (1#32 <<< (n % 32)))

def clearBit (words : Nat → BitVec 32) (n : Nat) : Nat → BitVec 32 :=
  Function.update words (n / 32) (words (n / 32) &&& ~~~(1#32 <<< (n % 32)))

theorem getLsbD_mask {j k : Nat} (hk : k < 32) :
    (1#32 <<< j).getLsbD k = decide (k = j) := by
  rw [BitVec.getLsbD_shiftLeft, BitVec.getLsbD_one]
  by_cases h : k = j
  · subst h
    simp [hk]
  · simp only [h, decide_false]
    by_cases hlt : k < j
    · simp [hlt]
    · have : k - j ≠ 0 := by omega
      simp [this]

variable {words : Nat → BitVec 32} {n m : Nat}

theorem eq_of_div_mod (h₁ : m / 32 = n / 32) (h₂ : m % 32 = n % 32) : m = n := by
  rw [← Nat.div_add_mod m 32, ← Nat.div_add_mod n 32, h₁, h₂]

theorem bit_setBit (words : Nat → BitVec 32) (n m : Nat) :
    bit (setBit words n) m = (decide (m = n) || bit words m) := by
  have hm : m % 32 < 32 := Nat.mod_lt _ (by decide)
  unfold bit setBit
  by_cases hw : m / 32 = n / 32
  · rw [hw, Function.update_self, BitVec.getLsbD_or, getLsbD_mask hm]
    by_cases hb : m % 32 = n % 32
    · simp [eq_of_div_mod hw hb]
    · have hne : m ≠ n := fun h => hb (by rw [h])
      simp [hb, hne]
  · have hne : m ≠ n := fun h => hw (by rw [h])
    rw [Function.update_of_ne hw]
    simp [hne]

theorem bit_clearBit (words : Nat → BitVec 32) (n m : Nat) :
    bit (clearBit words n) m = (decide (m ≠ n) && bit words m) := by
  have hm : m % 32 < 32 := Nat.mod_lt _ (by decide)
  unfold bit clearBit
  by_cases hw : m / 32 = n / 32
  · rw [hw, Function.update_self, BitVec.getLsbD_and, BitVec.getLsbD_not, getLsbD_mask hm]
    by_cases hb : m % 32 = n % 32
    · simp [eq_of_div_mod hw hb]
    · have hne : m ≠ n := fun h => hb (by rw [h])
      simp [hb, hne, hm]
  · have hne : m ≠ n := fun h => hw (by rw [h])
    rw [Function.update_of_ne hw]
    simp [hne]

theorem and_mask_eq_zero {w : BitVec 32} {j : Nat} (hj : j < 32) :
    w &&& (1#32 <<< j) = 0#32 ↔ w.getLsbD j = false := by
  constructor
  · intro h
    have hbit := congrArg (BitVec.getLsbD · j) h
    simpa [BitVec.getLsbD_and, getLsbD_mask hj] using hbit
  · intro h
    refine BitVec.eq_of_getLsbD_eq fun k hk => ?_
    rw [BitVec.getLsbD_and, getLsbD_mask hk]
    by_cases hkj : k = j
    · subst hkj
      simp [h]
    · simp [hkj]

theorem eq_allOnes_iff {w : BitVec 32} : w = 0xFFFFFFFF#32 ↔ ∀ j < 32, w.getLsbD j = true := by
  have hones : ∀ j < 32, (0xFFFFFFFF#32).getLsbD j = true := by decide
  constructor
  · rintro rfl
    exact hones
  · intro h
    refine BitVec.eq_of_getLsbD_eq fun j hj => ?_
    rw [h j hj, hones j hj]

theorem toNat_and_pageMask (x : BitVec 32) :
    (x &&& 0xFFFFF000#32).toNat = x.toNat / 4096 * 4096 := by
  have hmask : ∀ j < 32, (0xFFFFF000#32).getLsbD j = decide (12 ≤ j) := by decide
  have hshift : x &&& 0xFFFFF000#32 = (x >>> 12) <<< 12 := by
    refine BitVec.eq_of_getLsbD_eq fun j hj => ?_
    rw [BitVec.getLsbD_and, hmask j hj, BitVec.getLsbD_shiftLeft, BitVec.getLsbD_ushiftRight]
    by_cases h : 12 ≤ j
    · have hjs : 12 + (j - 12) = j := by omega
      simp [h, hj, Nat.not_lt.mpr h, hjs]
    · simp [h, Nat.lt_of_not_le h]
  rw [hshift, BitVec.toNat_shiftLeft, BitVec.toNat_ushiftRight, Nat.shiftRight_eq_div_pow,
    Nat.shiftLeft_eq]
  have := x.isLt
  omega

/-! ## Searching -/

/-- What the search finds in one word: nothing in a full word, nor when its
first clear bit lies past the end. -/
def firstClearIn (words : Nat → BitVec 32) (total i : Nat) : Option Nat :=
  if words i ≠ 0xFFFFFFFF#32 then
    ((List.range 32).find? fun j => words i &&& (1#32 <<< j) == 0#32).bind fun j =>
      if i * 32 + j < total then some (i * 32 + j) else none
  else none

/-- The first number below `total` with its bit clear, in the words before
`size`. -/
def firstClear (words : Nat → BitVec 32) (total size : Nat) : Option Nat :=
  (List.range size).findSome? (firstClearIn words total)

theorem bit_word {i j : Nat} (hj : j < 32) : bit words (i * 32 + j) = (words i).getLsbD j := by
  have h₁ : (i * 32 + j) / 32 = i := by omega
  have h₂ : (i * 32 + j) % 32 = j := by omega
  rw [bit, h₁, h₂]

theorem find_clear_iff {i j : Nat} :
    ((List.range 32).find? fun j => words i &&& (1#32 <<< j) == 0#32) = some j ↔
      j < 32 ∧ bit words (i * 32 + j) = false ∧ ∀ k < j, bit words (i * 32 + k) = true := by
  rw [List.find?_range_eq_some]
  constructor
  · rintro ⟨hclear, hmem, hbefore⟩
    have hj := List.mem_range.mp hmem
    refine ⟨hj, ?_, fun k hk => ?_⟩
    · rw [bit_word hj]
      exact (and_mask_eq_zero hj).mp (beq_iff_eq.mp hclear)
    · rw [bit_word (by omega), ← Bool.not_eq_false]
      intro hzero
      have := hbefore k hk
      rw [(and_mask_eq_zero (by omega)).mpr hzero] at this
      simp at this
  · rintro ⟨hj, hclear, hbefore⟩
    rw [bit_word hj] at hclear
    refine ⟨beq_iff_eq.mpr ((and_mask_eq_zero hj).mpr hclear), List.mem_range.mpr hj,
      fun k hk => ?_⟩
    have hset := hbefore k hk
    rw [bit_word (by omega)] at hset
    rw [Bool.not_eq_true', beq_eq_false_iff_ne]
    intro hzero
    rw [(and_mask_eq_zero (by omega)).mp hzero] at hset
    cases hset

variable {total size i : Nat}

theorem firstClearIn_some (h : firstClearIn words total i = some n) :
    n / 32 = i ∧ n < total ∧ bit words n = false ∧ ∀ k < n, k / 32 = i → bit words k = true := by
  unfold firstClearIn at h
  split at h
  · obtain ⟨j, hj, hn⟩ := Option.bind_eq_some_iff.mp h
    obtain ⟨hlt, hclear, hbefore⟩ := find_clear_iff.mp hj
    split at hn
    · rename_i htotal
      obtain rfl := Option.some.inj hn
      refine ⟨by omega, htotal, hclear, fun k hk hki => ?_⟩
      have := hbefore (k - i * 32) (by omega)
      rwa [show i * 32 + (k - i * 32) = k by omega] at this
    · cases hn
  · cases h

theorem firstClearIn_none (h : firstClearIn words total i = none) (hn : n / 32 = i)
    (ht : n < total) : bit words n = true := by
  have hword : bit words n = (words i).getLsbD (n % 32) := by rw [bit, hn]
  unfold firstClearIn at h
  split at h
  · cases hfind : (List.range 32).find? fun j => words i &&& (1#32 <<< j) == 0#32 with
    | none =>
      have hset := List.find?_eq_none.mp hfind (n % 32) (List.mem_range.mpr (by omega))
      rw [beq_iff_eq, and_mask_eq_zero (by omega), Bool.not_eq_false] at hset
      rw [hword, hset]
    | some j =>
      rw [hfind, Option.bind_some] at h
      obtain ⟨-, -, hbefore⟩ := find_clear_iff.mp hfind
      split at h
      · cases h
      · -- the clear bit lies past the end, so the number is before it
        have := hbefore (n - i * 32) (by omega)
        rwa [show i * 32 + (n - i * 32) = n by omega] at this
  · rename_i hfull
    rw [hword]
    exact eq_allOnes_iff.mp (not_not.mp hfull) (n % 32) (by omega)

theorem firstClear_succ : firstClear words total (size + 1) =
    (firstClear words total size).or (firstClearIn words total size) := by
  rw [firstClear, List.range_succ, List.findSome?_append, List.findSome?_cons, List.findSome?_nil,
    firstClear]
  cases firstClearIn words total size <;> rfl

theorem firstClear_none (h : firstClear words total size = none) (hn : n < total)
    (hsize : n / 32 < size) : bit words n = true := by
  rw [firstClear, List.findSome?_eq_none_iff] at h
  exact firstClearIn_none (h (n / 32) (List.mem_range.mpr hsize)) rfl hn

/-- **The search finds the lowest clear number.** -/
theorem firstClear_some (h : firstClear words total size = some n) :
    n < total ∧ bit words n = false ∧ ∀ k < n, bit words k = true := by
  induction size with
  | zero => cases h
  | succ size ih =>
    rw [firstClear_succ] at h
    cases hbefore : firstClear words total size with
    | some n' =>
      rw [hbefore, Option.some_or] at h
      exact ih (hbefore.trans h)
    | none =>
      rw [hbefore, Option.none_or] at h
      obtain ⟨hword, htotal, hclear, hset⟩ := firstClearIn_some h
      refine ⟨htotal, hclear, fun k hk => ?_⟩
      -- `k` lies in an earlier word or in this one
      rcases Nat.lt_or_ge (k / 32) size with hlt | hge
      · exact firstClear_none hbefore (by omega) hlt
      · exact hset k hk (by omega)

/-! ## Counting -/

/-- The numbers below `total` whose bit is set. -/
def members (words : Nat → BitVec 32) (total : Nat) : Finset Nat :=
  (Finset.range total).filter fun n => bit words n = true

theorem members_setBit (hn : n < total) :
    members (setBit words n) total = insert n (members words total) := by
  ext k
  simp only [members, Finset.mem_filter, Finset.mem_range, Finset.mem_insert, bit_setBit,
    Bool.or_eq_true, decide_eq_true_eq]
  constructor
  · rintro ⟨hk, rfl | hb⟩
    · exact .inl rfl
    · exact .inr ⟨hk, hb⟩
  · rintro (rfl | ⟨hk, hb⟩)
    · exact ⟨hn, .inl rfl⟩
    · exact ⟨hk, .inr hb⟩

theorem members_clearBit : members (clearBit words n) total = (members words total).erase n := by
  ext k
  simp only [members, Finset.mem_filter, Finset.mem_range, Finset.mem_erase, bit_clearBit,
    Bool.and_eq_true, decide_eq_true_eq]
  tauto

theorem card_members_setBit (hn : n < total) (hclear : bit words n = false) :
    (members (setBit words n) total).card = (members words total).card + 1 := by
  rw [members_setBit hn, Finset.card_insert_of_notMem]
  simp [members, hclear]

theorem card_members_clearBit (hn : n < total) (hset : bit words n = true) :
    (members (clearBit words n) total).card + 1 = (members words total).card := by
  rw [members_clearBit]
  exact Finset.card_erase_add_one (by simp [members, hn, hset])

end ContinuumOS.Lib.Bitmap
