import Mathlib.Data.List.Nodup

/-! # Sequences stored in blocks

A sequence is stored in a list of blocks of `B` places each: place `i` lies in
block `i / B` at offset `i % B`. `overwrite` replaces a part of a sequence and
extends it where the part reaches over its end. -/
namespace ContinuumOS.Lib.Blocks

variable {ι β : Type} {block block' : ι → Nat → β} {B : Nat} {l : List ι} {b : List β}

/-! ## Overwriting -/

/-- The sequence with `s` from place `p` on. -/
def overwrite (b : List β) (p : Nat) (s : List β) : List β := b.take p ++ s ++ b.drop (p + s.length)

theorem length_overwrite {p : Nat} {s : List β} (h : p ≤ b.length) :
    (overwrite b p s).length = max b.length (p + s.length) := by
  simp only [overwrite, List.length_append, List.length_take, List.length_drop]
  omega

theorem overwrite_nil (b : List β) (p : Nat) : overwrite b p [] = b := by
  simp [overwrite]

theorem getElem?_overwrite {p : Nat} {s : List β} (h : p ≤ b.length) (i : Nat) :
    (overwrite b p s)[i]? =
      if i < p then b[i]? else if i < p + s.length then s[i - p]? else b[i]? := by
  have hlen : (b.take p).length = p := by rw [List.length_take]; omega
  rw [overwrite]
  split
  · rename_i hi
    rw [List.append_assoc, List.getElem?_append_left (by omega), List.getElem?_take_of_lt hi]
  · rename_i hi
    split
    · rename_i hi'
      rw [List.append_assoc, List.getElem?_append_right (by omega), hlen,
        List.getElem?_append_left (by omega)]
    · rename_i hi'
      rw [List.getElem?_append_right (by rw [List.length_append]; omega), List.length_append, hlen,
        List.getElem?_drop]
      congr 1
      omega

theorem overwrite_overwrite {p : Nat} {s t : List β} (h : p ≤ b.length) :
    overwrite (overwrite b p s) (p + s.length) t = overwrite b p (s ++ t) := by
  have hlen := length_overwrite (s := s) h
  apply List.ext_getElem?
  intro i
  rw [getElem?_overwrite (by omega), getElem?_overwrite h, getElem?_overwrite h, List.length_append]
  by_cases h₁ : i < p
  · rw [if_pos (by omega), if_pos h₁, if_pos h₁]
  · by_cases h₂ : i < p + s.length
    · rw [if_pos h₂, if_neg h₁, if_pos h₂, if_neg h₁, if_pos (by omega),
        List.getElem?_append_left (by omega)]
    · by_cases h₃ : i < p + s.length + t.length
      · rw [if_neg h₂, if_pos h₃, if_neg h₁, if_pos (by omega),
          List.getElem?_append_right (by omega)]
        congr 1
        omega
      · rw [if_neg h₂, if_neg h₃, if_neg h₁, if_neg h₂, if_neg h₁, if_neg (by omega)]

/-! ## Blocks -/

/-- The blocks `l` hold the sequence `b`. -/
structure Stored (block : ι → Nat → β) (B : Nat) (l : List ι) (b : List β) : Prop where
  length_le : b.length ≤ l.length * B
  get : ∀ i, i < b.length → ∃ c, l[i / B]? = some c ∧ b[i]? = some (block c (i % B))

theorem Stored.congr (h : Stored block B l b) (hB : 0 < B)
    (hag : ∀ c ∈ l, ∀ i, i < B → block' c i = block c i) : Stored block' B l b := by
  refine ⟨h.length_le, fun i hi => ?_⟩
  obtain ⟨c, hc, hb⟩ := h.get i hi
  exact ⟨c, hc, by rw [hag c (List.mem_of_getElem? hc) _ (Nat.mod_lt _ hB), hb]⟩

theorem Stored.extend (h : Stored block B l b) (c : ι) : Stored block B (l ++ [c]) b := by
  refine ⟨?_, fun i hi => ?_⟩
  · have h₁ := h.length_le
    rw [List.length_append, List.length_singleton, Nat.succ_mul]
    omega
  · obtain ⟨d, hd, hb⟩ := h.get i hi
    refine ⟨d, ?_, hb⟩
    rw [List.getElem?_append_left (List.getElem?_eq_some_iff.mp hd).1, hd]

section

variable {q r : Nat} {c : ι}

theorem place_div (hr : r < B) : (q * B + r) / B = q := by
  rw [Nat.mul_comm, Nat.mul_add_div (by omega), Nat.div_eq_of_lt hr, Nat.add_zero]

theorem place_mod (hr : r < B) : (q * B + r) % B = r := by
  rw [Nat.mul_comm, Nat.mul_add_mod, Nat.mod_eq_of_lt hr]

theorem Stored.read (h : Stored block B l b) (hc : l[q]? = some c) {k : Nat} (hk : r + k ≤ B)
    (hle : q * B + r + k ≤ b.length) :
    (List.range' r k).map (block c) = (b.drop (q * B + r)).take k := by
  apply List.ext_getElem?
  intro i
  by_cases hi : i < k
  · obtain ⟨d, hd, hb⟩ := h.get (q * B + (r + i)) (by omega)
    rw [place_div (by omega), hc] at hd
    rw [place_mod (by omega)] at hb
    obtain rfl := Option.some.inj hd
    rw [List.getElem?_map, List.getElem?_range' hi, List.getElem?_take_of_lt hi, List.getElem?_drop,
      Nat.add_assoc, hb, Nat.one_mul]
    rfl
  · rw [List.getElem?_eq_none (by simp; omega), List.getElem?_eq_none (by simp; omega)]

theorem Stored.write (h : Stored block B l b) (hn : l.Nodup) (hc : l[q]? = some c) {s : List β}
    (hs : r + s.length ≤ B) (hle : q * B + r ≤ b.length)
    (hin : ∀ i, i < s.length → s[i]? = some (block' c (r + i)))
    (hout : ∀ i, i < B → i < r ∨ r + s.length ≤ i → block' c i = block c i)
    (hother : ∀ d ∈ l, d ≠ c → ∀ i, i < B → block' d i = block d i) :
    Stored block' B l (overwrite b (q * B + r) s) := by
  have hq := (List.getElem?_eq_some_iff.mp hc).1
  have hlen := length_overwrite (s := s) hle
  refine ⟨?_, fun i hi => ?_⟩
  · have h₁ := h.length_le
    have h₂ : (q + 1) * B ≤ l.length * B := Nat.mul_le_mul_right _ hq
    rw [Nat.succ_mul] at h₂
    omega
  rw [getElem?_overwrite hle]
  by_cases hw : q * B + r ≤ i ∧ i < q * B + r + s.length
  · -- inside the part that was written
    obtain ⟨j, rfl⟩ : ∃ j, i = q * B + (r + j) := ⟨i - (q * B + r), by omega⟩
    refine ⟨c, by rw [place_div (by omega), hc], ?_⟩
    rw [if_neg (by omega), if_pos (by omega), place_mod (by omega), ← hin j (by omega)]
    congr 1
    omega
  · have hB : 0 < B := by
      rcases Nat.eq_zero_or_pos B with rfl | h'
      · have := h.length_le
        omega
      · exact h'
    have hib : i < b.length := by omega
    obtain ⟨d, hd, hb⟩ := h.get i hib
    refine ⟨d, hd, ?_⟩
    have hval : block' d (i % B) = block d (i % B) := by
      by_cases hdc : d = c
      · subst hdc
        -- a block occurs once, so `i` lies in block `q`
        have hdiv : i / B = q := by
          obtain ⟨h₁, h₂⟩ := List.getElem?_eq_some_iff.mp hd
          obtain ⟨h₃, h₄⟩ := List.getElem?_eq_some_iff.mp hc
          exact (List.Nodup.getElem_inj_iff hn).mp (h₂.trans h₄.symm)
        have hi' := Nat.div_add_mod i B
        rw [hdiv, Nat.mul_comm] at hi'
        exact hout _ (Nat.mod_lt _ hB) (by omega)
      · exact hother d (List.mem_of_getElem? hd) hdc _ (Nat.mod_lt _ hB)
    rw [hval, ← hb]
    by_cases h₁ : i < q * B + r
    · rw [if_pos h₁]
    · rw [if_neg h₁, if_neg (by omega)]

end

end ContinuumOS.Lib.Blocks
