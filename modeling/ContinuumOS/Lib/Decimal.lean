import Mathlib.Data.Nat.Digits.Lemmas

/-! # Decimal numbers in names

Numbers as strings of ASCII digits. A name that ends in a separator, a number and
padding determines the number, whatever stands before the separator, also when
that holds separators and digits itself. -/
namespace ContinuumOS.Lib.Decimal

/-- The character of a digit. -/
def digitChar (d : Nat) : UInt8 := UInt8.ofNat (0x30 + d)

/-- `0` to `9` -/
def IsDigit (c : UInt8) : Prop := 0x30 ≤ c ∧ c ≤ 0x39

instance (c : UInt8) : Decidable (IsDigit c) := inferInstanceAs (Decidable (_ ∧ _))

/-- A number in decimal, without leading zeros; zero has no digits. -/
def decimal (n : Nat) : List UInt8 := ((Nat.digits 10 n).map digitChar).reverse

variable {d m n i j : Nat} {c sep pad : UInt8} {a b : List UInt8}

theorem toNat_digitChar (h : d < 10) : (digitChar d).toNat = 0x30 + d := by
  rw [digitChar, UInt8.toNat_ofNat']
  exact Nat.mod_eq_of_lt (by omega)

theorem isDigit_digitChar (h : d < 10) : IsDigit (digitChar d) := by
  have hd := toNat_digitChar h
  constructor
  · change 0x30 ≤ (digitChar d).toNat
    omega
  · change (digitChar d).toNat ≤ 0x39
    omega

theorem isDigit_of_mem_decimal (h : c ∈ decimal n) : IsDigit c := by
  obtain ⟨d, hd, rfl⟩ := List.mem_map.mp (List.mem_reverse.mp h)
  exact isDigit_digitChar (Nat.digits_lt_base (by decide) hd)

theorem digits_of_decimal (n : Nat) :
    (decimal n).reverse.map (fun c => c.toNat - 0x30) = Nat.digits 10 n := by
  rw [decimal, List.reverse_reverse, List.map_map]
  refine (List.map_congr_left fun d hd => ?_).trans (List.map_id _)
  rw [Function.comp_apply, toNat_digitChar (Nat.digits_lt_base (by decide) hd),
    Nat.add_sub_cancel_left]
  rfl

theorem decimal_inj (h : decimal m = decimal n) : m = n := by
  rw [← Nat.digits_inj_iff, ← digits_of_decimal m, ← digits_of_decimal n, h]

theorem length_decimal_le_iff : (decimal n).length ≤ i ↔ n < 10 ^ i := by
  rw [decimal, List.length_reverse, List.length_map, Nat.digits_length_le_iff (by decide)]

/-! ## Numbered names -/

/-- What stands behind the last separator, from the end on, without padding. -/
def behindLast (sep pad : UInt8) (l : List UInt8) : List UInt8 :=
  (l.reverse.takeWhile (· ≠ sep)).filter (· ≠ pad)

theorem behindLast_numbered (hsep : ¬ IsDigit sep) (hpad : ¬ IsDigit pad) (hne : pad ≠ sep) :
    behindLast sep pad (a ++ sep :: decimal n ++ List.replicate i pad) = (decimal n).reverse := by
  have hdigits : ∀ c ∈ (decimal n).reverse, IsDigit c := fun c hc =>
    isDigit_of_mem_decimal (List.mem_reverse.mp hc)
  have hfront : ∀ c ∈ List.replicate i pad ++ (decimal n).reverse, decide (c ≠ sep) = true := by
    intro c hc
    refine decide_eq_true fun heq => ?_
    subst heq
    rcases List.mem_append.mp hc with hc | hc
    · exact hne (List.eq_of_mem_replicate hc).symm
    · exact hsep (hdigits c hc)
  have hreverse : (a ++ sep :: decimal n ++ List.replicate i pad).reverse =
      (List.replicate i pad ++ (decimal n).reverse) ++ sep :: a.reverse := by
    simp
  rw [behindLast, hreverse, List.takeWhile_append_of_pos hfront,
    List.takeWhile_cons_of_neg (by simp),
    List.append_nil, List.filter_append]
  have hblank : (List.replicate i pad).filter (· ≠ pad) = [] :=
    List.filter_eq_nil_iff.mpr fun c hc => by simp [List.eq_of_mem_replicate hc]
  have hkept : (decimal n).reverse.filter (· ≠ pad) = (decimal n).reverse := by
    refine List.filter_eq_self.mpr fun c hc => decide_eq_true fun heq => ?_
    exact hpad (heq ▸ hdigits c hc)
  rw [hblank, hkept, List.nil_append]

/-- **A numbered name determines its number.** -/
theorem numbered_inj (hsep : ¬ IsDigit sep) (hpad : ¬ IsDigit pad) (hne : pad ≠ sep)
    (h : a ++ sep :: decimal m ++ List.replicate i pad =
      b ++ sep :: decimal n ++ List.replicate j pad) : m = n := by
  have htail := congrArg (behindLast sep pad) h
  rw [behindLast_numbered hsep hpad hne, behindLast_numbered hsep hpad hne] at htail
  exact decimal_inj (List.reverse_inj.mp htail)

end ContinuumOS.Lib.Decimal
