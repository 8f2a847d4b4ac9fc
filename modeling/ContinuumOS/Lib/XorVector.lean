import Mathlib.Algebra.Group.Hom.End
import Mathlib.Algebra.Module.NatInt
import Mathlib.Data.Fintype.Card
import Mathlib.Data.Nat.Prime.Basic
import Mathlib.Dynamics.PeriodicPts.Defs
import Mathlib.Algebra.Ring.Commute
import Mathlib.Tactic.Ring
import Mathlib.Data.BitVec

/-! # Additive maps of full period

In a group of `N + 1` elements with `v + v = 0`, an additive map with `f ^ N = 1`
goes through all elements but zero, from any of them, if for every prime divisor
`p` of `N` the map `f ^ (N / p) + 1` is a power of `f`: such a power has no element
but zero in its kernel, so no other element comes back after `N / p` steps. -/
namespace ContinuumOS.Lib.FullPeriod

variable {V : Type} [AddCommGroup V] {f : AddMonoid.End V} {N : Nat} {v w : V}

/-- What makes the period full. -/
structure FullPeriod (f : AddMonoid.End V) (N : Nat) : Prop where
  two : ∀ v : V, v + v = 0
  pos : 0 < N
  power : f ^ N = 1
  logs : ∀ p, p.Prime → p ∣ N → ∃ e, f ^ (N / p) + 1 = f ^ e

theorem FullPeriod.periodic (h : FullPeriod f N) (v : V) : Function.IsPeriodicPt f N v := by
  show f^[N] v = v
  rw [← AddMonoid.End.coe_pow, h.power]
  rfl

theorem FullPeriod.injective (h : FullPeriod f N) : Function.Injective f := by
  obtain ⟨n, hn⟩ := Nat.exists_eq_succ_of_ne_zero h.pos.ne'
  intro v w hvw
  have hv : f^[n] (f v) = v := by
    rw [← Function.iterate_succ_apply, ← hn]
    exact h.periodic v
  have hw : f^[n] (f w) = w := by
    rw [← Function.iterate_succ_apply, ← hn]
    exact h.periodic w
  rw [← hv, hvw, hw]

theorem FullPeriod.iterate_ne_zero (h : FullPeriod f N) (hv : v ≠ 0) (k : Nat) : f^[k] v ≠ 0 := by
  intro hz
  have hzero : f^[k] 0 = 0 := by
    rw [← AddMonoid.End.coe_pow]
    exact map_zero _
  exact hv (h.injective.iterate k (hz.trans hzero.symm))

/-- **No element but zero comes back before `N` steps.** -/
theorem FullPeriod.minimalPeriod_eq (h : FullPeriod f N) (hv : v ≠ 0) :
    Function.minimalPeriod f v = N := by
  obtain ⟨q, hq⟩ := (h.periodic v).minimalPeriod_dvd
  by_contra hne
  have hq1 : q ≠ 1 := fun h1 => hne (by rw [hq, h1, mul_one])
  obtain ⟨p, hp, r, rfl⟩ := Nat.exists_prime_and_dvd hq1
  obtain ⟨e, he⟩ := h.logs p hp ⟨Function.minimalPeriod f v * r,
    hq.trans (mul_left_comm _ _ _)⟩
  have hdiv : N / p = Function.minimalPeriod f v * r := by
    rw [hq, mul_left_comm]
    exact Nat.mul_div_cancel_left _ hp.pos
  have hback : f^[N / p] v = v := by
    rw [hdiv]
    exact (Function.isPeriodicPt_minimalPeriod f v).mul_const r
  refine h.iterate_ne_zero hv e ?_
  rw [← AddMonoid.End.coe_pow, ← he]
  show (f ^ (N / p)) v + v = 0
  rw [AddMonoid.End.coe_pow, hback, h.two]

/-- **Every element but zero is met within `N` steps**, from any other. -/
theorem FullPeriod.exists_iterate [Fintype V] (h : FullPeriod f N)
    (hcard : Fintype.card V = N + 1) (hv : v ≠ 0) (hw : w ≠ 0) : ∃ k < N, f^[k] v = w := by
  classical
  have hinj : Set.InjOn (fun k => f^[k] v) (Finset.range N) := by
    rw [Finset.coe_range, ← h.minimalPeriod_eq hv]
    exact Function.iterate_injOn_Iio_minimalPeriod
  have hsub : (Finset.range N).image (fun k => f^[k] v) ⊆ Finset.univ.erase 0 := by
    intro u hu
    obtain ⟨k, -, rfl⟩ := Finset.mem_image.mp hu
    exact Finset.mem_erase.mpr ⟨h.iterate_ne_zero hv k, Finset.mem_univ _⟩
  have hsize : (Finset.univ.erase (0 : V)).card ≤ ((Finset.range N).image fun k => f^[k] v).card := by
    rw [Finset.card_image_of_injOn hinj, Finset.card_range,
      Finset.card_erase_of_mem (Finset.mem_univ _), Finset.card_univ, hcard]
    exact Nat.le_refl N
  have hall := Finset.eq_of_subset_of_card_le hsub hsize
  have hmem : w ∈ (Finset.range N).image fun k => f^[k] v := by
    rw [hall]
    exact Finset.mem_erase.mpr ⟨hw, Finset.mem_univ w⟩
  obtain ⟨k, hk, hkw⟩ := Finset.mem_image.mp hmem
  exact ⟨k, Finset.mem_range.mp hk, hkw⟩

end ContinuumOS.Lib.FullPeriod

/-! # Polynomials over two elements as numbers

The binary digits of a number are the coefficients of a polynomial. In a ring with
`r + r = 0` it has a value at every element, and at a root of a polynomial `P` all
powers of the root are values of numbers with fewer digits than `P`: `power` finds
them by squaring, and two powers are equal where the numbers are. -/
namespace ContinuumOS.Lib.BitPolynomial

/-- The value at `a` of the polynomial of the lowest `n` digits. -/
def value {R : Type} [Ring R] (a : R) : Nat → Nat → R
  | 0, _ => 0
  | n + 1, p => (if p % 2 = 1 then 1 else 0) + a * value a n (p / 2)

/-- Times the variable, reduced by `P` of degree `n`. -/
def double (n P p : Nat) : Nat := if 2 ^ n ≤ 2 * p then (2 * p) ^^^ P else 2 * p

/-- `acc + p q`, for `k` digits of `p`. -/
def mulLoop (n P : Nat) : Nat → Nat → Nat → Nat → Nat
  | 0, _, _, acc => acc
  | k + 1, p, q, acc =>
    mulLoop n P k (p / 2) (double n P q) (if p % 2 = 1 then acc ^^^ q else acc)

def mul (n P p q : Nat) : Nat := mulLoop n P n p q 0

/-- `acc b ^ e`, for `k` digits of `e`. -/
def powerLoop (n P : Nat) : Nat → Nat → Nat → Nat → Nat
  | 0, _, _, acc => acc
  | k + 1, e, b, acc =>
    powerLoop n P k (e / 2) (mul n P b b) (if e % 2 = 1 then mul n P acc b else acc)

/-- The variable to the power of `e`, for `e` of `k` digits. -/
def power (n P k e : Nat) : Nat := powerLoop n P k e 2 1

section

variable {R : Type} [Ring R] {a : R} {n P p q acc b e l m : Nat}

theorem xor_lt (hp : 2 ^ n ≤ p) (hp' : p < 2 ^ (n + 1)) (hq : 2 ^ n ≤ q) (hq' : q < 2 ^ (n + 1)) :
    p ^^^ q < 2 ^ n := by
  have hone : ∀ x, 2 ^ n ≤ x → x < 2 ^ (n + 1) → x >>> n = 1 := by
    intro x hlow hhigh
    rw [Nat.shiftRight_eq_div_pow]
    exact Nat.div_eq_of_lt_le (by omega) (by rw [Nat.pow_succ] at hhigh; omega)
  have hzero : (p ^^^ q) >>> n = 0 := by
    rw [Nat.shiftRight_xor_distrib, hone p hp hp', hone q hq hq', Nat.xor_self]
  rw [Nat.shiftRight_eq_div_pow] at hzero
  exact (Nat.div_eq_zero_iff.mp hzero).resolve_left (Nat.two_pow_pos n).ne'

theorem double_lt (hP : P < 2 ^ (n + 1)) (htop : 2 ^ n ≤ P) (hp : p < 2 ^ n) :
    double n P p < 2 ^ n := by
  rw [double]
  split
  · rename_i h
    exact xor_lt h (by rw [Nat.pow_succ]; omega) htop hP
  · omega

theorem mulLoop_lt (hP : P < 2 ^ (n + 1)) (htop : 2 ^ n ≤ P) :
    ∀ (k p : Nat) {q acc : Nat}, q < 2 ^ n → acc < 2 ^ n → mulLoop n P k p q acc < 2 ^ n
  | 0, _, _, _, _, hacc => hacc
  | k + 1, p, q, acc, hq, hacc => by
    refine mulLoop_lt hP htop k _ (double_lt hP htop hq) ?_
    split
    · exact Nat.xor_lt_two_pow hacc hq
    · exact hacc

theorem mul_lt (hP : P < 2 ^ (n + 1)) (htop : 2 ^ n ≤ P) (p : Nat) (hq : q < 2 ^ n) :
    mul n P p q < 2 ^ n := mulLoop_lt hP htop n p hq (Nat.two_pow_pos n)

/-! ## Values -/

theorem value_zero (a : R) : ∀ n, value a n 0 = 0
  | 0 => rfl
  | n + 1 => by
    rw [value, Nat.zero_div, value_zero a n, if_neg (by decide), zero_add, mul_zero]

theorem value_one (a : R) (n : Nat) : value a (n + 1) 1 = 1 := by
  rw [value, if_pos rfl, Nat.div_eq_of_lt (by decide), value_zero, mul_zero, add_zero]

theorem value_two (a : R) (n : Nat) : value a (n + 2) 2 = a := by
  rw [value, if_neg (by decide), Nat.div_self (by decide), value_one, zero_add, mul_one]

theorem value_succ_of_lt : ∀ {n p : Nat}, p < 2 ^ n → value a (n + 1) p = value a n p
  | 0, p, h => by
    obtain rfl : p = 0 := by omega
    exact value_zero a 1
  | n + 1, p, h => by
    rw [value, value_succ_of_lt (by rw [Nat.pow_succ] at h; omega)]
    rfl

theorem value_twice (a : R) (n p : Nat) : value a (n + 1) (2 * p) = a * value a n p := by
  rw [value, if_neg (by omega), Nat.mul_div_cancel_left p (by decide), zero_add]

theorem commute_value (a : R) : ∀ n p, Commute a (value a n p)
  | 0, _ => Commute.zero_right a
  | n + 1, p => by
    refine Commute.add_right ?_ ((Commute.refl a).mul_right (commute_value a n _))
    split
    · exact Commute.one_right a
    · exact Commute.zero_right a

theorem value_xor (h2 : ∀ r : R, r + r = 0) :
    ∀ n p q, value a n (p ^^^ q) = value a n p + value a n q
  | 0, _, _ => (add_zero 0).symm
  | n + 1, p, q => by
    have hdigit : (if (p ^^^ q) % 2 = 1 then (1 : R) else 0) =
        (if p % 2 = 1 then 1 else 0) + if q % 2 = 1 then 1 else 0 := by
      simp only [Nat.xor_mod_two_eq_one]
      by_cases hp : p % 2 = 1 <;> by_cases hq : q % 2 = 1 <;> simp [hp, hq, h2]
    rw [value, value, value, hdigit, Nat.xor_div_two, value_xor h2 n, mul_add]
    exact add_add_add_comm _ _ _ _

/-- What `P` is the modulus of. -/
structure Modulus (a : R) (n P : Nat) : Prop where
  two : ∀ r : R, r + r = 0
  top : 2 ^ n ≤ P
  degree : P < 2 ^ (n + 1)
  root : value a (n + 1) P = 0

theorem value_double (h : Modulus a n P) (hp : p < 2 ^ n) :
    value a n (double n P p) = a * value a n p := by
  rw [← value_twice, ← value_succ_of_lt (double_lt h.degree h.top hp), double]
  split
  · rw [value_xor h.two, h.root, add_zero]
  · rfl

theorem value_mulLoop (h : Modulus a n P) : ∀ (k p : Nat) {q acc : Nat}, q < 2 ^ n → acc < 2 ^ n →
    value a n (mulLoop n P k p q acc) = value a n acc + value a k p * value a n q
  | 0, _, _, _, _, _ => by rw [value, zero_mul, add_zero]; rfl
  | k + 1, p, q, acc, hq, hacc => by
    have hnext : (if p % 2 = 1 then acc ^^^ q else acc) < 2 ^ n := by
      split
      · exact Nat.xor_lt_two_pow hacc hq
      · exact hacc
    have hdigit : value a n (if p % 2 = 1 then acc ^^^ q else acc) =
        value a n acc + (if p % 2 = 1 then 1 else 0) * value a n q := by
      split
      · rw [value_xor h.two, one_mul]
      · rw [zero_mul, add_zero]
    rw [mulLoop, value_mulLoop h k _ (double_lt h.degree h.top hq) hnext, hdigit, value_double h hq,
      value, add_mul, add_assoc, (commute_value a k (p / 2)).eq, mul_assoc]

theorem value_mul (h : Modulus a n P) (p : Nat) (hq : q < 2 ^ n) :
    value a n (mul n P p q) = value a n p * value a n q := by
  rw [mul, value_mulLoop h n p hq (Nat.two_pow_pos n), value_zero, zero_add]

theorem value_powerLoop (h : Modulus a n P) : ∀ (k e : Nat) {b acc m l : Nat}, e < 2 ^ k →
    b < 2 ^ n → acc < 2 ^ n → value a n b = a ^ m → value a n acc = a ^ l →
    value a n (powerLoop n P k e b acc) = a ^ (l + m * e)
  | 0, e, _, _, m, l, he, _, _, _, hacc => by
    obtain rfl : e = 0 := by omega
    exact hacc
  | k + 1, e, b, acc, m, l, he, hb, hlt, hvb, hacc => by
    have hhalf : e / 2 < 2 ^ k := by rw [Nat.pow_succ] at he; omega
    have hsquare : value a n (mul n P b b) = a ^ (m + m) := by
      rw [value_mul h b hb, hvb, pow_add]
    rcases Nat.mod_two_eq_zero_or_one e with hr | hr
    · rw [powerLoop, if_neg (by omega), value_powerLoop h k _ hhalf
        (mul_lt h.degree h.top b hb) hlt hsquare hacc]
      congr 1
      calc l + (m + m) * (e / 2) = l + m * (2 * (e / 2)) := by ring
        _ = l + m * e := by rw [show 2 * (e / 2) = e by omega]
    · have hprod : value a n (mul n P acc b) = a ^ (l + m) := by
        rw [value_mul h acc hb, hacc, hvb, pow_add]
      rw [powerLoop, if_pos hr, value_powerLoop h k _ hhalf (mul_lt h.degree h.top b hb)
        (mul_lt h.degree h.top acc hb) hsquare hprod]
      congr 1
      calc l + m + (m + m) * (e / 2) = l + m * (2 * (e / 2) + 1) := by ring
        _ = l + m * e := by rw [show 2 * (e / 2) + 1 = e by omega]

/-- **Powers of a root are the values of their numbers.** -/
theorem value_power (h : Modulus a n P) (hn : 2 ≤ n) {k : Nat} (he : e < 2 ^ k) :
    value a n (power n P k e) = a ^ e := by
  obtain ⟨n, rfl⟩ := Nat.exists_eq_add_of_le' hn
  have htwo : 2 < 2 ^ (n + 2) := Nat.lt_of_lt_of_le (by decide : 2 < 2 ^ 2)
    (Nat.pow_le_pow_right (by decide) (Nat.le_add_left 2 n))
  have hbase : value a (n + 2) 2 = a ^ 1 := (value_two a n).trans (pow_one a).symm
  have hstart : value a (n + 2) 1 = a ^ 0 := (value_one a (n + 1)).trans (pow_zero a).symm
  rw [power, value_powerLoop h k e he htwo (by omega) hbase hstart, zero_add, one_mul]

end

end ContinuumOS.Lib.BitPolynomial

/-! # Words with exclusive or as addition

What an additive map does to all words is known from what it does to those with a
single bit, so that an identity between polynomials in the map can be computed. -/
namespace ContinuumOS.Lib.XorVector
open ContinuumOS.Lib.BitPolynomial

def XorVector (w : Nat) : Type := BitVec w

instance (w : Nat) : Zero (XorVector w) := ⟨BitVec.zero w⟩

instance (w : Nat) : Add (XorVector w) := ⟨BitVec.xor⟩

instance (w : Nat) : Neg (XorVector w) := ⟨id⟩

instance (w : Nat) : AddCommGroup (XorVector w) where
  add_assoc := BitVec.xor_assoc
  zero_add v := BitVec.zero_xor (x := (v : BitVec w))
  add_zero v := BitVec.xor_zero (x := (v : BitVec w))
  neg_add_cancel v := BitVec.xor_self (x := (v : BitVec w))
  add_comm := BitVec.xor_comm
  nsmul := nsmulRec
  zsmul := zsmulRec

instance (w : Nat) : DecidableEq (XorVector w) := inferInstanceAs (DecidableEq (BitVec w))

/-- The words are numbers. -/
def toFin (w : Nat) : XorVector w ≃ Fin (2 ^ w) := BitVec.equivFin.toEquiv

instance (w : Nat) : Fintype (XorVector w) := Fintype.ofEquiv (Fin (2 ^ w)) (toFin w).symm

/-- The word with bit `i`. -/
def unit (w i : Nat) : XorVector w := BitVec.twoPow w i

variable {w : Nat}

theorem card_eq (w : Nat) : Fintype.card (XorVector w) = 2 ^ w :=
  (Fintype.card_congr (toFin w)).trans (Fintype.card_fin _)

theorem add_self (v : XorVector w) : v + v = 0 := BitVec.xor_self

theorem toNat_add_unit {k : Nat} (hk : k < w) (v : XorVector w) :
    BitVec.toNat (v + unit w k) = BitVec.toNat v ^^^ 2 ^ k := by
  have hbit : (BitVec.twoPow w k).toNat = 2 ^ k := by
    rw [BitVec.toNat_twoPow]
    exact Nat.mod_eq_of_lt (Nat.pow_lt_pow_right (by decide) hk)
  exact (BitVec.toNat_xor _ _).trans (congrArg _ hbit)

/-- **A map that gives zero for the single bits gives zero for all words.** -/
theorem eq_zero_of_units {A : Type} [AddCommGroup A] {g : XorVector w →+ A}
    (h : ∀ i < w, g (unit w i) = 0) (v : XorVector w) : g v = 0 := by
  have hlow : ∀ k ≤ w, ∀ v : XorVector w, BitVec.toNat v < 2 ^ k → g v = 0 := by
    intro k
    induction k with
    | zero =>
      intro _ v hv
      have hz : v = 0 := BitVec.eq_of_toNat_eq (Nat.lt_one_iff.mp hv)
      rw [hz, map_zero]
    | succ k ih =>
      intro hk v hv
      by_cases hlt : BitVec.toNat v < 2 ^ k
      · exact ih (Nat.le_of_succ_le hk) v hlt
      -- without its highest bit the word is a smaller one
      have hrest : BitVec.toNat (v + unit w k) < 2 ^ k := by
        rw [toNat_add_unit hk]
        exact xor_lt (Nat.le_of_not_lt hlt) hv (Nat.le_refl _)
          (Nat.pow_lt_pow_right (by decide) (Nat.lt_succ_self k))
      have hsplit : v = v + unit w k + unit w k := by rw [add_assoc, add_self, add_zero]
      rw [hsplit, map_add, ih (Nat.le_of_succ_le hk) _ hrest, h k hk, add_zero]
  exact hlow w (Nat.le_refl w) v (BitVec.isLt v)

/-! ## Polynomials in a map -/

/-- The polynomial of the lowest `n` digits of `p` in `f`, at `v`. -/
def act {V : Type} [AddCommGroup V] (f : V → V) : Nat → Nat → V → V
  | 0, _, _ => 0
  | n + 1, p, v => (if p % 2 = 1 then v else 0) + f (act f n (p / 2) v)

theorem value_apply {V : Type} [AddCommGroup V] (f : AddMonoid.End V) (v : V) :
    ∀ n p, value f n p v = act f n p v
  | 0, _ => rfl
  | n + 1, p => by
    rw [value, act, ← value_apply f v n (p / 2)]
    by_cases hp : p % 2 = 1
    · rw [if_pos hp, if_pos hp]
      rfl
    · rw [if_neg hp, if_neg hp]
      rfl

theorem end_add_self (g : AddMonoid.End (XorVector w)) : g + g = 0 :=
  AddMonoidHom.ext fun v => add_self (g v)

theorem value_eq_zero {f : AddMonoid.End (XorVector w)} {n p : Nat}
    (h : ∀ i < w, act f n p (unit w i) = 0) : value f n p = 0 :=
  AddMonoidHom.ext <| eq_zero_of_units fun i hi => (value_apply f _ n p).trans (h i hi)

end ContinuumOS.Lib.XorVector
