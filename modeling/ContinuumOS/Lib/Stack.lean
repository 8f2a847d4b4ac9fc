import ContinuumOS.Lib.Memory

/-! # Words on a 32-bit stack

Byte memory addressed by 32-bit words, wrapping at the end of the address
space. `Holds m a ws`: the words from `a` upwards are `ws`. Pushing a word in
front of the stack pointer and reading the words back are described in these
terms, so that straight-line stack code is followed as a list. -/
namespace ContinuumOS.Lib.Stack
open ContinuumOS.Lib.Memory

abbrev Ram := UInt32 → UInt8

def load32 (m : Ram) (a : UInt32) : UInt32 :=
  UInt32.ofNat (le32 (m a) (m (a + 1)) (m (a + 2)) (m (a + 3)))

def store32 (m : Ram) (a v : UInt32) : Ram :=
  fun x => if (x - a).toNat < 4 then wordByte v.toNat (x - a).toNat else m x

@[simp] theorem load32_store32_same (m : Ram) (a v : UInt32) : load32 (store32 m a v) a = v := by
  have hb : ∀ i : UInt32, i.toNat < 4 → store32 m a v (a + i) = wordByte v.toNat i.toNat := by
    intro i hi
    have hd : a + i - a = i := by grind
    rw [store32, hd, if_pos hi]
  have h₀ := hb 0 (by decide)
  rw [UInt32.add_zero] at h₀
  rw [load32, h₀, hb 1 (by decide), hb 2 (by decide), hb 3 (by decide)]
  have h := le32_wordByte v.toNat_lt
  exact (congrArg UInt32.ofNat h).trans (by simp)

theorem load32_store32_apart {m : Ram} {a b v : UInt32} (h₁ : 4 ≤ (b - a).toNat)
    (h₂ : (b - a).toNat + 4 ≤ 2 ^ 32) : load32 (store32 m a v) b = load32 m b := by
  have hb : ∀ i : UInt32, i.toNat < 4 → store32 m a v (b + i) = m (b + i) := by
    intro i hi
    have hd : b + i - a = (b - a) + i := by grind
    have hn : (b - a + i).toNat = (b - a).toNat + i.toNat := by
      rw [UInt32.toNat_add]
      exact Nat.mod_eq_of_lt (by omega)
    rw [store32, hd, if_neg (by omega)]
  have h₀ := hb 0 (by decide)
  rw [UInt32.add_zero] at h₀
  rw [load32, h₀, hb 1 (by decide), hb 2 (by decide), hb 3 (by decide), load32]

/-- The words from `a` upwards. -/
def Holds (m : Ram) : UInt32 → List UInt32 → Prop
  | _, [] => True
  | a, w :: ws => load32 m a = w ∧ Holds m (a + 4) ws

theorem Holds.frame {m : Ram} {a v : UInt32} {ws : List UInt32} : ∀ {b : UInt32}, Holds m b ws →
    4 ≤ (b - a).toNat → (b - a).toNat + 4 * ws.length ≤ 2 ^ 32 → Holds (store32 m a v) b ws := by
  induction ws with
  | nil => intros; trivial
  | cons w ws ih =>
    rintro b ⟨hw, h⟩ h₁ h₂
    simp only [List.length_cons] at h₂
    refine ⟨by rw [load32_store32_apart h₁ (by omega)]; exact hw, ?_⟩
    cases ws with
    | nil => trivial
    | cons w' ws =>
      simp only [List.length_cons] at h₂
      have hd : b + 4 - a = (b - a) + 4 := by grind
      have hn : (b + 4 - a).toNat = (b - a).toNat + 4 := by
        rw [hd, UInt32.toNat_add]
        exact Nat.mod_eq_of_lt (by simp; omega)
      exact ih h (by omega) (by simp only [List.length_cons]; omega)

theorem Holds.push {m : Ram} {a v : UInt32} {ws : List UInt32} (h : Holds m a ws)
    (hlen : ws.length < 2 ^ 29) : Holds (store32 m (a - 4) v) (a - 4) (v :: ws) := by
  have hd : a - (a - 4) = 4 := by grind
  have hs : a - 4 + 4 = a := by grind
  refine ⟨load32_store32_same _ _ _, ?_⟩
  rw [hs]
  exact h.frame (by rw [hd]; decide) (by rw [hd]; change 4 + _ ≤ _; omega)

theorem Holds.get {m : Ram} {ws : List UInt32} : ∀ {a : UInt32} {i : Nat} {w : UInt32},
    Holds m a ws → ws[i]? = some w → load32 m (a + UInt32.ofNat (4 * i)) = w := by
  induction ws with
  | nil => intro a i w _ hi; simp at hi
  | cons v ws ih =>
    intro a i w h hi
    cases i with
    | zero =>
      obtain rfl : v = w := by simpa using hi
      simpa using h.1
    | succ i =>
      have he : a + UInt32.ofNat (4 * (i + 1)) = a + 4 + UInt32.ofNat (4 * i) := by
        rw [Nat.mul_succ, UInt32.ofNat_add]
        change a + (UInt32.ofNat (4 * i) + 4) = _
        grind
      rw [he]
      exact ih h.2 (by simpa using hi)

end ContinuumOS.Lib.Stack
