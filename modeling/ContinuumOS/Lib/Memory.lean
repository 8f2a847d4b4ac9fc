import Mathlib.Tactic.Ring
import Mathlib.Data.UInt

/-! # Byte memory

A memory is a function from addresses to bytes. `store` replaces a range of
it; 32-bit words are stored little endian. The lemmas say what a read gives
inside and outside the range of a store. -/
namespace ContinuumOS.Lib.Memory

abbrev Mem := Nat → UInt8

/-- The memory with the `len` bytes from `a` on replaced by `f 0 .. f (len - 1)`. -/
def store (m : Mem) (a len : Nat) (f : Nat → UInt8) : Mem :=
  fun x => if a ≤ x ∧ x < a + len then f (x - a) else m x

/-- Byte `i` of a word, little endian. -/
def wordByte (v i : Nat) : UInt8 := UInt8.ofNat (v / 2 ^ (8 * i))

/-- Four bytes as a word, little endian. -/
def le32 (b₀ b₁ b₂ b₃ : UInt8) : Nat :=
  b₀.toNat + 2 ^ 8 * b₁.toNat + 2 ^ 16 * b₂.toNat + 2 ^ 24 * b₃.toNat

/-- The 32-bit word at `a`. -/
def readWord (m : Mem) (a : Nat) : Nat := le32 (m a) (m (a + 1)) (m (a + 2)) (m (a + 3))

/-- The memory with the 32-bit word `v` at `a`. -/
def writeWord (m : Mem) (a v : Nat) : Mem := store m a 4 (wordByte v)

/-- The memory with the byte `b` at `a`. -/
def writeByte (m : Mem) (a : Nat) (b : UInt8) : Mem := store m a 1 fun _ => b

theorem forall_byte {P : UInt8 → Prop} (h : ∀ n < 256, P (UInt8.ofNat n)) (b : UInt8) : P b := by
  have hb := h b.toNat b.toNat_lt
  rwa [UInt8.ofNat_toNat] at hb

theorem store_inside {m : Mem} {a len x : Nat} {f : Nat → UInt8} (h₁ : a ≤ x) (h₂ : x < a + len) :
    store m a len f x = f (x - a) := if_pos ⟨h₁, h₂⟩

theorem store_outside {m : Mem} {a len x : Nat} {f : Nat → UInt8} (h : x < a ∨ a + len ≤ x) :
    store m a len f x = m x := if_neg (by omega)

theorem writeWord_outside {m : Mem} {a v x : Nat} (h : x < a ∨ a + 4 ≤ x) :
    writeWord m a v x = m x := store_outside h

theorem writeByte_outside {m : Mem} {a x : Nat} {b : UInt8} (h : x ≠ a) :
    writeByte m a b x = m x := store_outside (by omega)

@[simp] theorem writeByte_same {m : Mem} {a : Nat} {b : UInt8} : writeByte m a b a = b :=
  store_inside (Nat.le_refl _) (by omega)

theorem toNat_wordByte (v i : Nat) : (wordByte v i).toNat = v / 2 ^ (8 * i) % 2 ^ 8 := by
  simp [wordByte, UInt8.toNat_ofNat']

theorem le32_wordByte {v : Nat} (h : v < 2 ^ 32) :
    le32 (wordByte v 0) (wordByte v 1) (wordByte v 2) (wordByte v 3) = v := by
  simp only [le32, toNat_wordByte]
  omega

theorem le32_lt (b₀ b₁ b₂ b₃ : UInt8) : le32 b₀ b₁ b₂ b₃ < 2 ^ 32 := by
  have h₀ := b₀.toNat_lt
  have h₁ := b₁.toNat_lt
  have h₂ := b₂.toNat_lt
  have h₃ := b₃.toNat_lt
  unfold le32
  omega

theorem readWord_congr {m m' : Mem} {a : Nat} (h : ∀ x, a ≤ x → x < a + 4 → m' x = m x) :
    readWord m' a = readWord m a := by
  unfold readWord
  rw [h a (by omega) (by omega), h (a + 1) (by omega) (by omega), h (a + 2) (by omega) (by omega),
    h (a + 3) (by omega) (by omega)]

theorem readWord_writeWord_same {m : Mem} {a v : Nat} (h : v < 2 ^ 32) :
    readWord (writeWord m a v) a = v := by
  have hb : ∀ i, i < 4 → writeWord m a v (a + i) = wordByte v i := by
    intro i hi
    rw [writeWord, store_inside (by omega) (by omega), Nat.add_sub_cancel_left]
  unfold readWord
  rw [show writeWord m a v a = wordByte v 0 from hb 0 (by omega), hb 1 (by omega), hb 2 (by omega),
    hb 3 (by omega)]
  exact le32_wordByte h

theorem readWord_writeWord_other {m : Mem} {a b v : Nat} (h : a + 4 ≤ b ∨ b + 4 ≤ a) :
    readWord (writeWord m b v) a = readWord m a :=
  readWord_congr fun _ _ _ => writeWord_outside (by omega)

theorem readWord_writeByte_other {m : Mem} {a b : Nat} {v : UInt8} (h : b < a ∨ a + 4 ≤ b) :
    readWord (writeByte m b v) a = readWord m a :=
  readWord_congr fun _ _ _ => writeByte_outside (by omega)

theorem readWord_lt (m : Mem) (a : Nat) : readWord m a < 2 ^ 32 := le32_lt _ _ _ _

theorem wordByte_readWord (m : Mem) (a : Nat) {i : Nat} (hi : i < 4) :
    wordByte (readWord m a) i = m (a + i) := by
  refine UInt8.toNat_inj.mp ?_
  rw [toNat_wordByte]
  simp only [readWord, le32]
  have h₀ := (m a).toNat_lt
  have h₁ := (m (a + 1)).toNat_lt
  have h₂ := (m (a + 2)).toNat_lt
  have h₃ := (m (a + 3)).toNat_lt
  obtain rfl | rfl | rfl | rfl : i = 0 ∨ i = 1 ∨ i = 2 ∨ i = 3 := by omega
  · change _ = (m a).toNat
    omega
  all_goals omega

end ContinuumOS.Lib.Memory
