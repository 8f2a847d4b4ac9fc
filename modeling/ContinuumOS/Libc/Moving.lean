import ContinuumOS.Lib.Memory
import Mathlib.Data.UInt
import Mathlib.Logic.Function.Basic

/-! # The kernel's memory functions

`memcpy` of `libc/string/string.cpp`, byte by byte from the front as the
source copies. -/
namespace ContinuumOS.Libc.Memory
open ContinuumOS.Lib.Memory

/-- The copy loop from index `i` on, with `n` bytes to go. -/
def memcpyFrom (dst src : Nat) : Nat → Nat → Mem → Mem
  | _, 0, m => m
  | i, n + 1, m => memcpyFrom dst src (i + 1) n (writeByte m (dst + i) (m (src + i)))

def memcpy (dst src size : Nat) (m : Mem) : Mem := memcpyFrom dst src 0 size m

theorem memcpyFrom_outside {dst src : Nat} : ∀ {n i : Nat} {m : Mem} {x : Nat},
    x < dst + i ∨ dst + i + n ≤ x → memcpyFrom dst src i n m x = m x
  | 0, _, _, _, _ => rfl
  | n + 1, i, m, x, h => by
    rw [memcpyFrom, memcpyFrom_outside (by omega), writeByte_outside (by omega)]

theorem memcpy_outside {dst src n : Nat} {m : Mem} {x : Nat} (h : x < dst ∨ dst + n ≤ x) :
    memcpy dst src n m x = m x := memcpyFrom_outside (by omega)

theorem memcpyFrom_inside {dst src : Nat} : ∀ {n i : Nat} {m : Mem},
    src + i + n ≤ dst ∨ dst + i + n ≤ src → ∀ j, i ≤ j → j < i + n →
      memcpyFrom dst src i n m (dst + j) = m (src + j)
  | 0, _, _, _, _, _, _ => by omega
  | n + 1, i, m, h, j, h₁, h₂ => by
    rw [memcpyFrom]
    by_cases hj : j = i
    · -- the byte of this round stays
      rw [hj, memcpyFrom_outside (by omega), writeByte_same]
    · rw [memcpyFrom_inside (by omega) j (by omega) (by omega), writeByte_outside (by omega)]

theorem memcpy_inside {dst src n i : Nat} {m : Mem} (h : src + n ≤ dst ∨ dst + n ≤ src)
    (hi : i < n) : memcpy dst src n m (dst + i) = m (src + i) :=
  memcpyFrom_inside (by omega) i (Nat.zero_le _) (by omega)

end ContinuumOS.Libc.Memory

/-! # Moving memory

`memmove` of `libc/string/string.cpp` on the 32-bit address space. It copies
upwards to a lower address and downwards to a higher one, so the byte that is
read next was not written yet. -/
namespace ContinuumOS.Libc.Moving

/-- The bytes of the address space. -/
abbrev Memory := UInt32 → UInt8

/-- `dst[i] = src[i]` -/
def copyByte (dst src i : UInt32) (m : Memory) : Memory :=
  Function.update m (dst + i) (m (src + i))

/-- The loop of rising `i`, with `n` rounds to go. -/
def moveUp (dst src : UInt32) : Nat → UInt32 → Memory → Memory
  | 0, _, m => m
  | n + 1, i, m => moveUp dst src n (i + 1) (copyByte dst src i m)

/-- The loop of falling `i`, with `n` rounds to go. -/
def moveDown (dst src : UInt32) : Nat → UInt32 → Memory → Memory
  | 0, _, m => m
  | n + 1, i, m => moveDown dst src n (i - 1) (copyByte dst src (i - 1) m)

def memmove (dst src size : UInt32) (m : Memory) : UInt32 × Memory :=
  (dst, if dst < src then moveUp dst src size.toNat 0 m
    else moveDown dst src size.toNat size m)

/-- An address of `dst[lo]` to `dst[hi - 1]`. -/
def InRange (dst : UInt32) (lo hi : Nat) (a : UInt32) : Prop :=
  dst.toNat + lo ≤ a.toNat ∧ a.toNat < dst.toNat + hi

instance (dst : UInt32) (lo hi : Nat) (a : UInt32) : Decidable (InRange dst lo hi a) :=
  inferInstanceAs (Decidable (_ ∧ _))

/-- From `dst[lo]` to `dst[hi - 1]` the bytes of `src` stand as `m` holds them, and
elsewhere those of `m`. -/
def Moved (dst src : UInt32) (m : Memory) (lo hi : Nat) (m' : Memory) : Prop :=
  ∀ a, m' a = if InRange dst lo hi a then m (src + (a - dst)) else m a

section

variable {dst src size i : UInt32} {m m' : Memory} {lo hi lo' hi' : Nat}

theorem toNat_place (h : dst.toNat + size.toNat ≤ 2 ^ 32) (hin : i.toNat < size.toNat) :
    (dst + i).toNat = dst.toNat + i.toNat := by
  rw [UInt32.toNat_add, Nat.mod_eq_of_lt (by omega)]

theorem moved_none (m : Memory) (lo : Nat) : Moved dst src m lo lo m := by
  intro a
  rw [if_neg]
  rintro ⟨h₁, h₂⟩
  omega

/-- **One byte**: the byte that is read was not written yet, and the range widens by
the one that is. -/
theorem Moved.copyByte (h : Moved dst src m lo hi m') (hread : ¬ InRange dst lo hi (src + i))
    (hrange : ∀ a, InRange dst lo' hi' a ↔ InRange dst lo hi a ∨ a = dst + i) :
    Moved dst src m lo' hi' (copyByte dst src i m') := by
  intro a
  rw [Moving.copyByte, h (src + i), if_neg hread]
  by_cases ha : a = dst + i
  · rw [if_pos ((hrange a).mpr (.inr ha)), ha, Function.update_self, add_sub_cancel_left]
  · rw [Function.update_of_ne ha, h a]
    refine if_congr ?_ rfl rfl
    rw [hrange a, or_iff_left ha]

theorem eq_place_iff (h : dst.toNat + size.toNat ≤ 2 ^ 32) (hin : i.toNat < size.toNat)
    (a : UInt32) : a = dst + i ↔ a.toNat = dst.toNat + i.toNat := by
  rw [← UInt32.toNat_inj, toNat_place h hin]

theorem moveUp_moved (hd : dst.toNat + size.toNat ≤ 2 ^ 32) (hs : src.toNat + size.toNat ≤ 2 ^ 32)
    (hup : dst < src) : ∀ (n : Nat) (i : UInt32) (m' : Memory), i.toNat + n = size.toNat →
      Moved dst src m 0 i.toNat m' → Moved dst src m 0 size.toNat (moveUp dst src n i m') := by
  intro n
  induction n with
  | zero =>
    intro i m' hi h
    rw [Nat.add_zero] at hi
    exact hi ▸ h
  | succ n ih =>
    intro i m' hi h
    have hin : i.toNat < size.toNat := by omega
    have hbelow := UInt32.lt_iff_toNat_lt.mp hup
    have hread := toNat_place hs hin
    have hsize := size.toNat_lt
    have hnext : (i + 1).toNat = i.toNat + 1 := by
      rw [UInt32.toNat_add, UInt32.toNat_one, Nat.mod_eq_of_lt (by omega)]
    refine ih (i + 1) _ (by omega) (hnext ▸ h.copyByte ?_ fun a => ?_)
    · rintro ⟨-, hlt⟩
      omega
    · rw [eq_place_iff hd hin, InRange, InRange]
      omega

theorem moveDown_moved (hd : dst.toNat + size.toNat ≤ 2 ^ 32)
    (hs : src.toNat + size.toNat ≤ 2 ^ 32) (hdown : ¬ dst < src) :
    ∀ (n : Nat) (i : UInt32) (m' : Memory), i.toNat = n → n ≤ size.toNat →
      Moved dst src m i.toNat size.toNat m' →
        Moved dst src m 0 size.toNat (moveDown dst src n i m') := by
  intro n
  induction n with
  | zero =>
    intro i m' hi _ h
    rw [hi] at h
    exact h
  | succ n ih =>
    intro i m' hi hn h
    have hprev : (i - 1).toNat = n := by
      rw [UInt32.toNat_sub_of_le i 1 (UInt32.le_iff_toNat_le.mpr (by rw [UInt32.toNat_one]; omega)),
        hi, UInt32.toNat_one, Nat.add_sub_cancel]
    have hin : (i - 1).toNat < size.toNat := by omega
    have habove := Nat.le_of_not_lt fun hlt => hdown (UInt32.lt_iff_toNat_lt.mpr hlt)
    have hread := toNat_place hs hin
    refine ih (i - 1) _ hprev (by omega) (h.copyByte ?_ fun a => ?_)
    · rintro ⟨hle, -⟩
      omega
    · rw [eq_place_iff hd hin, InRange, InRange]
      omega

/-- **Memory is moved whatever the overlap**: the destination holds the bytes that the
source held before, and all other bytes stay. -/
theorem memmove_moves (m : Memory) (hd : dst.toNat + size.toNat ≤ 2 ^ 32)
    (hs : src.toNat + size.toNat ≤ 2 ^ 32) :
    (memmove dst src size m).1 = dst ∧
      (∀ i < size, (memmove dst src size m).2 (dst + i) = m (src + i)) ∧
      ∀ a, ¬ (dst.toNat ≤ a.toNat ∧ a.toNat < dst.toNat + size.toNat) →
        (memmove dst src size m).2 a = m a := by
  have hmoved : Moved dst src m 0 size.toNat (memmove dst src size m).2 := by
    rw [memmove]
    dsimp only
    split
    · rename_i hup
      exact moveUp_moved hd hs hup size.toNat 0 m (Nat.zero_add _) (moved_none m 0)
    · rename_i hdown
      exact moveDown_moved hd hs hdown size.toNat size m rfl (Nat.le_refl _) (moved_none m _)
  refine ⟨rfl, fun i hi => ?_, fun a ha => ?_⟩
  · have hplace := toNat_place hd (UInt32.lt_iff_toNat_lt.mp hi)
    have hlt := UInt32.lt_iff_toNat_lt.mp hi
    rw [hmoved (dst + i), if_pos ⟨by omega, by omega⟩, add_sub_cancel_left]
  · have hout : ¬ InRange dst 0 size.toNat a := ha
    rw [hmoved a, if_neg hout]

end

/-- Each address holds its low byte. -/
def lowBytes : Memory := fun a => a.toUInt8

/-- Room is made for a byte in front of 99 others. -/
theorem memmove_moves_overlap :
    (memmove 0x1001 0x1000 99 lowBytes).2 (0x1001 + 98) = lowBytes (0x1000 + 98) ∧
      (memmove 0x1001 0x1000 99 lowBytes).2 0x1000 = lowBytes 0x1000 := by
  obtain ⟨-, hinside, houtside⟩ := @memmove_moves 0x1001 0x1000 99 lowBytes (by decide) (by decide)
  exact ⟨hinside 98 (by decide), houtside 0x1000 (by decide)⟩

end ContinuumOS.Libc.Moving
