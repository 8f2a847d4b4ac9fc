import ContinuumOS.Lib.Blocks
import ContinuumOS.Lib.Memory
import Mathlib.Logic.Function.Basic

/-! # Files with cursors

Any number of cursors move over shared sequences: a read gives what lies from the
cursor on, a write overwrites and extends there, and both move their own cursor
behind it. In memory a sequence lies at an address. -/
namespace ContinuumOS.Lib.Cursors
open ContinuumOS.Lib.Blocks ContinuumOS.Lib.Memory

variable {ι β : Type} [DecidableEq ι]

/-- Sequences, and the cursors over them; a cursor may be closed. -/
structure Files (ι β : Type) where
  bytes : ι → List β
  cursors : List (Option (ι × Nat))

namespace Files

/-- The file of a cursor, and its position. -/
def cursor (s : Files ι β) (n : Nat) : Option (ι × Nat) := (s.cursors[n]?).join

def move (s : Files ι β) (n : Nat) (i : ι) (position : Nat) : Files ι β :=
  { s with cursors := s.cursors.set n (some (i, position)) }

def read (s : Files ι β) (n size : Nat) : Option (List β) × Files ι β :=
  match s.cursor n with
  | none => (none, s)
  | some (i, c) =>
    let got := ((s.bytes i).drop c).take size
    (some got, s.move n i (c + got.length))

def write (s : Files ι β) (n : Nat) (src : List β) : Option Nat × Files ι β :=
  match s.cursor n with
  | none => (none, s)
  | some (i, c) =>
    (some src.length,
      { s with bytes := Function.update s.bytes i (overwrite (s.bytes i) c src) }.move n i
        (c + src.length))

/-- Does the cursor exist? -/
def seek (s : Files ι β) (n position : Nat) : Bool × Files ι β :=
  match s.cursor n with
  | none => (false, s)
  | some (i, _) => (true, s.move n i position)

end Files

/-! ## Sequences in memory -/

/-- The bytes from an address on. -/
def bytesAt (m : Mem) (d k : Nat) : List UInt8 := (List.range k).map fun i => m (d + i)

variable {m m' : Mem} {d d' k p i : Nat}

@[simp] theorem length_bytesAt (m : Mem) (d k : Nat) : (bytesAt m d k).length = k := by
  rw [bytesAt, List.length_map, List.length_range]

theorem getElem?_bytesAt (m : Mem) (d : Nat) (h : i < k) :
    (bytesAt m d k)[i]? = some (m (d + i)) := by
  rw [bytesAt, List.getElem?_map, List.getElem?_range h]
  rfl

theorem bytesAt_congr (h : ∀ i < k, m' (d' + i) = m (d + i)) : bytesAt m' d' k = bytesAt m d k :=
  List.map_congr_left fun i hi => h i (List.mem_range.mp hi)

theorem bytesAt_drop_take (m : Mem) (d : Nat) {size : Nat} (h : p ≤ k) :
    ((bytesAt m d k).drop p).take size = bytesAt m (d + p) (min size (k - p)) := by
  apply List.ext_getElem?
  intro i
  by_cases hi : i < min size (k - p)
  · rw [getElem?_bytesAt _ _ hi, List.getElem?_take_of_lt (by omega), List.getElem?_drop,
      getElem?_bytesAt _ _ (by omega), Nat.add_assoc]
  · rw [List.getElem?_eq_none (by simp; omega), List.getElem?_eq_none (by simp; omega)]

theorem bytesAt_store {src : List UInt8} (h : p ≤ k) (hsame : ∀ i < k, m' (d' + i) = m (d + i)) :
    bytesAt (store m' (d' + p) src.length fun i => src.getD i 0) d' (max k (p + src.length)) =
      overwrite (bytesAt m d k) p src := by
  apply List.ext_getElem?
  intro i
  rw [getElem?_overwrite (by rwa [length_bytesAt])]
  by_cases hi : i < max k (p + src.length)
  · rw [getElem?_bytesAt _ _ hi]
    by_cases hin : p ≤ i ∧ i < p + src.length
    · rw [if_neg (by omega), if_pos hin.2, store_inside (by omega) (by omega),
        List.getElem?_eq_getElem (by omega : i - p < src.length), List.getD_eq_getElem?_getD,
        show d' + i - (d' + p) = i - p by omega,
        List.getElem?_eq_getElem (by omega : i - p < src.length)]
      rfl
    · have hold : i < k := by omega
      rw [store_outside (by omega), hsame i hold]
      split
      · rw [getElem?_bytesAt _ _ hold]
      · rw [if_neg (by omega), getElem?_bytesAt _ _ hold]
  · rw [List.getElem?_eq_none (by rw [length_bytesAt]; omega), if_neg (by omega), if_neg (by omega),
      List.getElem?_eq_none (by rw [length_bytesAt]; omega)]

end ContinuumOS.Lib.Cursors
