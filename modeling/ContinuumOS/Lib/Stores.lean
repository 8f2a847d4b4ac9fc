import ContinuumOS.Lib.Memory

/-! # Recorded stores

A store names an array, a place in it and a byte. A list of stores is performed on
the arrays; it is safe when each place is inside its array. -/
namespace ContinuumOS.Lib.Stores
open ContinuumOS.Lib.Memory

/-- One store into one of the arrays `α`. -/
structure Store (α : Type) where
  array : α
  index : Nat
  value : UInt8

variable {α : Type}

def AllInside (size : α → Nat) (stores : List (Store α)) : Prop :=
  ∀ s ∈ stores, s.index < size s.array

/-- `bytes` into an array, one after the other from `start` on. -/
def copyTo (a : α) : Nat → List UInt8 → List (Store α)
  | _, [] => []
  | start, b :: bytes => ⟨a, start, b⟩ :: copyTo a (start + 1) bytes

/-- All stores are into one array. -/
def Into (a : α) (stores : List (Store α)) : Prop := ∀ s ∈ stores, s.array = a

section

variable {size : α → Nat} {a : α} {s : Store α} {stores stores' : List (Store α)}

theorem allInside_nil : AllInside size [] := fun _ h => nomatch h

theorem allInside_cons :
    AllInside size (s :: stores) ↔ s.index < size s.array ∧ AllInside size stores :=
  List.forall_mem_cons

theorem allInside_append :
    AllInside size (stores ++ stores') ↔ AllInside size stores ∧ AllInside size stores' :=
  List.forall_mem_append

theorem copyTo_append (a : α) (bytes bytes' : List UInt8) : ∀ start,
    copyTo a start (bytes ++ bytes') =
      copyTo a start bytes ++ copyTo a (start + bytes.length) bytes' := by
  induction bytes with
  | nil => exact fun start => rfl
  | cons b bytes ih =>
    intro start
    rw [List.cons_append, copyTo, ih, copyTo, List.cons_append, List.length_cons,
      Nat.add_right_comm, Nat.add_assoc]

theorem copyTo_inside (bytes : List UInt8) : ∀ start, start + bytes.length ≤ size a →
    AllInside size (copyTo a start bytes) := by
  induction bytes with
  | nil => exact fun start _ => allInside_nil
  | cons b bytes ih =>
    intro start h
    rw [List.length_cons] at h
    exact allInside_cons.mpr ⟨by dsimp only; omega, ih (start + 1) (by omega)⟩

theorem into_single (a : α) (place : Nat) (b : UInt8) : Into a [⟨a, place, b⟩] :=
  fun _ h => List.mem_singleton.mp h ▸ rfl

theorem into_copyTo (bytes : List UInt8) : ∀ start, Into a (copyTo a start bytes) := by
  induction bytes with
  | nil => exact fun start s h => nomatch h
  | cons b bytes ih =>
    intro start s h
    rcases List.mem_cons.mp h with rfl | h
    · rfl
    · exact ih (start + 1) s h

end

variable [DecidableEq α]

def perform (m : α → Mem) (s : Store α) : α → Mem :=
  Function.update m s.array (writeByte (m s.array) s.index s.value)

def performAll (m : α → Mem) (stores : List (Store α)) : α → Mem := stores.foldl perform m

section

variable {a : α} {m : α → Mem} {stores stores' : List (Store α)}

theorem performAll_append : performAll m (stores ++ stores') =
    performAll (performAll m stores) stores' := List.foldl_append

theorem performAll_cons (s : Store α) :
    performAll m (s :: stores) = performAll (perform m s) stores := rfl

theorem performAll_of_ne {b : α} (h : Into a stores) (hb : b ≠ a) :
    performAll m stores b = m b := by
  induction stores generalizing m with
  | nil => rfl
  | cons s stores ih =>
    obtain ⟨hs, hstores⟩ := List.forall_mem_cons.mp h
    rw [performAll_cons, ih hstores, perform, hs]
    exact Function.update_of_ne hb ..

theorem perform_same (s : Store α) :
    perform m s s.array = writeByte (m s.array) s.index s.value := Function.update_self ..

theorem performAll_single (m : α → Mem) (a : α) (place : Nat) (b : UInt8) :
    performAll m [⟨a, place, b⟩] a = writeByte (m a) place b := Function.update_self ..

theorem performAll_copyTo (bytes : List UInt8) : ∀ (m : α → Mem) (start x : Nat),
    performAll m (copyTo a start bytes) a x =
      if start ≤ x then bytes.getD (x - start) (m a x) else m a x := by
  induction bytes with
  | nil =>
    intro m start x
    rw [List.getD_nil, ite_self]
    rfl
  | cons b bytes ih =>
    intro m start x
    rw [copyTo, performAll_cons, ih, @perform_same α _ m ⟨a, start, b⟩]
    dsimp only
    by_cases hx : x = start
    · subst hx
      rw [if_neg (by omega), if_pos (Nat.le_refl x), Nat.sub_self, List.getD_cons_zero,
        writeByte_same]
    · rw [writeByte_outside hx]
      by_cases hle : start ≤ x
      · obtain ⟨k, rfl⟩ := Nat.exists_eq_add_of_lt (Nat.lt_of_le_of_ne hle (Ne.symm hx))
        rw [if_pos (by omega), if_pos hle, show start + k + 1 - start = k + 1 by omega,
          show start + k + 1 - (start + 1) = k by omega, List.getD_cons_succ]
      · rw [if_neg hle, if_neg (by omega)]

end

end ContinuumOS.Lib.Stores
