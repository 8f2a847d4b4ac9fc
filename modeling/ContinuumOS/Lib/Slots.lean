import Mathlib.Data.List.Basic

/-! # Tables of slots

A table whose entries are in use or free. What the table holds is the list of
the keys in use, up to order: filling a free slot adds a key, clearing a slot
takes one away, and a search for a free slot fails when every slot is taken. -/
namespace ContinuumOS.Lib.Slots
open scoped List

variable {α κ : Type} (used : α → Bool) (key : α → κ)

/-- The keys of the entries in use. -/
def taken (table : List α) : List κ := (table.filter used).map key

/-- The key of one entry, if it is in use. -/
def keyOf (x : α) : List κ := if used x then [key x] else []

variable {used : α → Bool} {key : α → κ} {table : List α} {i : Nat} {x y : α} {k : κ}

theorem keyOf_used (h : used x = true) : keyOf used key x = [key x] := if_pos h

theorem keyOf_free (h : used x = false) : keyOf used key x = [] := by rw [keyOf, h]; rfl

@[simp] theorem taken_nil : taken used key [] = [] := rfl

theorem taken_cons (a : α) (table : List α) :
    taken used key (a :: table) = keyOf used key a ++ taken used key table := by
  cases h : used a with
  | true => rw [keyOf_used h, taken, List.filter_cons_of_pos h]; rfl
  | false => rw [keyOf_free h, taken, List.filter_cons_of_neg (by rw [h]; decide)]; rfl

theorem mem_taken : k ∈ taken used key table ↔ ∃ a ∈ table, used a = true ∧ key a = k := by
  simp [taken, and_assoc]

theorem taken_append (l l' : List α) :
    taken used key (l ++ l') = taken used key l ++ taken used key l' := by
  rw [taken, List.filter_append, List.map_append]
  rfl

theorem taken_set (used : α → Bool) (key : α → κ) (h : table[i]? = some x) (y : α) :
    keyOf used key x ++ taken used key (table.set i y) ~
      keyOf used key y ++ taken used key table := by
  induction table generalizing i with
  | nil => cases h
  | cons a table ih =>
    cases i with
    | zero =>
      obtain rfl : a = x := Option.some.inj h
      rw [List.set_cons_zero, taken_cons, taken_cons]
      exact List.perm_append_comm_assoc _ _ _
    | succ i =>
      rw [List.set_cons_succ, taken_cons, taken_cons]
      calc keyOf used key x ++ (keyOf used key a ++ taken used key (table.set i y))
        _ ~ keyOf used key a ++ (keyOf used key x ++ taken used key (table.set i y)) :=
          List.perm_append_comm_assoc _ _ _
        _ ~ keyOf used key a ++ (keyOf used key y ++ taken used key table) := (ih h).append_left _
        _ ~ keyOf used key y ++ (keyOf used key a ++ taken used key table) :=
          List.perm_append_comm_assoc _ _ _

theorem getElem?_set_cases {j : Nat} (h : (table.set i y)[j]? = some x) :
    i = j ∧ x = y ∨ table[j]? = some x := by
  rw [List.getElem?_set] at h
  split at h
  · rename_i hij
    exact .inl ⟨hij, (Option.some.inj (Option.ite_none_right_eq_some.mp h).2).symm⟩
  · exact .inr h

theorem taken_fill (h : table[i]? = some x) (hx : used x = false) (hy : used y = true) :
    taken used key (table.set i y) ~ key y :: taken used key table := by
  have hset := taken_set used key h y
  rwa [keyOf_free hx, keyOf_used hy] at hset

theorem taken_clear (h : table[i]? = some x) (hx : used x = true) (hy : used y = false) :
    key x :: taken used key (table.set i y) ~ taken used key table := by
  have hset := taken_set used key h y
  rwa [keyOf_used hx, keyOf_free hy] at hset

theorem taken_keep (h : table[i]? = some x) (hkey : keyOf used key y = keyOf used key x) :
    taken used key (table.set i y) ~ taken used key table := by
  have hset := taken_set used key h y
  rw [hkey] at hset
  exact (List.perm_append_left_iff _).mp hset

theorem findIdx_free_eq_none :
    table.findIdx? (fun a => !used a) = none ↔ (taken used key table).length = table.length := by
  rw [List.findIdx?_eq_none_iff, taken, List.length_map, List.length_filter_eq_length_iff]
  simp

theorem exists_findIdx [BEq κ] [LawfulBEq κ] (h : k ∈ taken used key table) :
    ∃ i a, table.findIdx? (fun a => used a && key a == k) = some i ∧ table[i]? = some a ∧
      used a = true ∧ key a = k := by
  obtain ⟨a, ha, hused, hkey⟩ := mem_taken.mp h
  cases hfind : table.findIdx? (fun a => used a && key a == k) with
  | none =>
    have hnot := List.findIdx?_eq_none_iff.mp hfind a ha
    rw [hused, hkey, beq_self_eq_true] at hnot
    cases hnot
  | some i =>
    obtain ⟨hi, hp, -⟩ := List.findIdx?_eq_some_iff_getElem.mp hfind
    rw [Bool.and_eq_true, beq_iff_eq] at hp
    exact ⟨i, table[i], rfl, List.getElem?_eq_getElem hi, hp⟩

end ContinuumOS.Lib.Slots
