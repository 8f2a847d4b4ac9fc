import Mathlib.Data.List.Basic
import Mathlib.Tactic.Ring
import Mathlib.Data.List.InsertIdx

/-! # A text with a cursor

The lines of a text around a cursor. Every value is a text with a cursor in it,
so that the keys need no bounds. Joined with a separator between the lines, the
text is what stands before the cursor and what stands behind it, and the keys
change it at the cursor's offset. -/
namespace ContinuumOS.Lib.TextCursor

variable {α : Type}

/-- The lines above the cursor, the nearest first, the two parts of its line, and
the lines below. -/
structure Text (α : Type) where
  above : List (List α)
  left : List α
  right : List α
  below : List (List α)

namespace Text

variable (t : Text α)

/-- The line with the cursor. -/
def current : List α := t.left ++ t.right

def lines : List (List α) := t.above.reverse ++ t.current :: t.below

/-- The number of lines above the cursor. -/
def line : Nat := t.above.length

/-- The number of characters left of it. -/
def col : Nat := t.left.length

/-- The lines with `z` between them. -/
def joined (z : α) : List α := [z].intercalate t.lines

/-- How many characters of the joined text precede the cursor. -/
def offset : Nat := ((t.lines.take t.line).map fun l => l.length + 1).sum + t.col

/-! ## What keys do -/

def insert (c : α) : Text α := { t with left := t.left ++ [c] }

/-- What is right of the cursor becomes a line of its own. -/
def split : Text α := ⟨t.left :: t.above, [], t.right, t.below⟩

def erase : Text α := { t with left := t.left.dropLast }

/-- At most `room` characters of the line go behind the line above. -/
def join (room : List α → Nat) : Text α :=
  match t.above with
  | [] => t
  | p :: above => ⟨above, p, t.current.take (room p), t.below⟩

/-- The cursor goes to another line, at most behind its end. -/
def up : Text α :=
  match t.above with
  | [] => t
  | p :: above => ⟨above, p.take t.col, p.drop t.col, t.current :: t.below⟩

def down : Text α :=
  match t.below with
  | [] => t
  | n :: below => ⟨t.current :: t.above, n.take t.col, n.drop t.col, below⟩

def back : Text α := ⟨t.above, t.left.dropLast, t.left.drop (t.col - 1) ++ t.right, t.below⟩

/-- To the end of the line above. -/
def backUp : Text α :=
  match t.above with
  | [] => t
  | p :: above => ⟨above, p, [], t.current :: t.below⟩

def forth : Text α := ⟨t.above, t.left ++ t.right.take 1, t.right.drop 1, t.below⟩

/-- To the start of the line below. -/
def forthDown : Text α :=
  match t.below with
  | [] => t
  | n :: below => ⟨t.current :: t.above, [], n, below⟩

/-- An empty line below the current one, with the cursor in it. -/
def openLine : Text α := ⟨t.current :: t.above, [], [], t.below⟩

/-! ## Before and behind the cursor -/

def head (z : α) : List α := t.above.reverse.flatMap (· ++ [z]) ++ t.left

def tail (z : α) : List α := t.right ++ t.below.flatMap (z :: ·)

end Text

variable {z c : α} {t : Text α}

theorem intercalate_cons (l : List α) : ∀ ls : List (List α),
    [z].intercalate (l :: ls) = l ++ ls.flatMap (z :: ·)
  | [] => by rw [List.intercalate_singleton, List.flatMap_nil, List.append_nil]
  | m :: ls => by
    rw [List.intercalate_cons_cons, intercalate_cons m ls, List.flatMap_cons]
    simp only [List.append_assoc, List.cons_append, List.nil_append]

theorem intercalate_append (l : List α) (ms : List (List α)) : ∀ ls : List (List α),
    [z].intercalate (ls ++ l :: ms) = ls.flatMap (· ++ [z]) ++ [z].intercalate (l :: ms)
  | [] => rfl
  | k :: ls => by
    rw [List.cons_append, List.intercalate_cons_of_ne_nil (by simp), intercalate_append l ms ls,
      List.flatMap_cons]
    simp only [List.append_assoc]

/-- **The joined text is cut in two by the cursor.** -/
theorem joined_eq (z : α) (t : Text α) : t.joined z = t.head z ++ t.tail z := by
  rw [Text.joined, Text.lines, intercalate_append, intercalate_cons, Text.current, Text.head,
    Text.tail]
  simp only [List.append_assoc]

theorem sum_lengths (z : α) : ∀ ls : List (List α),
    (ls.map fun l => l.length + 1).sum = (ls.flatMap (· ++ [z])).length
  | [] => rfl
  | l :: ls => by
    rw [List.map_cons, List.sum_cons, sum_lengths z ls, List.flatMap_cons, List.length_append,
      List.length_append, List.length_singleton]

theorem offset_eq (z : α) (t : Text α) : t.offset = (t.head z).length := by
  have htake : t.lines.take t.line = t.above.reverse := by
    rw [Text.lines, Text.line, ← List.length_reverse, List.take_left]
  rw [Text.offset, htake, sum_lengths z, Text.head, List.length_append, Text.col]

/-! ## Keys that change the text -/

theorem insertIdx_append (c : α) (s : List α) : ∀ h : List α,
    (h ++ s).insertIdx h.length c = h ++ c :: s
  | [] => rfl
  | a :: h => by
    rw [List.length_cons, List.cons_append, List.insertIdx_succ_cons, insertIdx_append c s h]
    rfl

theorem eraseIdx_append (c : α) (s h : List α) : (h ++ [c] ++ s).eraseIdx h.length = h ++ s := by
  rw [List.append_assoc, List.eraseIdx_append_of_length_le (Nat.le_refl _), Nat.sub_self]
  rfl

theorem current_insert (c : α) (t : Text α) :
    (t.insert c).current = t.current.insertIdx t.col c := by
  rw [Text.current, Text.current, Text.col, insertIdx_append]
  simp only [Text.insert, List.append_assoc, List.singleton_append]

theorem current_erase (h : t.left ≠ []) :
    0 < t.col ∧ t.erase.current = t.current.eraseIdx (t.col - 1) := by
  obtain ⟨above, left, right, below⟩ := t
  obtain ⟨left, c, rfl⟩ := (List.eq_nil_or_concat' left).resolve_left h
  have hcol : Text.col ⟨above, left ++ [c], right, below⟩ = left.length + 1 := List.length_append
  refine ⟨by omega, ?_⟩
  rw [hcol, Nat.add_sub_cancel, Text.current, Text.current, eraseIdx_append]
  simp only [Text.erase, List.dropLast_concat]

/-- **A character comes in at the cursor.** -/
theorem joined_insert (z c : α) (t : Text α) :
    (t.insert c).joined z = (t.joined z).insertIdx t.offset c := by
  rw [joined_eq, joined_eq, offset_eq z, insertIdx_append]
  simp only [Text.insert, Text.head, Text.tail, List.append_assoc, List.singleton_append]

/-- **A new line is a separator at the cursor.** -/
theorem joined_split (z : α) (t : Text α) :
    t.split.joined z = (t.joined z).insertIdx t.offset z := by
  rw [joined_eq, joined_eq, offset_eq z, insertIdx_append]
  simp only [Text.split, Text.head, Text.tail, List.reverse_cons, List.flatMap_append,
    List.flatMap_singleton, List.append_assoc, List.append_nil, List.singleton_append]

/-- **The character before the cursor goes.** -/
theorem joined_erase (z : α) (h : t.left ≠ []) :
    0 < t.offset ∧ t.erase.joined z = (t.joined z).eraseIdx (t.offset - 1) := by
  obtain ⟨above, left, right, below⟩ := t
  obtain ⟨left, c, rfl⟩ := (List.eq_nil_or_concat' left).resolve_left h
  have hoff : Text.offset ⟨above, left ++ [c], right, below⟩ =
      (Text.head ⟨above, left, right, below⟩ z).length + 1 := by
    rw [offset_eq z]
    simp only [Text.head, List.length_append, List.length_singleton, Nat.add_assoc]
  refine ⟨by omega, ?_⟩
  have hsplit : Text.joined ⟨above, left ++ [c], right, below⟩ z =
      Text.head ⟨above, left, right, below⟩ z ++ [c] ++
        Text.tail ⟨above, left, right, below⟩ z := by
    rw [joined_eq]
    simp only [Text.head, Text.tail, List.append_assoc]
  rw [hoff, Nat.add_sub_cancel, hsplit, eraseIdx_append, joined_eq]
  simp only [Text.erase, Text.head, Text.tail, List.dropLast_concat]

/-- What a join leaves of the text: the separator goes, and what has no room. -/
theorem joined_join (z : α) {p : List α} {above : List (List α)} (ha : t.above = p :: above)
    (hl : t.left = []) (room : List α → Nat) :
    t.offset = (above.reverse.flatMap (· ++ [z]) ++ p).length + 1 ∧
    (t.join room).joined z =
      above.reverse.flatMap (· ++ [z]) ++ p ++
        (t.right.take (room p) ++ t.below.flatMap (z :: ·)) ∧
    t.joined z = above.reverse.flatMap (· ++ [z]) ++ p ++ [z] ++
        (t.right ++ t.below.flatMap (z :: ·)) := by
  obtain ⟨above', left, right, below⟩ := t
  obtain rfl : above' = p :: above := ha
  obtain rfl : left = [] := hl
  refine ⟨?_, ?_, ?_⟩
  · rw [offset_eq z]
    simp only [Text.head, List.reverse_cons, List.flatMap_append, List.flatMap_singleton,
      List.append_nil, List.length_append, List.length_singleton, Nat.add_assoc]
  · rw [joined_eq]
    simp only [Text.join, Text.head, Text.tail, Text.current, List.nil_append]
  · rw [joined_eq]
    simp only [Text.head, Text.tail, List.reverse_cons, List.flatMap_append,
      List.flatMap_singleton, List.append_nil, List.append_assoc]

/-- **A line with room above goes there**, and only the separator is lost. -/
theorem joined_join_of_room (z : α) {p : List α} {above : List (List α)}
    (ha : t.above = p :: above) (hl : t.left = []) {room : List α → Nat}
    (hroom : t.right.length ≤ room p) :
    0 < t.offset ∧ (t.join room).joined z = (t.joined z).eraseIdx (t.offset - 1) := by
  obtain ⟨h₁, h₂, h₃⟩ := joined_join z ha hl room
  refine ⟨by omega, ?_⟩
  rw [h₂, h₃, h₁, Nat.add_sub_cancel, eraseIdx_append, List.take_of_length_le hroom]

theorem length_joined_join (z : α) {p : List α} {above : List (List α)}
    (ha : t.above = p :: above) (hl : t.left = []) {room : List α → Nat}
    (hroom : room p < t.right.length) :
    ((t.join room).joined z).length + 1 < (t.joined z).length := by
  obtain ⟨-, h₂, h₃⟩ := joined_join z ha hl room
  rw [h₂, h₃]
  simp only [List.length_append, List.length_take, List.length_singleton]
  omega

/-- **An empty line at the end** is a separator there. -/
theorem joined_openLine (z : α) (h : t.below = []) : t.openLine.joined z = t.joined z ++ [z] := by
  obtain ⟨above, left, right, below⟩ := t
  obtain rfl : below = [] := h
  rw [joined_eq, joined_eq]
  simp only [Text.openLine, Text.head, Text.tail, Text.current, List.reverse_cons,
    List.flatMap_append, List.flatMap_singleton, List.flatMap_nil, List.append_nil,
    List.append_assoc]

/-! ## Keys that move the cursor -/

theorem lines_up (t : Text α) : t.up.lines = t.lines := by
  obtain ⟨above, left, right, below⟩ := t
  cases above with
  | nil => rfl
  | cons p above =>
    simp only [Text.up, Text.lines, Text.current, List.take_append_drop, List.reverse_cons,
      List.append_assoc, List.singleton_append]

theorem lines_down (t : Text α) : t.down.lines = t.lines := by
  obtain ⟨above, left, right, below⟩ := t
  cases below with
  | nil => rfl
  | cons n below =>
    simp only [Text.down, Text.lines, Text.current, List.take_append_drop, List.reverse_cons,
      List.append_assoc, List.singleton_append]

theorem lines_back (t : Text α) : t.back.lines = t.lines := by
  simp only [Text.back, Text.lines, Text.current, Text.col, List.dropLast_eq_take,
    ← List.append_assoc (t.left.take _), List.take_append_drop]

theorem lines_backUp (t : Text α) : t.backUp.lines = t.lines := by
  obtain ⟨above, left, right, below⟩ := t
  cases above with
  | nil => rfl
  | cons p above =>
    simp only [Text.backUp, Text.lines, Text.current, List.append_nil, List.reverse_cons,
      List.append_assoc, List.singleton_append]

theorem lines_forth (t : Text α) : t.forth.lines = t.lines := by
  simp only [Text.forth, Text.lines, Text.current, List.append_assoc, List.take_append_drop]

theorem lines_forthDown (t : Text α) : t.forthDown.lines = t.lines := by
  obtain ⟨above, left, right, below⟩ := t
  cases below with
  | nil => rfl
  | cons n below =>
    simp only [Text.forthDown, Text.lines, Text.current, List.nil_append, List.reverse_cons,
      List.append_assoc, List.singleton_append]

end ContinuumOS.Lib.TextCursor
