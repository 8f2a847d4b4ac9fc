import ContinuumOS.TextEditor.Sessions

/-! # The buffer as a text

The lines joined by newlines, and the cursor as an offset into them. A key
inserts a character there, takes out the one before, or appends an empty line,
unless Backspace joins lines that have no room in one row. -/
namespace ContinuumOS.TextEditor.AsText
open ContinuumOS.Lib.TextCursor ContinuumOS.Libc.String
open ContinuumOS.TextEditor.Model ContinuumOS.TextEditor.View ContinuumOS.TextEditor.Keys
open ContinuumOS.TextEditor.Opening ContinuumOS.TextEditor.Sessions

def textLines (e : Editor) : List CStr :=
  (List.range e.lineCount.toNat).map fun i => rowText (e.buffer i)

/-- The lines with newlines between them. -/
def joinedText (e : Editor) : CStr := [newline].intercalate (textLines e)

/-- How many characters of it precede the cursor. -/
def cursorOffset (e : Editor) : Nat :=
  (((textLines e).take e.cursorLine.toNat).map fun l => l.length + 1).sum + e.cursorCol.toNat

/-- What a key may do to the text. -/
inductive ActsAsText (ke : KeyboardEvent) (e e' : Editor) : Prop
  | unchanged : joinedText e' = joinedText e → ActsAsText ke e e'
  | inserted (c : UInt8) : ke.enter = true ∧ c = newline ∨ c = kbToAscii ke →
      joinedText e' = (joinedText e).insertIdx (cursorOffset e) c → ActsAsText ke e e'
  | deleted : ke.backspace = true → 0 < cursorOffset e →
      joinedText e' = (joinedText e).eraseIdx (cursorOffset e - 1) → ActsAsText ke e e'
  | appended : ke.scancode = keyDownArrow → e.cursorLine = e.lineCount - 1 →
      joinedText e' = joinedText e ++ [newline] → ActsAsText ke e e'

/-- Backspace at the start of a line that has no room behind the one above. -/
def Overflows (e : Editor) (ke : KeyboardEvent) : Prop :=
  ke.release = false ∧ ke.backspace = true ∧ e.cursorCol = 0 ∧ 0 < e.cursorLine ∧
    lineLength - 1 < (rowText (e.buffer (e.cursorLine - 1).toNat)).length +
      (rowText (e.buffer e.cursorLine.toNat)).length

/-- An editor after some session. -/
def Reached (e : Editor) : Prop := ∃ e₀ path calls lineBuf keys,
  session e₀ path calls lineBuf keys = some e

section

variable {e e' : Editor} {t t' : Text UInt8} {ke : KeyboardEvent}

theorem Reached.ready (h : Reached e) (ha : e.active = true) : ∃ t, Ready e t := by
  obtain ⟨e₀, path, calls, lineBuf, keys, hs⟩ := h
  obtain ⟨e₁, h₁, hshows, hactive, hin, -⟩ := start_shows e₀ path calls lineBuf
  rw [session, h₁] at hs
  exact run_ready keys ⟨hshows, hin, hactive⟩ hs ha

theorem textLines_eq {ls : List CStr} (h : HasLines e ls) : textLines e = ls := by
  refine List.ext_getElem? fun i => ?_
  have hlen : e.lineCount.toNat = ls.length := by rw [h.count, Int.toNat_natCast]
  rw [textLines, hlen, List.getElem?_map]
  by_cases hi : i < ls.length
  · rw [List.getElem?_range hi, Option.map_some, List.getElem?_eq_getElem hi,
      rowText_eq (h.get hi)]
  · rw [List.getElem?_eq_none (by rw [List.length_range]; omega),
      List.getElem?_eq_none (by omega), Option.map_none]

theorem joinedText_eq (h : Shows e t) : joinedText e = t.joined newline := by
  rw [joinedText, textLines_eq h.toHasLines, Text.joined]

theorem cursorOffset_eq (h : Shows e t) : cursorOffset e = t.offset := by
  rw [cursorOffset, textLines_eq h.toHasLines, h.line, h.col, Int.toNat_natCast,
    Int.toNat_natCast, Text.offset]

/-! ## Keys on the joined text -/

theorem joined_congr (h : t'.lines = t.lines) : t'.joined newline = t.joined newline := by
  rw [Text.joined, h, Text.joined]

/-- The line above the cursor and its line have no room in one row. -/
def NoRoom (t : Text UInt8) : Prop :=
  t.left = [] ∧ ∃ p above, t.above = p :: above ∧ room p < t.right.length

theorem backspaced_joined (h : ¬ NoRoom t) :
    (backspaced t).joined newline = t.joined newline ∨
    0 < t.offset ∧ (backspaced t).joined newline = (t.joined newline).eraseIdx (t.offset - 1) := by
  rw [backspaced]
  by_cases hl : t.left ≠ []
  · rw [if_pos hl]
    exact .inr (joined_erase newline hl)
  · rw [if_neg hl]
    have hl := not_not.mp hl
    cases ha : t.above with
    | nil =>
      rw [Text.join, ha]
      exact .inl rfl
    | cons p above =>
      refine .inr (joined_join_of_room newline ha hl (Nat.le_of_not_lt fun hroom => ?_))
      exact h ⟨hl, p, above, ha, hroom⟩

theorem lowerLine_joined (t : Text UInt8) :
    (lowerLine t).joined newline = t.joined newline ∨
    t.below = [] ∧ (lowerLine t).joined newline = t.joined newline ++ [newline] := by
  rw [lowerLine]
  by_cases hb : t.below ≠ []
  · rw [if_pos hb]
    exact .inl (joined_congr (lines_down t))
  · rw [if_neg hb]
    split
    · exact .inr ⟨not_not.mp hb, joined_openLine newline (not_not.mp hb)⟩
    · exact .inl rfl

theorem arrow_joined (sc : UInt8) (t : Text UInt8) :
    (arrow sc t).joined newline = t.joined newline ∨
    sc = keyDownArrow ∧ t.below = [] ∧
      (arrow sc t).joined newline = t.joined newline ++ [newline] := by
  rw [arrow]
  split
  · exact .inl (joined_congr (lines_up t))
  split
  · rename_i hd
    exact (lowerLine_joined t).imp_right fun h => ⟨hd, h⟩
  split
  · rw [leftward]
    split
    · exact .inl (joined_congr (lines_back t))
    · exact .inl (joined_congr (lines_backUp t))
  split
  · rw [rightward]
    split
    · exact .inl (joined_congr (lines_forth t))
    · exact .inl (joined_congr (lines_forthDown t))
  · exact .inl rfl

/-! ## Keys on the buffer -/

/-- A key that is no command acts on the text, unless it is Backspace and there is
no room. -/
theorem press_acts (h : Shows e t) (h' : Shows e' (press ke t))
    (hroom : ke.release = false → ke.backspace = true → ¬ NoRoom t) : ActsAsText ke e e' := by
  have hold := joinedText_eq h
  have hnew := joinedText_eq h'
  have hoff := cursorOffset_eq h
  rw [press] at hnew
  by_cases hr : ke.release = true
  · rw [if_pos hr] at hnew
    exact .unchanged (hnew.trans hold.symm)
  rw [if_neg hr] at hnew
  by_cases hb : ke.backspace = true
  · rw [if_pos hb] at hnew
    rcases backspaced_joined (hroom (Bool.eq_false_of_not_eq_true hr) hb) with hj | ⟨hpos, hj⟩
    · exact .unchanged (by rw [hnew, hold, hj])
    · exact .deleted hb (by rwa [hoff]) (by rw [hnew, hold, hoff, hj])
  rw [if_neg hb] at hnew
  by_cases he : ke.enter = true
  · rw [if_pos he, entered] at hnew
    split at hnew
    · refine .inserted newline (.inl ⟨he, rfl⟩) ?_
      rw [hnew, hold, hoff, joined_split]
    · exact .unchanged (hnew.trans hold.symm)
  rw [if_neg he] at hnew
  by_cases ha : Editor.isArrow ke.scancode = true
  · rw [if_pos ha] at hnew
    rcases arrow_joined ke.scancode t with hj | ⟨hd, hlast, hj⟩
    · exact .unchanged (by rw [hnew, hold, hj])
    · exact .appended hd (h.last hlast) (by rw [hnew, hold, hj])
  rw [if_neg ha] at hnew
  by_cases hc : kbToAscii ke ≠ 0
  · rw [if_pos hc, typed] at hnew
    split at hnew
    · refine .inserted (kbToAscii ke) (.inr rfl) ?_
      rw [hnew, hold, hoff, joined_insert]
    · exact .unchanged (hnew.trans hold.symm)
  · rw [if_neg hc] at hnew
    exact .unchanged (hnew.trans hold.symm)

theorem ActsAsText.length_le (h : ActsAsText ke e e') :
    (joinedText e).length ≤ (joinedText e').length + 1 := by
  cases h with
  | unchanged hj =>
    rw [hj]
    exact Nat.le_succ _
  | inserted c _ hj =>
    rw [hj, List.length_insertIdx]
    split <;> omega
  | deleted _ _ hj =>
    rw [hj, List.length_eraseIdx]
    split <;> omega
  | appended _ _ hj =>
    rw [hj, List.length_append]
    omega

theorem overflows_iff (h : Shows e t) : Overflows e ke ↔
    ke.release = false ∧ ke.backspace = true ∧ NoRoom t := by
  refine and_congr_right fun _ => and_congr_right fun _ => ?_
  have hcur := rowText_eq h.current
  have hlen := length_current t
  have hcol : e.cursorCol = 0 ↔ t.left = [] := by
    rw [h.col, Int.natCast_eq_zero]
    exact List.length_eq_zero_iff
  rw [NoRoom, hcol]
  refine and_congr_right fun hl => ?_
  have hright : t.current.length = t.right.length := by
    rw [Text.current, hl, List.nil_append]
  cases ha : t.above with
  | nil =>
    exact ⟨fun hs => absurd hs.1 (h.first ha), fun hs => by
      obtain ⟨p, above, hn, -⟩ := hs
      exact absurd hn (List.cons_ne_nil _ _).symm⟩
  | cons p above =>
    obtain ⟨hline, hprev, -⟩ := h.previous ha
    have hpred : (e.cursorLine - 1).toNat = above.length := by omega
    have hlt : p.length < lineLength := hprev.length_lt
    rw [hpred, rowText_eq hprev, h.line, Int.toNat_natCast, hcur, hright]
    have hpos : 0 < ((t.line : Nat) : Int) := by
      rw [← h.line]
      omega
    refine ⟨fun hs => ⟨p, above, rfl, ?_⟩, fun hs => ⟨hpos, ?_⟩⟩
    · rw [room]
      omega
    · obtain ⟨p', above', hc, hroom⟩ := hs
      obtain ⟨rfl, -⟩ := List.cons.inj hc
      rw [room] at hroom
      omega

theorem press_loses (h : Shows e t) (h' : Shows e' (press ke t)) (hr : ke.release = false)
    (hb : ke.backspace = true) (hn : NoRoom t) : ¬ ActsAsText ke e e' := by
  obtain ⟨hl, p, above, ha, hroom⟩ := hn
  have hnew := joinedText_eq h'
  rw [press, if_neg (by rw [hr]; exact Bool.false_ne_true), if_pos hb, backspaced,
    if_neg (not_not.mpr hl)] at hnew
  have hlost := length_joined_join newline ha hl hroom
  rw [← hnew, ← joinedText_eq h] at hlost
  exact fun hacts => Nat.not_lt.mpr hacts.length_le hlost

/-- **Keys act on the text as text**, as long as Backspace does not join lines that
have no room in one row. -/
theorem handleKey_acts (hr : Reached e) (ha : e.active = true) (hc : ¬ IsCommand e ke)
    (calls : SaveCalls) :
    (∃ e', e.handleKey ke calls = some (e', none) ∧ ActsAsText ke e e') ↔ ¬ Overflows e ke := by
  obtain ⟨t, ht⟩ := hr.ready ha
  obtain ⟨e', he', ht'⟩ := handleKey_press ht hc calls
  rw [overflows_iff ht.toShows]
  refine ⟨fun hacts hover => ?_, fun hover => ?_⟩
  · obtain ⟨e'', he'', hacts⟩ := hacts
    rw [he', Option.some_inj, Prod.mk.injEq] at he''
    obtain ⟨rfl, -⟩ := he''
    obtain ⟨hrel, hb, hn⟩ := hover
    exact press_loses ht.toShows ht'.toShows hrel hb hn hacts
  · exact ⟨e', he', press_acts ht.toShows ht'.toShows fun hrel hb hn => hover ⟨hrel, hb, hn⟩⟩

end

/-! ## Runs -/

def charKey (sc : UInt8) : KeyboardEvent := ⟨sc, false, false, false, false, false⟩

def backspaceKey : KeyboardEvent := ⟨0x0E, false, false, false, false, true⟩

theorem started_second {content a b : CStr} {below : List CStr}
    (h : startLines (ascii "/f") ⟨vfsSuccess, [content], 0⟩ = a :: b :: below) :
    ∃ e, session blank (some (ascii "/f")) ⟨vfsSuccess, [content], 0⟩ (fun _ => 0)
        [(charKey keyDownArrow, ⟨true, 0, 0, 0, 0⟩)] = some e ∧
      Ready e ⟨[a], [], b, below⟩ := by
  obtain ⟨e₀, he₀, hshows, ha, hin, -⟩ := start_shows blank (some (ascii "/f"))
    ⟨vfsSuccess, [content], 0⟩ (fun _ => 0)
  have hpath : ((some (ascii "/f")).getD []).take (maxPath - 1) = ascii "/f" := by decide
  have hdown : press (charKey keyDownArrow) (atStart (a :: b :: below)) = ⟨[a], [], b, below⟩ :=
    rfl
  have hc : ¬ IsCommand e₀ (charKey keyDownArrow) := fun h => Bool.false_ne_true h.1.2.2
  rw [hpath, h] at hshows
  obtain ⟨e, he, hready⟩ := handleKey_press ⟨hshows, hin, ha⟩ hc ⟨true, 0, 0, 0, 0⟩
  rw [hdown] at hready
  refine ⟨e, ?_, hready⟩
  rw [session, he₀]
  exact run_cons ha he []

/-- Backspace at the start of the second of three lines joins it to the first. -/
theorem handleKey_acts_example :
    ∃ e e', session blank (some (ascii "/f")) ⟨vfsSuccess, [ascii "ab\ncd\nef"], 0⟩ (fun _ => 0)
        [(charKey keyDownArrow, ⟨true, 0, 0, 0, 0⟩)] = some e ∧
      e.handleKey backspaceKey ⟨true, 0, 0, 0, 0⟩ = some (e', none) ∧
      ActsAsText backspaceKey e e' := by
  have hlines : startLines (ascii "/f") ⟨vfsSuccess, [ascii "ab\ncd\nef"], 0⟩ =
      [ascii "ab", ascii "cd", ascii "ef"] := by decide +kernel
  obtain ⟨e, hs, hready⟩ := started_second hlines
  have hc : ¬ IsCommand e backspaceKey := fun h => Bool.false_ne_true h.1.2.2
  have ho : ¬ Overflows e backspaceKey := by
    rw [overflows_iff hready.toShows]
    rintro ⟨-, -, -, p, above, habove, hroom⟩
    obtain ⟨rfl, -⟩ := List.cons.inj habove
    revert hroom
    decide
  obtain ⟨e', he', hacts⟩ :=
    (handleKey_acts ⟨_, _, _, _, _, hs⟩ hready.active hc ⟨true, 0, 0, 0, 0⟩).mpr ho
  exact ⟨e, e', hs, he', hacts⟩

/-- Two lines of a hundred characters. -/
def twoLines : CStr := List.replicate 100 97 ++ [newline] ++ List.replicate 100 98

/-- Down and Backspace: of the second line, 27 characters stay. -/
theorem backspace_loses :
    ∃ e e', session blank (some (ascii "/f")) ⟨vfsSuccess, [twoLines], 0⟩ (fun _ => 0)
        [(charKey keyDownArrow, ⟨true, 0, 0, 0, 0⟩)] = some e ∧ e.active = true ∧
      e.handleKey backspaceKey ⟨true, 0, 0, 0, 0⟩ = some (e', none) ∧
      ¬ ActsAsText backspaceKey e e' := by
  have hlines : startLines (ascii "/f") ⟨vfsSuccess, [twoLines], 0⟩ =
      [List.replicate 100 97, List.replicate 100 98] := by decide +kernel
  obtain ⟨e, hs, hready⟩ := started_second hlines
  have hc : ¬ IsCommand e backspaceKey := fun h => Bool.false_ne_true h.1.2.2
  obtain ⟨e', he', hready'⟩ := handleKey_press hready hc ⟨true, 0, 0, 0, 0⟩
  refine ⟨e, e', hs, hready.active, he', press_loses hready.toShows hready'.toShows rfl rfl ?_⟩
  refine ⟨rfl, _, [], rfl, ?_⟩
  rw [room, List.length_replicate, List.length_replicate]
  decide

end ContinuumOS.TextEditor.AsText
