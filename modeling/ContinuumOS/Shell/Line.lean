import ContinuumOS.Shell.Model

/-! # The line as a text

What is typed is a text with a cursor in it. The array of the shell holds it, and
each key does to the array what it does to the text. -/
namespace ContinuumOS.Shell.Line
open ContinuumOS.Lib.Terminated ContinuumOS.Libc.String ContinuumOS.Keyboard.Model
open ContinuumOS.Shell.Model
open ContinuumOS.TextEditor.Model (kbToAscii)

/-- A text and the number of characters in front of the cursor. -/
structure Line where
  text : CStr
  cursor : Nat
  deriving DecidableEq, Repr

namespace Line

variable (l : Line)

def empty : Line := ⟨[], 0⟩

/-- There is room for 255 characters. -/
def insert (c : UInt8) : Line :=
  if l.text.length < bufferSize - 1 then ⟨l.text.insertIdx l.cursor c, l.cursor + 1⟩ else l

def erase : Line :=
  if 0 < l.cursor then ⟨l.text.eraseIdx (l.cursor - 1), l.cursor - 1⟩ else l

def left : Line := { l with cursor := l.cursor - 1 }

def right : Line := if l.cursor < l.text.length then { l with cursor := l.cursor + 1 } else l

/-- A text with the cursor at its end. -/
def recalled (t : CStr) : Line := ⟨t, t.length⟩

/-- A key, with the text that the history returns for it: the line, and the text that is
handed to a command. -/
def handleKey (ke : KeyboardEvent) (entry : Option CStr) : Line × Option CStr :=
  if ke.release then (l, none)
  else if ke.upArrow then ((entry.map recalled).getD l, none)
  else if ke.downArrow then (recalled (entry.getD []), none)
  else if ke.leftArrow then (l.left, none)
  else if ke.rightArrow then (l.right, none)
  else if ke.backspace then (l.erase, none)
  else if ke.enter then (empty, some l.text)
  else if kbToAscii ke.toKeyboardEvent ≠ 0 then (l.insert (kbToAscii ke.toKeyboardEvent), none)
  else (l, none)

/-- Key after key: the line, and the texts that were handed to commands. -/
def run : List (KeyboardEvent × Option CStr) → Line → Line × List CStr
  | [], l => (l, [])
  | (ke, entry) :: keys, l =>
    let (l, command) := l.handleKey ke entry
    let (l, commands) := run keys l
    (l, command.toList ++ commands)

end Line

/-- The text in a row, as far as there is room for it. -/
def rowText (r : Row) : CStr := ((List.range (bufferSize - 1)).map r).takeWhile (· ≠ 0)

/-- The text of the entry that the history returns for a key. -/
def returned (p : Press) (s : ShellState) : Option CStr :=
  if p.key.upArrow then (s.historyPrev.2.deref p.outside s.historyPrev.1).map rowText
  else if p.key.downArrow then (s.historyNext.2.deref p.outside s.historyNext.1).map rowText
  else none

/-- The keys that come while input is enabled, with what the history returns for them. -/
def told : List Press → ShellState → List (KeyboardEvent × Option CStr)
  | [], _ => []
  | p :: keys, s =>
    (if s.inputEnabled then [(p.key, returned p s)] else []) ++
      ((s.handleKey p).map fun q => told keys q.1).getD []

/-- The shell has the line. -/
structure HasLine (s : ShellState) (l : Line) : Prop where
  buffer : Holds 0 bufferSize s.buffer l.text
  length : s.length = l.text.length
  cursor : s.cursor = l.cursor
  cursor_le : l.cursor ≤ l.text.length

/-- The shell with the text of a row as its line. -/
def shown (s : ShellState) (r : Row) : ShellState :=
  { s with
    buffer := safeStrncpy s.buffer r, length := (rowText r).length
    cursor := (rowText r).length }

/-- The shell with an empty line. -/
def cleared (s : ShellState) : ShellState :=
  { s with buffer := Function.update s.buffer 0 0, length := 0, cursor := 0 }

/-- The shell after Enter. -/
def entered (p : Press) (s : ShellState) : ShellState :=
  { cleared (s.historyAdd s.buffer) with
    inputEnabled := p.leaves, promptVisible := p.leaves, historyNav := -1 }

/-- Nothing is added to the history. -/
structure SameHistory (s s' : ShellState) : Prop where
  history : s'.history = s.history
  count : s'.historyCount = s.historyCount

/-- A key hands nothing to a command and leaves the history, or it is Enter. -/
def Recorded (p : Press) (s s' : ShellState) (command : Option Row) : Prop :=
  command = none ∧ SameHistory s s' ∨ command = some s.buffer ∧ s' = entered p s

section

variable {s : ShellState} {l : Line} {r : Row} {t : CStr} {p : Press}

/-! ## Rows -/

theorem holds_rowText (r : Row) :
    Holds 0 bufferSize (Function.update r (bufferSize - 1) 0) (rowText r) := by
  have hlen : ((List.range (bufferSize - 1)).map r).length = bufferSize - 1 := by
    rw [List.length_map, List.length_range]
  refine holds_takeWhile (by rw [hlen]; decide) (fun i hi => ?_) ?_
  · rw [hlen] at hi
    rw [List.getElem?_map, List.getElem?_range hi, Function.update_of_ne (Nat.ne_of_lt hi)]
    rfl
  · rw [hlen, Function.update_self]

theorem rowText_eq (h : Holds 0 bufferSize r t) : rowText r = t := by
  have hlt := h.length_lt
  refine (holds_rowText r).unique (h.congr fun i hi => ?_)
  by_cases hlast : i = bufferSize - 1
  · have hend : t.length = bufferSize - 1 := by omega
    rw [hlast, Function.update_self, ← hend, h.stop]
  · rw [Function.update_of_ne hlast]

theorem holds_safeStrncpy (dst r : Row) : Holds 0 bufferSize (safeStrncpy dst r) (rowText r) := by
  have hcopy := Holds.copy (a := dst) (holds_rowText r)
  have hlt := hcopy.length_lt
  refine hcopy.congr fun i hi => ?_
  have hlt' : i < bufferSize := by omega
  rw [safeStrncpy]
  by_cases hlast : i = bufferSize - 1
  · -- the last cell is a terminator in both
    rw [hlast, Function.update_self, copy, if_pos (by decide), if_neg]
    intro hall
    have hne := List.all_eq_true.mp hall (bufferSize - 1) (List.mem_range.mpr (by decide))
    rw [Function.update_self] at hne
    exact absurd hne (by decide)
  · have hsame : ∀ j ∈ List.range (i + 1), Function.update r (bufferSize - 1) 0 j = r j :=
      fun j hj => Function.update_of_ne (by rw [List.mem_range] at hj; omega) _ _
    have hall : ((List.range (i + 1)).all fun j => r j ≠ 0) =
        (List.range (i + 1)).all fun j => Function.update r (bufferSize - 1) 0 j ≠ 0 := by
      refine Bool.eq_iff_iff.mpr ?_
      rw [List.all_eq_true, List.all_eq_true]
      exact forall₂_congr fun j hj => by rw [hsame j hj]
    rw [Function.update_of_ne hlast, copy, copy, if_pos hlt', if_pos hlt', hall,
      hsame i (List.mem_range.mpr (Nat.lt_succ_self i))]

/-! ## What the functions do to the line -/

theorem renderInput_eq (h : HasLine s l) (graphics : Bool) : s.renderInput graphics = some s := by
  have hlt := h.buffer.length_lt
  rw [ShellState.renderInput]
  split
  · have hstop : Function.update s.buffer s.length 0 = s.buffer := by
      rw [Function.update_eq_self_iff, h.length]
      exact h.buffer.stop.symm
    rw [write_eq (by rw [h.length]; exact hlt), hstop]
    rfl
  · rfl

theorem hasLine_shown (s : ShellState) (r : Row) : HasLine (shown s r) (.recalled (rowText r)) :=
  ⟨holds_safeStrncpy s.buffer r, rfl, rfl, Nat.le_refl _⟩

theorem setLine_eq (s : ShellState) (r : Row) : s.setLine r = some (shown s r) := by
  rw [ShellState.setLine]
  have hlen : Model.strlen (safeStrncpy s.buffer r) = some (rowText r).length :=
    (holds_safeStrncpy s.buffer r).lengthFrom
  rw [hlen]
  rfl

theorem write_zero (r : Row) : write bufferSize r 0 0 = some (Function.update r 0 0) :=
  write_eq (by decide)

theorem hasLine_cleared (s : ShellState) : HasLine (cleared s) .empty := by
  have hstop : Function.update s.buffer 0 0 0 = 0 := Function.update_self 0 0 s.buffer
  exact ⟨Holds.nil (by decide) hstop, rfl, rfl, Nat.le_refl _⟩

theorem rowText_nil (h : r 0 = 0) : rowText r = [] := rowText_eq (Holds.nil (by decide) h)

/-! ## The history in the line -/

theorem historyPrev_line (h : HasLine s l) : HasLine s.historyPrev.2 l := by
  rw [ShellState.historyPrev]
  split
  · exact h
  · exact ⟨h.buffer, h.length, h.cursor, h.cursor_le⟩

theorem handleUp_some (h : s.historyPrev.2.deref p.outside s.historyPrev.1 = some r) :
    s.handleUp p = some (shown s.historyPrev.2 r) := by
  rw [ShellState.handleUp]
  simp only [h, setLine_eq, Option.bind_eq_bind, Option.bind_some,
    renderInput_eq (hasLine_shown s.historyPrev.2 r)]

theorem handleUp_none (h : s.historyPrev.2.deref p.outside s.historyPrev.1 = none) :
    s.handleUp p = some s.historyPrev.2 := by
  rw [ShellState.handleUp]
  simp only [h]

theorem handleDown_some (h : s.historyNext.2.deref p.outside s.historyNext.1 = some r)
    (hr : r 0 ≠ 0) : s.handleDown p = some (shown s.historyNext.2 r) := by
  have hfilter : (some r).filter (fun r => r 0 ≠ 0) = some r :=
    Option.filter_some_pos (decide_eq_true hr)
  rw [ShellState.handleDown]
  simp only [h, hfilter, setLine_eq, Option.bind_eq_bind, Option.bind_some,
    renderInput_eq (hasLine_shown s.historyNext.2 r)]

theorem handleDown_none
    (h : (s.historyNext.2.deref p.outside s.historyNext.1).filter (fun r => r 0 ≠ 0) = none) :
    s.handleDown p = some (cleared s.historyNext.2) := by
  have hrender := renderInput_eq (hasLine_cleared s.historyNext.2) p.graphics
  rw [cleared] at hrender
  rw [ShellState.handleDown]
  simp only [h, write_zero, Option.bind_eq_bind, Option.bind_some, hrender]
  rfl

theorem historyPrev_same (s : ShellState) : SameHistory s s.historyPrev.2 := by
  rw [ShellState.historyPrev]
  split <;> exact ⟨rfl, rfl⟩

theorem historyNext_same (s : ShellState) : SameHistory s s.historyNext.2 := by
  rw [ShellState.historyNext]
  split
  · exact ⟨rfl, rfl⟩
  split
  · exact ⟨rfl, rfl⟩
  split <;> exact ⟨rfl, rfl⟩

theorem handleUp_line (h : HasLine s l) (hu : p.key.upArrow = true) :
    ∃ s', s.handleUp p = some s' ∧ HasLine s' (((returned p s).map Line.recalled).getD l) ∧
      SameHistory s s' := by
  obtain ⟨hh, hc⟩ := historyPrev_same s
  rw [returned, if_pos hu]
  cases hd : s.historyPrev.2.deref p.outside s.historyPrev.1 with
  | none => exact ⟨_, handleUp_none hd, historyPrev_line h, hh, hc⟩
  | some r => exact ⟨_, handleUp_some hd, hasLine_shown _ r, hh, hc⟩

theorem handleDown_line (hu : p.key.upArrow = false) (hd : p.key.downArrow = true) :
    ∃ s', s.handleDown p = some s' ∧ HasLine s' (.recalled ((returned p s).getD [])) ∧
      SameHistory s s' := by
  obtain ⟨hh, hc⟩ := historyNext_same s
  rw [returned, if_neg (by rw [hu]; exact Bool.false_ne_true), if_pos hd]
  cases hn : s.historyNext.2.deref p.outside s.historyNext.1 with
  | none => exact ⟨_, handleDown_none (by rw [hn]; rfl), hasLine_cleared _, hh, hc⟩
  | some r =>
    by_cases hr : r 0 = 0
    · refine ⟨_, handleDown_none ?_, ?_, hh, hc⟩
      · rw [hn]
        exact Option.filter_some_neg (by simpa using hr)
      · rw [Option.map_some, Option.getD_some, rowText_nil hr]
        exact hasLine_cleared _
    · exact ⟨_, handleDown_some hn hr, hasLine_shown _ r, hh, hc⟩

/-! ## Keys in the line -/

theorem handleLeft_line (h : HasLine s l) :
    ∃ s', s.handleLeft p = some s' ∧ HasLine s' l.left ∧ SameHistory s s' := by
  have hcur := h.cursor
  have hle := h.cursor_le
  have hline : HasLine { s with cursor := s.cursor - 1 } l.left :=
    ⟨h.buffer, h.length, congrArg (· - 1) hcur, Nat.le_trans (Nat.sub_le _ _) hle⟩
  rw [ShellState.handleLeft]
  by_cases hpos : 0 < s.cursor
  · rw [if_pos hpos]
    exact ⟨_, renderInput_eq hline _, hline, rfl, rfl⟩
  · have hzero : l.left = l := by
      rw [Line.left, show l.cursor - 1 = l.cursor by omega]
    rw [if_neg hpos, hzero]
    exact ⟨s, rfl, h, rfl, rfl⟩

theorem handleRight_line (h : HasLine s l) :
    ∃ s', s.handleRight p = some s' ∧ HasLine s' l.right ∧ SameHistory s s' := by
  have hcur := h.cursor
  have hlen := h.length
  rw [ShellState.handleRight, Line.right]
  by_cases hlt : l.cursor < l.text.length
  · have hline : HasLine { s with cursor := s.cursor + 1 } { l with cursor := l.cursor + 1 } :=
      ⟨h.buffer, hlen, congrArg (· + 1) hcur, hlt⟩
    rw [if_pos (by omega), if_pos hlt]
    exact ⟨_, renderInput_eq hline _, hline, rfl, rfl⟩
  · rw [if_neg (by omega), if_neg hlt]
    exact ⟨s, rfl, h, rfl, rfl⟩

theorem handleBackspace_line (h : HasLine s l) :
    ∃ s', s.handleBackspace p = some s' ∧ HasLine s' l.erase ∧ SameHistory s s' := by
  have hcur := h.cursor
  have hlen := h.length
  have hle := h.cursor_le
  have hlt := h.buffer.length_lt
  rw [ShellState.handleBackspace, Line.erase]
  by_cases hpos : 0 < l.cursor
  · have hi : l.cursor - 1 < l.text.length := by omega
    have hmove : move bufferSize s.buffer (s.cursor - 1) s.cursor (s.length - s.cursor + 1) =
        some (moved s.buffer (s.cursor - 1) s.cursor (s.length - s.cursor + 1)) :=
      move_eq (by omega) (by omega) _
    have hholds := h.buffer.moveErase hi
    rw [Nat.sub_add_cancel hpos, ← hcur, ← hlen] at hholds
    have hline : HasLine { s with
        buffer := moved s.buffer (s.cursor - 1) s.cursor (s.length - s.cursor + 1)
        cursor := s.cursor - 1, length := if 0 < s.length then s.length - 1 else s.length }
        ⟨l.text.eraseIdx (l.cursor - 1), l.cursor - 1⟩ := by
      have herase := List.length_eraseIdx_of_lt hi
      refine ⟨hcur ▸ hholds, ?_, congrArg (· - 1) hcur, ?_⟩
      · show (if 0 < s.length then s.length - 1 else s.length) = _
        rw [if_pos (by omega), herase, hlen]
      · show l.cursor - 1 ≤ (l.text.eraseIdx (l.cursor - 1)).length
        omega
    rw [if_pos (by omega), if_pos hpos, hmove, Option.bind_eq_bind, Option.bind_some]
    exact ⟨_, renderInput_eq hline _, hline, rfl, rfl⟩
  · rw [if_neg (by omega), if_neg hpos]
    exact ⟨s, rfl, h, rfl, rfl⟩

theorem handleText_line (h : HasLine s l) (hc : kbToAscii p.key.toKeyboardEvent ≠ 0) :
    ∃ s', s.handleText p = some s' ∧ HasLine s' (l.insert (kbToAscii p.key.toKeyboardEvent)) ∧
      SameHistory s s' := by
  have hcur := h.cursor
  have hlen := h.length
  have hle := h.cursor_le
  rw [ShellState.handleText, Line.insert]
  generalize kbToAscii p.key.toKeyboardEvent = c at hc
  by_cases hroom : l.text.length < bufferSize - 1
  · have hmove : move bufferSize s.buffer (s.cursor + 1) s.cursor (s.length - s.cursor + 1) =
        some (moved s.buffer (s.cursor + 1) s.cursor (s.length - s.cursor + 1)) :=
      move_eq (by omega) (by omega) _
    have hholds := h.buffer.moveInsert hle (by omega) hc
    have hinsert := List.length_insertIdx_of_le_length hle c
    rw [← hcur, ← hlen] at hholds
    have hline : HasLine { s with
        buffer := Function.update
          (moved s.buffer (s.cursor + 1) s.cursor (s.length - s.cursor + 1)) s.cursor c
        cursor := s.cursor + 1, length := s.length + 1 }
        ⟨l.text.insertIdx l.cursor c, l.cursor + 1⟩ := by
      refine ⟨hcur ▸ hholds, ?_, congrArg (· + 1) hcur, ?_⟩
      · show s.length + 1 = _
        rw [hinsert, hlen]
      · show l.cursor + 1 ≤ (l.text.insertIdx l.cursor c).length
        omega
    simp only [if_pos (And.intro hc (show s.length < bufferSize - 1 by omega)), if_pos hroom, hmove,
      write_eq (show s.cursor < bufferSize by omega), Option.bind_eq_bind, Option.bind_some]
    exact ⟨_, renderInput_eq hline _, hline, rfl, rfl⟩
  · simp only [if_neg (not_and_of_not_right _ (show ¬ s.length < bufferSize - 1 by omega)),
      if_neg hroom]
    exact ⟨s, rfl, h, rfl, rfl⟩

theorem printPrompt_eq (s : ShellState) (graphics : Bool) :
    s.printPrompt graphics = some { cleared s with promptVisible := true } := by
  have hline : HasLine { cleared s with promptVisible := true } .empty :=
    ⟨(hasLine_cleared s).buffer, rfl, rfl, Nat.le_refl _⟩
  have hrender := renderInput_eq hline true
  rw [cleared] at hrender
  rw [ShellState.printPrompt, write_zero, Option.bind_eq_bind, Option.bind_some, cleared]
  cases graphics with
  | true => exact hrender
  | false => rfl

theorem handleEnter_eq (h : HasLine s l) : s.handleEnter p = some (entered p s, s.buffer) := by
  have hstop : write bufferSize s.buffer s.length 0 = some s.buffer := by
    have hlt := h.buffer.length_lt
    rw [write_eq (by rw [h.length]; exact hlt), Option.some_inj, Function.update_eq_self_iff,
      h.length]
    exact h.buffer.stop.symm
  have hbuffer : (s.historyAdd s.buffer).buffer = s.buffer := by
    rw [ShellState.historyAdd]
    split <;> rfl
  rw [ShellState.handleEnter, entered, cleared]
  simp only [hstop, hbuffer, write_zero, Option.bind_eq_bind, Option.bind_some,
    ShellState.nextPrompt, ShellState.historyReset]
  cases p.leaves with
  | false => rfl
  | true =>
    simp only [if_true, printPrompt_eq, Option.bind_some, cleared, Function.update_idem]
    rfl

theorem hasLine_entered (p : Press) (s : ShellState) : HasLine (entered p s) .empty := by
  have h := hasLine_cleared (s.historyAdd s.buffer)
  exact ⟨h.buffer, h.length, h.cursor, h.cursor_le⟩

theorem handled {op : Option ShellState} {l' : Line}
    (h : ∃ s', op = some s' ∧ HasLine s' l' ∧ SameHistory s s') :
    ∃ s' command, (do return (← op, none) : Option (ShellState × Option Row)) =
      some (s', command) ∧ HasLine s' l' ∧ command.map rowText = none ∧
      Recorded p s s' command := by
  obtain ⟨s', rfl, hline, hsame⟩ := h
  exact ⟨s', none, rfl, hline, rfl, .inl ⟨rfl, hsame⟩⟩

/-- **One key** does to the line what it does to its text. -/
theorem handleKey_line (h : HasLine s l) (he : s.inputEnabled = true) (p : Press) :
    ∃ s' command, s.handleKey p = some (s', command) ∧
      HasLine s' (l.handleKey p.key (returned p s)).1 ∧
      command.map rowText = (l.handleKey p.key (returned p s)).2 ∧ Recorded p s s' command := by
  have hin : ¬ s.inputEnabled = false := by
    rw [he]
    exact Bool.noConfusion
  rw [ShellState.handleKey, Line.handleKey]
  by_cases hr : p.key.release = true
  · rw [if_pos hr, if_pos hr]
    exact ⟨s, none, rfl, h, rfl, .inl ⟨rfl, rfl, rfl⟩⟩
  rw [if_neg hr, if_neg hr, if_neg hin]
  by_cases hup : p.key.upArrow = true
  · rw [if_pos hup, if_pos hup]
    exact handled (handleUp_line h hup)
  rw [if_neg hup, if_neg hup]
  by_cases hdown : p.key.downArrow = true
  · rw [if_pos hdown, if_pos hdown]
    exact handled (handleDown_line ((Bool.not_eq_true _).mp hup) hdown)
  rw [if_neg hdown, if_neg hdown]
  by_cases hleft : p.key.leftArrow = true
  · rw [if_pos hleft, if_pos hleft]
    exact handled (handleLeft_line h)
  rw [if_neg hleft, if_neg hleft]
  by_cases hright : p.key.rightArrow = true
  · rw [if_pos hright, if_pos hright]
    exact handled (handleRight_line h)
  rw [if_neg hright, if_neg hright]
  by_cases hback : p.key.backspace = true
  · rw [if_pos hback, if_pos hback]
    exact handled (handleBackspace_line h)
  rw [if_neg hback, if_neg hback]
  by_cases henter : p.key.enter = true
  · rw [if_pos henter, if_pos henter, handleEnter_eq h]
    exact ⟨_, _, rfl, hasLine_entered p s, congrArg some (rowText_eq h.buffer), .inr ⟨rfl, rfl⟩⟩
  rw [if_neg henter, if_neg henter]
  by_cases hc : kbToAscii p.key.toKeyboardEvent ≠ 0
  · rw [if_pos hc]
    exact handled (handleText_line h hc)
  · rw [if_neg hc]
    exact handled ⟨s, if_neg (not_and_of_not_left _ hc), h, rfl, rfl⟩

theorem handleKey_disabled (he : s.inputEnabled = false) (p : Press) :
    s.handleKey p = some (s, none) := by
  rw [ShellState.handleKey]
  by_cases hr : p.key.release = true
  · rw [if_pos hr]
    rfl
  · rw [if_neg hr, if_pos he]
    rfl

theorem run_line : ∀ (keys : List Press) {s : ShellState} {l : Line}, HasLine s l →
    ∃ s' commands, ShellState.run keys s = some (s', commands) ∧
      HasLine s' (Line.run (told keys s) l).1 ∧
      commands.map rowText = (Line.run (told keys s) l).2
  | [], s, l, h => ⟨s, [], rfl, h, rfl⟩
  | p :: keys, s, l, h => by
    cases he : s.inputEnabled with
    | false =>
      obtain ⟨s', commands, hrun, hline, hcommands⟩ := run_line keys h
      have hd := handleKey_disabled he p
      rw [ShellState.run, told, hd, he]
      simp only [Bool.false_eq_true, if_false, Option.map_some, Option.getD_some, List.nil_append,
        Option.bind_eq_bind, Option.bind_some, hrun]
      exact ⟨s', commands, rfl, hline, hcommands⟩
    | true =>
      obtain ⟨s₁, command, h₁, hline₁, hcommand, -⟩ := handleKey_line h he p
      obtain ⟨s', commands, hrun, hline, hcommands⟩ := run_line keys hline₁
      rw [ShellState.run, told, h₁, he]
      simp only [if_true, Option.map_some, Option.getD_some, List.singleton_append, Line.run,
        Option.bind_eq_bind, Option.bind_some, hrun]
      refine ⟨s', _, rfl, hline, ?_⟩
      rw [List.map_append, hcommands, ← hcommand]
      cases command <;> rfl

theorem init_eq (s : ShellState) (graphics : Bool) : ∃ s', s.init graphics = some s' ∧
    HasLine s' .empty ∧ s'.inputEnabled = true ∧ s'.historyCount = 0 ∧ s'.historyNav = -1 := by
  rw [ShellState.init, write_zero, Option.bind_eq_bind, Option.bind_some]
  simp only [printPrompt_eq]
  refine ⟨_, rfl, ?_, rfl, rfl, rfl⟩
  have h := hasLine_cleared { s with buffer := Function.update s.buffer 0 0 }
  exact ⟨h.buffer, h.length, h.cursor, h.cursor_le⟩

theorem HasLine.inside (h : HasLine s l) :
    s.cursor ≤ s.length ∧ s.length ≤ bufferSize - 1 ∧ s.buffer s.length = 0 := by
  have hlt := h.buffer.length_lt
  rw [h.length, h.cursor]
  exact ⟨h.cursor_le, by omega, h.buffer.stop⟩

/-- **Line editing refines a text with a cursor**: from `shell_init` on, through any keys
and commands, the shell has the line that the keys make, and hands the lines that
are entered to the commands. -/
theorem shell_refines_line (s : ShellState) (graphics : Bool) (keys : List Press) :
    ∃ s₀ s' commands, s.init graphics = some s₀ ∧ ShellState.run keys s₀ = some (s', commands) ∧
      HasLine s' (Line.run (told keys s₀) .empty).1 ∧
      commands.map rowText = (Line.run (told keys s₀) .empty).2 ∧
      s'.cursor ≤ s'.length ∧ s'.length ≤ bufferSize - 1 ∧ s'.buffer s'.length = 0 := by
  obtain ⟨s₀, h₀, hline₀, -⟩ := init_eq s graphics
  obtain ⟨s', commands, hrun, hline, hcommands⟩ := run_line keys hline₀
  exact ⟨s₀, s', commands, h₀, hrun, hline, hcommands, hline.inside⟩

end

end ContinuumOS.Shell.Line
