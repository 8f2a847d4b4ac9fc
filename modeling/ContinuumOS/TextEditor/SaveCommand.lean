import ContinuumOS.TextEditor.AsText

/-! # The command that saves

Enter on a line `.save` takes that line out and saves the others. A text has to
have others: without them the cursor goes before the first row. -/
namespace ContinuumOS.TextEditor.SaveCommand
open ContinuumOS.Lib.TextCursor ContinuumOS.Libc.String
open ContinuumOS.TextEditor.Model ContinuumOS.TextEditor.View
open ContinuumOS.TextEditor.Saving ContinuumOS.TextEditor.Opening
open ContinuumOS.TextEditor.Sessions ContinuumOS.TextEditor.AsText

/-- The lines without the one with the cursor. -/
def otherLines (e : Editor) : List CStr := (textLines e).eraseIdx e.cursorLine.toNat

/-- The lines of the editor are `ls`, up to empty ones at the end. -/
def KeepsLines (e : Editor) (ls : List CStr) : Prop :=
  ∃ rest, ls = textLines e ++ rest ∧ ∀ l ∈ rest, l = []

/-- Enter takes out the line with the cursor, which stays in the buffer, and saves the
others. -/
def SavesOthers (e : Editor) (calls : SaveCalls) : Prop :=
  ∃ e' saved, e.handleEnter calls = some (e', saved) ∧
    0 ≤ e'.cursorLine ∧ e'.cursorLine < maxLines ∧ KeepsLines e' (otherLines e) ∧
    (∀ data, saved = some data → data = fileOf (textLines e')) ∧
    (e.path ≠ [] → Succeeds calls (fileOf (textLines e')).length →
      saved = some (fileOf (textLines e')))

section

variable {e e' : Editor} {t : Text UInt8} {ls : List CStr}

theorem otherLines_eq (h : Shows e t) : otherLines e = t.above.reverse ++ t.below := by
  have hline : t.line = t.above.reverse.length := List.length_reverse.symm
  rw [otherLines, textLines_eq h.toHasLines, h.line, Int.toNat_natCast, Text.lines, hline,
    List.eraseIdx_append_of_length_le (Nat.le_refl _), Nat.sub_self, List.eraseIdx_cons_zero]

theorem exit_keeps (h : HasLines e ls) (hne : ls ≠ []) (calls : SaveCalls) :
    ∃ e' saved, e.exit true calls = some (e', saved) ∧ e'.cursorLine = e.cursorLine ∧
      KeepsLines e' ls ∧ (∀ data, saved = some data → data = fileOf (textLines e')) ∧
      (e.path ≠ [] → Succeeds calls (fileOf (textLines e')).length →
        saved = some (fileOf (textLines e'))) := by
  have hnone : ∀ data ls, (none : Option CStr) = some data → data = fileOf ls :=
    fun data _ hd => absurd hd.symm (Option.some_ne_none data)
  by_cases hp : e.path = []
  · have hkeep : HasLines { e with active := false } ls := ⟨h.count, h.count_le, h.rows⟩
    rw [Editor.exit, if_pos rfl, if_pos hp]
    refine ⟨_, none, rfl, rfl, ⟨[], ?_, fun _ hl => absurd hl List.not_mem_nil⟩,
      fun data => hnone data _, fun hpath => absurd hp hpath⟩
    rw [List.append_nil, textLines_eq hkeep]
  · have hlines := textLines_eq (hasLines_closed h)
    obtain ⟨hgood, hbad⟩ := exit_save h hne hp calls
    by_cases hs : Succeeds calls (fileOf (trimmed ls)).length
    · refine ⟨_, _, hgood hs, rfl, ?_, fun data hd => ?_, fun _ _ => ?_⟩
      · rw [KeepsLines, hlines]
        exact trimmed_append ls
      · rw [hlines]
        exact (Option.some.inj hd).symm
      · rw [hlines]
    · refine ⟨_, _, hbad hs, rfl, ?_, fun data => hnone data _, fun _ hs' => ?_⟩
      · rw [KeepsLines, hlines]
        exact trimmed_append ls
      · rw [hlines] at hs'
        exact absurd hs' hs

theorem handleEnter_others (h : Ready e t) (hsave : t.current = ascii ".save")
    (hmore : 1 < t.lines.length) (calls : SaveCalls) : SavesOthers e calls := by
  have hcount := h.count
  have hle : t.lines.length ≤ maxLines := h.count_le
  obtain ⟨e₁, h₁, hlines, hpath, hline⟩ := saveCommand_exit h.toShows hmore calls
  obtain ⟨e', saved, hexit, hcursor, hkeeps, hdata, hsaved⟩ :=
    exit_keeps hlines (others_ne_nil hmore) calls
  rw [hpath] at hsaved
  refine ⟨e', saved, ?_, by omega, by omega, ?_, hdata, hsaved⟩
  · rw [handleEnter_save h.toShows hsave, h₁, hexit]
  · rw [otherLines_eq h.toShows]
    exact hkeeps

/-- **`.save` saves the other lines** in every editor that a session reaches, exactly
when there are others. -/
theorem handleEnter_saves_iff (hr : Reached e) (ha : e.active = true)
    (hs : rowText (e.buffer e.cursorLine.toNat) = ascii ".save") (calls : SaveCalls) :
    SavesOthers e calls ↔ e.lineCount ≠ 1 := by
  obtain ⟨t, ht⟩ := hr.ready ha
  have hcount := ht.count
  have hlen := length_lines t
  rw [ht.current] at hs
  refine ⟨fun hsaves hone => ?_, fun hmany => handleEnter_others ht hs (by omega) calls⟩
  obtain ⟨e', saved, he', -⟩ := hsaves
  rw [handleEnter_save ht.toShows hs, saveCommand_only ht.toShows (by omega) calls] at he'
  exact Option.some_ne_none _ he'.symm

end

/-! ## Runs -/

theorem opened (content : CStr) : ∃ e,
    session blank (some (ascii "/f")) ⟨vfsSuccess, [content], 0⟩ (fun _ => 0) [] = some e ∧
      Ready e (atStart (startLines (ascii "/f") ⟨vfsSuccess, [content], 0⟩)) := by
  obtain ⟨e, he, hshows, ha, hin, -⟩ := start_shows blank (some (ascii "/f"))
    ⟨vfsSuccess, [content], 0⟩ (fun _ => 0)
  refine ⟨e, ?_, hshows, hin, ha⟩
  rw [session, he]
  rfl

/-- `.save` in front of a line `a`. -/
theorem handleEnter_saves_example : ∃ e, Reached e ∧ SavesOthers e ⟨true, 0, 0, 0, 2⟩ := by
  obtain ⟨e, he, ht⟩ := opened (ascii ".save" ++ [newline] ++ ascii "a")
  have hlines : startLines (ascii "/f")
      ⟨vfsSuccess, [ascii ".save" ++ [newline] ++ ascii "a"], 0⟩ = [ascii ".save", ascii "a"] := by
    decide +kernel
  rw [hlines] at ht
  have hr : Reached e := ⟨_, _, _, _, _, he⟩
  have hcount := ht.count
  refine ⟨e, hr, (handleEnter_saves_iff hr ht.active ht.current _).mpr ?_⟩
  rw [hcount]
  decide

/-- A file with the one line `.save`. -/
theorem save_alone_leaves_buffer :
    ¬ ∀ e calls, Reached e → e.active = true →
      rowText (e.buffer e.cursorLine.toNat) = ascii ".save" → SavesOthers e calls := by
  intro hall
  obtain ⟨e, he, ht⟩ := opened (ascii ".save")
  have hlines : startLines (ascii "/f") ⟨vfsSuccess, [ascii ".save"], 0⟩ = [ascii ".save"] := by
    decide +kernel
  rw [hlines] at ht
  obtain ⟨e', saved, he', -⟩ := hall e ⟨true, 0, 0, 0, 0⟩ ⟨_, _, _, _, _, he⟩ ht.active ht.current
  rw [handleEnter_save ht.toShows rfl, saveCommand_only ht.toShows rfl] at he'
  exact Option.some_ne_none _ he'.symm

end ContinuumOS.TextEditor.SaveCommand
