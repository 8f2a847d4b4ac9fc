import ContinuumOS.TextEditor.Keys
import ContinuumOS.TextEditor.Saving
import ContinuumOS.TextEditor.Opening

/-! # Sessions of the editor

From `start` on, key after key, the editor shows a text and the cursor is in
view. Only `.save` on the one line of a text leads out of the buffer. -/
namespace ContinuumOS.TextEditor.Sessions
open ContinuumOS.Lib.TextCursor ContinuumOS.Libc.String
open ContinuumOS.TextEditor.Model ContinuumOS.TextEditor.View ContinuumOS.TextEditor.Keys
open ContinuumOS.TextEditor.Saving ContinuumOS.TextEditor.Opening

/-- The loop of `editor_entry`: keys are handled as long as the editor is active. -/
def run : List (KeyboardEvent × SaveCalls) → Editor → Option Editor
  | [], e => some e
  | (ke, calls) :: keys, e =>
    if e.active then do
      let (e, _) ← e.handleKey ke calls
      run keys e
    else some e

/-- `start`, and then the keys. -/
def session (e : Editor) (path : Option CStr) (calls : LoadCalls) (lineBuf : Row)
    (keys : List (KeyboardEvent × SaveCalls)) : Option Editor := do
  let e ← e.start path calls lineBuf
  run keys e

/-- The text in a row. -/
def rowText (r : Row) : CStr := ((List.range lineLength).map r).takeWhile (· ≠ 0)

/-- The key is Enter. -/
def IsEnter (ke : KeyboardEvent) : Prop :=
  ke.release = false ∧ ke.backspace = false ∧ ke.enter = true

/-- Enter on a line that is a command. -/
def IsCommand (e : Editor) (ke : KeyboardEvent) : Prop :=
  IsEnter ke ∧ (rowText (e.buffer e.cursorLine.toNat) = ascii ".save" ∨
    rowText (e.buffer e.cursorLine.toNat) = ascii ".exit")

/-- Enter on `.save` where there is no other line. -/
def SavesOnlyLine (e : Editor) (ke : KeyboardEvent) : Prop :=
  IsEnter ke ∧ e.lineCount = 1 ∧ rowText (e.buffer 0) = ascii ".save"

/-- What holds of an active editor. -/
structure Invariant (e : Editor) : Prop where
  count_pos : 1 ≤ e.lineCount
  count_le : e.lineCount ≤ maxLines
  line_nonneg : 0 ≤ e.cursorLine
  line_lt : e.cursorLine < e.lineCount
  terminated : ∀ i : Nat, i < e.lineCount → ∃ j, j < lineLength ∧ e.buffer i j = 0
  col_nonneg : 0 ≤ e.cursorCol
  col_le : ∃ len : Nat, Model.strlen (e.buffer e.cursorLine.toNat) = some len ∧
    e.cursorCol ≤ len ∧ len ≤ lineLength - 1
  inView : InView e

/-- An active editor with a text, after drawing. -/
structure Ready (e : Editor) (t : Text UInt8) : Prop extends Shows e t, InView e where
  active : e.active = true

section

variable {e e' : Editor} {t : Text UInt8} {ke : KeyboardEvent}

theorem rowText_eq {r : Row} {l : CStr} (h : RowHolds r l) : rowText r = l := by
  have hlt : l.length < lineLength := h.length_lt
  have hlen : l.length < ((List.range lineLength).map r).length := by
    rwa [List.length_map, List.length_range]
  have hfind : ((List.range lineLength).map r).findIdx (fun c => !decide (c ≠ 0)) = l.length := by
    refine (List.findIdx_eq hlen).mpr ⟨?_, fun j hj => ?_⟩
    · rw [List.getElem_map, List.getElem_range, h.stop]
      rfl
    · rw [List.getElem_map, List.getElem_range, decide_eq_true (h.ne hj)]
      rfl
  rw [rowText, List.takeWhile_eq_take_findIdx_not, hfind, ← List.map_take, List.take_range,
    Nat.min_eq_left (Nat.le_of_lt hlt)]
  exact textOf_eq h

theorem Ready.current (h : Ready e t) : rowText (e.buffer e.cursorLine.toNat) = t.current := by
  rw [h.line, Int.toNat_natCast]
  exact rowText_eq h.toShows.current

theorem handleEnter_shows (h : Shows e t) (hsave : t.current ≠ ascii ".save")
    (hexit : t.current ≠ ascii ".exit") (calls : SaveCalls) :
    ∃ e', e.handleEnter calls = some (e', none) ∧ Kept e e' ∧ Shows e' (entered t) := by
  have hcur := h.current
  simp only [Editor.handleEnter, h.row, Option.bind_eq_bind, Option.bind_some, strlen_eq hcur,
    textOf_eq hcur, if_neg hsave, if_neg hexit, entered, h.count]
  by_cases hroom : t.lines.length < maxLines
  · obtain ⟨e', he', hk, hs⟩ := splitLine_shows h hroom
    rw [if_pos hroom, if_neg (by omega), he']
    exact ⟨e', rfl, hk, hs⟩
  · rw [if_neg hroom, if_pos (by omega)]
    exact ⟨e, rfl, .refl e, h⟩

theorem handleText_shows (h : Shows e t) (ke : KeyboardEvent) :
    ∃ e', e.handleText ke = some e' ∧ Kept e e' ∧
      Shows e' (if kbToAscii ke ≠ 0 then typed t (kbToAscii ke) else t) := by
  rw [Editor.handleText]
  by_cases hc : kbToAscii ke ≠ 0
  · rw [if_pos hc]
    simp only [if_pos hc]
    exact handleChar_shows h hc
  · rw [if_neg hc]
    simp only [if_neg hc]
    exact ⟨e, rfl, .refl e, h⟩

theorem render_ready {t' : Text UInt8} (h : Ready e t) (hk : Kept e e') (hs : Shows e' t') :
    ∃ e'', e'.render = some e'' ∧ Ready e'' t' := by
  have hv : 0 ≤ e'.viewportOffset := by
    rw [hk.viewportOffset]
    exact h.nonneg
  obtain ⟨v, hr, hs', hin⟩ := render_shows hs hv
  refine ⟨_, hr, hs', hin, ?_⟩
  show e'.active = true
  rw [hk.active, h.active]

theorem rendered {op : Option Editor} {t' : Text UInt8} (h : Ready e t)
    (hop : ∃ e', op = some e' ∧ Kept e e' ∧ Shows e' t') :
    ∃ e', (do
      let e ← op
      return (← e.render, none) : Option (Editor × Option CStr)) = some (e', none) ∧
      Ready e' t' := by
  obtain ⟨e₁, rfl, hk, hs⟩ := hop
  obtain ⟨e₂, h₂, hready⟩ := render_ready h hk hs
  refine ⟨e₂, ?_, hready⟩
  simp only [h₂, Option.bind_eq_bind, Option.bind_some, Option.pure_def]

/-- **A key that is no command changes the text as it should.** -/
theorem handleKey_press (h : Ready e t) (hc : ¬ IsCommand e ke) (calls : SaveCalls) :
    ∃ e', e.handleKey ke calls = some (e', none) ∧ Ready e' (press ke t) := by
  rw [Editor.handleKey, press]
  by_cases hr : ke.release = true
  · rw [if_pos hr, if_pos hr]
    exact ⟨e, rfl, h⟩
  rw [if_neg hr, if_neg hr]
  by_cases hb : ke.backspace = true
  · rw [if_pos hb, if_pos hb]
    exact rendered h (handleBackspace_shows h.toShows)
  rw [if_neg hb, if_neg hb]
  by_cases he : ke.enter = true
  · rw [if_pos he, if_pos he]
    have henter : IsEnter ke :=
      ⟨Bool.eq_false_of_not_eq_true hr, Bool.eq_false_of_not_eq_true hb, he⟩
    rw [IsCommand, h.current] at hc
    obtain ⟨e₁, h₁, hk, hs⟩ := handleEnter_shows h.toShows (fun hs => hc ⟨henter, .inl hs⟩)
      (fun hs => hc ⟨henter, .inr hs⟩) calls
    obtain ⟨e₂, h₂, hready⟩ := render_ready h hk hs
    have hactive : ¬ e₁.active = false := by
      rw [hk.active, h.active]
      exact Bool.noConfusion
    refine ⟨e₂, ?_, hready⟩
    simp only [h₁, h₂, if_neg hactive, Option.bind_eq_bind, Option.bind_some, Option.pure_def]
  rw [if_neg he, if_neg he]
  by_cases ha : Editor.isArrow ke.scancode = true
  · rw [if_pos ha, if_pos ha]
    exact rendered h (handleArrows_shows h.toShows ke.scancode)
  · rw [if_neg ha, if_neg ha]
    exact rendered h (handleText_shows h.toShows ke)

/-! ## Commands -/

theorem handleEnter_exit (h : Shows e t) (hexit : t.current = ascii ".exit") (calls : SaveCalls) :
    ∃ e' s, e.handleEnter calls = some (e', s) ∧ e'.active = false := by
  have hcur := h.current
  have htext := (textOf_eq hcur).trans hexit
  have hne : ascii ".exit" ≠ ascii ".save" := by decide
  simp only [Editor.handleEnter, h.row, Option.bind_eq_bind, Option.bind_some, strlen_eq hcur,
    htext, if_neg hne]
  exact ⟨_, _, rfl, rfl⟩

theorem hasLines_others (h : Shows e t) :
    HasLines { e with
      buffer := raised e.buffer t.line (t.line + t.below.length), lineCount := e.lineCount - 1 }
      (t.above.reverse ++ t.below) := by
  obtain ⟨habove, -, hbelow⟩ := rowsFrom_lines.mp h.rows
  have hlen : (t.above.reverse ++ t.below).length = t.line + t.below.length := by
    rw [List.length_append, List.length_reverse, Text.line]
  have hlt := h.below_lt
  refine ⟨?_, by omega, rowsFrom_append.mpr ⟨rowsFrom_congr habove fun i hi => ?_, ?_⟩⟩
  · show e.lineCount - 1 = _
    rw [hlen, h.count, length_lines]
    omega
  · rw [List.length_reverse] at hi
    have hi : i < t.line := hi
    show raised e.buffer _ _ (0 + i) = _
    rw [raised, if_neg (by omega)]
  · rw [Nat.zero_add, List.length_reverse]
    exact rowsFrom_raised hbelow (Nat.le_refl _)

theorem rowsBelow_count (h : Shows e t) :
    (e.lineCount - 1 - e.cursorLine).toNat = t.below.length := by
  rw [h.count, h.line, length_lines]
  omega

theorem others_ne_nil (hmore : 1 < t.lines.length) : t.above.reverse ++ t.below ≠ [] := by
  have hlen := length_lines t
  refine List.length_pos_iff.mp ?_
  rw [List.length_append, List.length_reverse]
  rw [Text.line] at hlen
  omega

/-- `.save` next to other lines takes its line out and saves the others, with the
cursor on the last of them. -/
theorem saveCommand_exit (h : Shows e t) (hmore : 1 < t.lines.length) (calls : SaveCalls) :
    ∃ e₁, e.saveCommand calls = e₁.exit true calls ∧
      HasLines e₁ (t.above.reverse ++ t.below) ∧ e₁.path = e.path ∧
      e₁.cursorLine = e.lineCount - 2 := by
  have hs : Shows (e.setStatusMessage (ascii "Saved.")) t := h.move rfl rfl rfl h.line h.col
  have hpath : (e.setStatusMessage (ascii "Saved.")).path = e.path := rfl
  have hcount : (e.setStatusMessage (ascii "Saved.")).lineCount = e.lineCount := rfl
  simp only [Editor.saveCommand]
  generalize e.setStatusMessage (ascii "Saved.") = e₀ at hs hpath hcount ⊢
  have hothers := hasLines_others hs
  have hne := others_ne_nil hmore
  generalize t.above.reverse ++ t.below = ls at hothers hne
  obtain ⟨ms, l, rfl⟩ := (List.eq_nil_or_concat' ls).resolve_left hne
  obtain ⟨hrow, hlast⟩ := last_row hothers
  rw [Editor.row] at hrow
  simp only [rowsBelow_count hs, next_line hs, rowsUp_eq t.below.length t.line e₀ hs.below_lt,
    Option.bind_eq_bind, Option.bind_some, Editor.row, hrow, strlen_eq hlast]
  refine ⟨_, rfl, ⟨hothers.count, hothers.count_le, hothers.rows⟩, hpath, ?_⟩
  show e₀.lineCount - 1 - 1 = _
  omega

/-- **`.save` next to other lines** ends the editor. -/
theorem saveCommand_others (h : Shows e t) (hmore : 1 < t.lines.length) (calls : SaveCalls) :
    ∃ e' s, e.saveCommand calls = some (e', s) ∧ e'.active = false := by
  obtain ⟨e₁, h₁, hlines, -, -⟩ := saveCommand_exit h hmore calls
  obtain ⟨e', s, hexit, ha, -⟩ := exit_eq hlines (others_ne_nil hmore) true calls
  exact ⟨e', s, h₁.trans hexit, ha⟩

/-- **`.save` on the one line** leaves no line: the cursor goes before the first row. -/
theorem saveCommand_only (h : Shows e t) (hone : t.lines.length = 1) (calls : SaveCalls) :
    e.saveCommand calls = none := by
  have hs : Shows (e.setStatusMessage (ascii "Saved.")) t := h.move rfl rfl rfl h.line h.col
  simp only [Editor.saveCommand]
  generalize e.setStatusMessage (ascii "Saved.") = e₀ at hs ⊢
  have hcount : e₀.lineCount = 1 := by
    rw [hs.count, hone]
    rfl
  have hout : ¬ (0 ≤ e₀.lineCount - 1 - 1 ∧ e₀.lineCount - 1 - 1 < (maxLines : Int)) := by
    rw [hcount]
    decide
  simp only [rowsBelow_count hs, next_line hs, rowsUp_eq t.below.length t.line e₀ hs.below_lt,
    Option.bind_eq_bind, Option.bind_some, Editor.row, if_neg hout, Option.bind_none]

theorem handleEnter_save (h : Shows e t) (hsave : t.current = ascii ".save") (calls : SaveCalls) :
    e.handleEnter calls = e.saveCommand calls := by
  have hcur := h.current
  have htext := (textOf_eq hcur).trans hsave
  simp only [Editor.handleEnter, h.row, Option.bind_eq_bind, Option.bind_some, strlen_eq hcur,
    htext, if_true]

theorem handleKey_enter (he : IsEnter ke) (calls : SaveCalls) {s : Option CStr}
    (h : e.handleEnter calls = some (e', s)) (ha : e'.active = false) :
    e.handleKey ke calls = some (e', s) := by
  obtain ⟨hr, hb, hen⟩ := he
  simp only [Editor.handleKey, hr, hb, hen, Bool.false_eq_true, if_false, if_true, h, ha,
    Option.bind_eq_bind, Option.bind_some, Option.pure_def]

theorem savesOnlyLine_iff (h : Ready e t) :
    SavesOnlyLine e ke ↔ IsEnter ke ∧ t.lines.length = 1 ∧ t.current = ascii ".save" := by
  have hcount := h.count
  have hlen := length_lines t
  refine and_congr_right fun _ => ⟨fun hs => ?_, fun hs => ?_⟩
  · have hone : t.lines.length = 1 := by omega
    have hline : t.line = 0 := by omega
    have hcur := h.toShows.current
    rw [hline] at hcur
    exact ⟨hone, (rowText_eq hcur).symm.trans hs.2⟩
  · have hline : t.line = 0 := by omega
    have hcur := h.toShows.current
    rw [hline] at hcur
    exact ⟨by omega, (rowText_eq hcur).trans hs.2⟩

theorem handleKey_only (h : Ready e t) (hs : SavesOnlyLine e ke) (calls : SaveCalls) :
    e.handleKey ke calls = none := by
  obtain ⟨⟨hr, hb, hen⟩, hone, hsave⟩ := (savesOnlyLine_iff h).mp hs
  have hnone := (handleEnter_save h.toShows hsave calls).trans
    (saveCommand_only h.toShows hone calls)
  simp only [Editor.handleKey, hr, hb, hen, Bool.false_eq_true, if_false, if_true, hnone,
    Option.bind_eq_bind, Option.bind_none]

/-- **Every other key stays inside the buffer**, and an editor that goes on shows a
text. -/
theorem handleKey_ready (h : Ready e t) (hs : ¬ SavesOnlyLine e ke) (calls : SaveCalls) :
    ∃ e' s, e.handleKey ke calls = some (e', s) ∧ (e'.active = true → ∃ t', Ready e' t') := by
  by_cases hc : IsCommand e ke
  · obtain ⟨he, hcmd⟩ := hc
    rw [h.current] at hcmd
    have hends : ∃ e' s, e.handleEnter calls = some (e', s) ∧ e'.active = false := by
      rcases hcmd with hsave | hexit
      · have hmore : 1 < t.lines.length := by
          have hne : t.lines.length ≠ 1 := fun hone =>
            hs ((savesOnlyLine_iff h).mpr ⟨he, hone, hsave⟩)
          have hlen := length_lines t
          omega
        rw [handleEnter_save h.toShows hsave]
        exact saveCommand_others h.toShows hmore calls
      · exact handleEnter_exit h.toShows hexit calls
    obtain ⟨e', s, hends, ha⟩ := hends
    refine ⟨e', s, handleKey_enter he calls hends ha, fun hactive => ?_⟩
    exact absurd (ha.symm.trans hactive) Bool.false_ne_true
  · obtain ⟨e', he, hready⟩ := handleKey_press h hc calls
    exact ⟨e', none, he, fun _ => ⟨_, hready⟩⟩

/-! ## Runs -/

theorem run_inactive (ha : e.active = false) :
    ∀ keys : List (KeyboardEvent × SaveCalls), run keys e = some e
  | [] => rfl
  | _ :: _ => by rw [run, if_neg (by rw [ha]; exact Bool.false_ne_true)]

theorem run_cons (ha : e.active = true) {calls : SaveCalls} {s : Option CStr}
    (h : e.handleKey ke calls = some (e', s)) (keys : List (KeyboardEvent × SaveCalls)) :
    run ((ke, calls) :: keys) e = run keys e' := by
  rw [run, if_pos ha, h]
  rfl

theorem run_append : ∀ (keys keys' : List (KeyboardEvent × SaveCalls)) (e : Editor),
    run (keys ++ keys') e = (run keys e).bind (run keys')
  | [], _, _ => rfl
  | (ke, calls) :: keys, keys', e => by
    cases ha : e.active with
    | false => rw [run_inactive ha, run_inactive ha, Option.bind_some, run_inactive ha]
    | true =>
      rw [List.cons_append, run, run, if_pos ha, if_pos ha]
      cases e.handleKey ke calls with
      | none => rfl
      | some p => exact run_append keys keys' p.1

theorem run_ready : ∀ (keys : List (KeyboardEvent × SaveCalls)) {e e' : Editor} {t : Text UInt8},
    Ready e t → run keys e = some e' → e'.active = true → ∃ t', Ready e' t'
  | [], e, e', t, h, hr, _ => ⟨t, Option.some.inj hr ▸ h⟩
  | (ke, calls) :: keys, e, e', t, h, hr, ha => by
    by_cases hs : SavesOnlyLine e ke
    · rw [run, if_pos h.active, handleKey_only h hs] at hr
      exact absurd hr.symm (Option.some_ne_none e')
    · obtain ⟨e₁, s, h₁, hready⟩ := handleKey_ready h hs calls
      rw [run_cons h.active h₁] at hr
      cases ha₁ : e₁.active with
      | false =>
        rw [run_inactive ha₁] at hr
        rw [← Option.some.inj hr, ha₁] at ha
        exact absurd ha Bool.false_ne_true
      | true =>
        obtain ⟨t₁, ht₁⟩ := hready ha₁
        exact run_ready keys ht₁ hr ha

theorem run_exists : ∀ (keys : List (KeyboardEvent × SaveCalls)) {e : Editor} {t : Text UInt8},
    Ready e t →
    (∀ keys₁ ke calls keys₂ e₁, keys = keys₁ ++ (ke, calls) :: keys₂ → run keys₁ e = some e₁ →
      e₁.active = true → ¬ SavesOnlyLine e₁ ke) →
    ∃ e', run keys e = some e'
  | [], e, _, _, _ => ⟨e, rfl⟩
  | (ke, calls) :: keys, e, t, h, hno => by
    obtain ⟨e₁, s, h₁, hready⟩ := handleKey_ready h
      (hno [] ke calls keys e rfl rfl h.active) calls
    rw [run_cons h.active h₁]
    cases ha₁ : e₁.active with
    | false => exact ⟨e₁, run_inactive ha₁ keys⟩
    | true =>
      obtain ⟨t₁, ht₁⟩ := hready ha₁
      refine run_exists keys ht₁ fun keys₁ ke' calls' keys₂ e₂ hkeys hrun => ?_
      refine hno ((ke, calls) :: keys₁) ke' calls' keys₂ e₂ (by rw [hkeys]; rfl) ?_
      rw [run_cons h.active h₁, hrun]

theorem Ready.invariant (h : Ready e t) : Invariant e := by
  have hcount := h.count
  have hline := h.line
  have hcol := h.col
  have hlen := length_lines t
  have hcur := h.toShows.current
  have hlt : t.current.length < lineLength := hcur.length_lt
  have hright := length_current t
  refine ⟨by omega, ?_, by omega, by omega, fun i hi => ?_, by omega, ?_, h.toInView⟩
  · rw [hcount]
    exact Int.ofNat_le.mpr h.count_le
  · rw [hcount, Int.ofNat_lt] at hi
    exact ⟨_, (h.toHasLines.get hi).length_lt, (h.toHasLines.get hi).stop⟩
  · rw [hline, Int.toNat_natCast]
    exact ⟨_, strlen_eq hcur, by omega, by omega⟩

/-- **The editor stays inside its buffer** and keeps its invariant as long as it is
active, exactly as long as nobody saves with `.save` as the only line. -/
theorem session_invariant (e : Editor) (path : Option CStr) (calls : LoadCalls) (lineBuf : Row)
    (keys : List (KeyboardEvent × SaveCalls)) :
    (∃ e', session e path calls lineBuf keys = some e' ∧ (e'.active = true → Invariant e')) ↔
      ∀ keys₁ ke saveCalls keys₂ e₁, keys = keys₁ ++ (ke, saveCalls) :: keys₂ →
        session e path calls lineBuf keys₁ = some e₁ → e₁.active = true →
          ¬ SavesOnlyLine e₁ ke := by
  obtain ⟨e₀, h₀, hshows, hactive, hin, -⟩ := start_shows e path calls lineBuf
  have hready : Ready e₀ _ := ⟨hshows, hin, hactive⟩
  have hsession : ∀ keys, session e path calls lineBuf keys = run keys e₀ := fun keys => by
    rw [session, h₀]
    rfl
  simp only [hsession]
  refine ⟨fun h keys₁ ke c keys₂ e₁ hkeys hrun ha hs => ?_, fun hno => ?_⟩
  · obtain ⟨e', he', -⟩ := h
    obtain ⟨t₁, ht₁⟩ := run_ready keys₁ hready hrun ha
    rw [hkeys, run_append, hrun, Option.bind_some, run, if_pos ha, handleKey_only ht₁ hs] at he'
    exact Option.some_ne_none e' he'.symm
  · obtain ⟨e', he'⟩ := run_exists keys hready hno
    refine ⟨e', he', fun ha => ?_⟩
    obtain ⟨t', ht'⟩ := run_ready keys hready he' ha
    exact ht'.invariant

end

/-! ## A run -/

def blank : Editor :=
  { buffer := fun _ _ => 0, lineCount := 0, cursorLine := 0, cursorCol := 0, viewportOffset := 0
    filename := [], path := [], active := false, statusMessage := [] }

def enterKey : KeyboardEvent := ⟨0x1C, false, false, false, true, false⟩

/-- A file with the one line `.save`: Enter reads in front of the buffer. -/
theorem session_save :
    session blank (some (ascii "/f")) ⟨vfsSuccess, [ascii ".save"], 0⟩ (fun _ => 0)
      [(enterKey, ⟨true, 0, 0, 0, 0⟩)] = none :=
  Option.isNone_iff_eq_none.mp (by decide +kernel)

end ContinuumOS.TextEditor.Sessions
