import ContinuumOS.TextEditor.View

/-! # Opening a file

The loop over the bytes of a file, and what `start` leaves: the editor shows the
lines that were read, with the cursor in front of them. How the bytes come in
chunks does not matter. -/
namespace ContinuumOS.TextEditor.Opening
open ContinuumOS.Lib.Terminated ContinuumOS.Lib.TextCursor ContinuumOS.Libc.String
open ContinuumOS.TextEditor.Model ContinuumOS.TextEditor.View

/-- What was read of a file: its lines, the line that was begun, and whether there
were too many. -/
structure Content where
  lines : List CStr
  part : CStr
  truncated : Bool

namespace Content

variable (a : Content)

/-- The line that was begun is finished. What stands behind a NUL in it is lost. -/
def finish : Content :=
  if a.lines.length < maxLines then ⟨a.lines ++ [a.part.takeWhile (· ≠ 0)], [], a.truncated⟩
  else ⟨a.lines, [], true⟩

def char (c : UInt8) : Content :=
  if c = carriageReturn then a
  else if c = newline then a.finish
  else if a.part.length < lineLength - 1 then { a with part := a.part ++ [c] }
  else a

def ofBytes (bytes : CStr) : Content :=
  let a := bytes.foldl char ⟨[], [], false⟩
  if 0 < a.part.length ∨ a.lines = [] then a.finish else a

end Content

/-- What `start` reads. -/
def contentOf (path : CStr) (calls : LoadCalls) : Content :=
  if path ≠ [] ∧ calls.openFile = vfsSuccess then .ofBytes calls.chunks.flatten
  else ⟨[], [], false⟩

/-- There is always a line. -/
def startLines (path : CStr) (calls : LoadCalls) : List CStr :=
  if (contentOf path calls).lines = [] then [[]] else (contentOf path calls).lines

/-- A text with the cursor in front of it. -/
def atStart (ls : List CStr) : Text UInt8 := ⟨[], [], ls.headD [], ls.tail⟩

/-- The loop holds what was read. -/
structure Reads (e : Editor) (s : Loading) (a : Content) : Prop
    extends HasLines s.editor a.lines where
  len : s.lineLen = a.part.length
  part_lt : a.part.length < lineLength
  part : ∀ i, i < a.part.length → a.part[i]? = some (s.lineBuf i)
  truncated : s.truncated = a.truncated
  rest : s.editor = { e with buffer := s.editor.buffer, lineCount := s.editor.lineCount }

section

variable {e : Editor} {s : Loading} {a : Content} {ls : List CStr} {b : Bool}

/-- Characters of a line join those that were read of it, as far as there is room. -/
theorem chars_take : ∀ {l part : CStr}, newline ∉ l → carriageReturn ∉ l →
    part.length < lineLength →
    l.foldl Content.char ⟨ls, part, b⟩ = ⟨ls, (part ++ l).take (lineLength - 1), b⟩
  | [], part, _, _, hlt => by
    rw [List.append_nil, List.foldl_nil, List.take_of_length_le (Nat.le_sub_one_of_lt hlt)]
  | c :: l, part, hnl, hcr, hlt => by
    rw [List.mem_cons, not_or] at hnl hcr
    obtain ⟨hc, hnl⟩ := hnl
    obtain ⟨hc', hcr⟩ := hcr
    rw [List.foldl_cons, Content.char, if_neg (Ne.symm hc'), if_neg (Ne.symm hc)]
    by_cases hroom : part.length < lineLength - 1
    · have hlt' : (part ++ [c]).length < lineLength := by
        rw [List.length_append, List.length_singleton]
        omega
      rw [if_pos hroom, chars_take hnl hcr hlt', List.append_assoc]
      rfl
    · have hfull : lineLength - 1 ≤ part.length := Nat.le_of_not_lt hroom
      rw [if_neg hroom, chars_take hnl hcr hlt, List.take_append_of_le_length hfull,
        List.take_append_of_le_length hfull]

theorem chars_line {l : CStr} (hnl : newline ∉ l) (hcr : carriageReturn ∉ l) :
    l.foldl Content.char ⟨ls, [], b⟩ = ⟨ls, l.take (lineLength - 1), b⟩ :=
  chars_take hnl hcr (show ([] : CStr).length < lineLength by decide)

theorem finishLine_reads (h : Reads e s a) :
    ∃ s', s.finishLine = some s' ∧ Reads e { s' with lineLen := 0 } a.finish := by
  have hlen := h.len
  have hlt := h.part_lt
  have hcount := h.count
  have hpos : 0 < lineLength := by decide
  have hwrite : write lineLength s.lineBuf s.lineLen 0 =
      some (Function.update s.lineBuf s.lineLen 0) := write_eq (by omega)
  rw [Loading.finishLine, hwrite, Option.bind_eq_bind, Option.bind_some, Content.finish]
  by_cases hroom : a.lines.length < maxLines
  · have hlines := h.toHasLines
    have hline : RowHolds (Function.update s.lineBuf s.lineLen 0) (a.part.takeWhile (· ≠ 0)) := by
      refine holds_takeWhile hlt (fun i hi => ?_) ?_
      · rw [Function.update_of_ne (by omega), h.part i hi]
      · rw [hlen, Function.update_self]
    rw [if_pos hroom, if_pos (by omega)]
    simp only [hlines.row_count hroom, hlines.setRow_count hroom, Option.bind_eq_bind,
      Option.bind_some, Option.pure_def]
    refine ⟨_, rfl, hlines.concat hroom (hline.copyLine _) rfl rfl, rfl, hpos,
      fun i hi => absurd hi (Nat.not_lt_zero i), h.truncated, ?_⟩
    show (⟨_, _, _, _, _, _, _, _, _⟩ : Editor) = _
    rw [h.rest]
  · rw [if_neg hroom, if_neg (by omega)]
    exact ⟨_, rfl, h.toHasLines, rfl, hpos, fun i hi => absurd hi (Nat.not_lt_zero i), rfl, h.rest⟩

theorem loadChar_reads (h : Reads e s a) (c : UInt8) :
    ∃ s', s.loadChar c = some s' ∧ Reads e s' (a.char c) := by
  have hlen := h.len
  have hlt := h.part_lt
  rw [Loading.loadChar, Content.char]
  by_cases hcr : c = carriageReturn
  · rw [if_pos hcr, if_pos hcr]
    exact ⟨s, rfl, h⟩
  rw [if_neg hcr, if_neg hcr]
  by_cases hnl : c = newline
  · obtain ⟨s', hs', hr⟩ := finishLine_reads h
    rw [if_pos hnl, if_pos hnl, hs']
    exact ⟨_, rfl, hr⟩
  rw [if_neg hnl, if_neg hnl]
  by_cases hfull : a.part.length < lineLength - 1
  · rw [if_pos hfull, if_pos (by omega), write_eq (by omega)]
    refine ⟨_, rfl, h.toHasLines, ?_, ?_, fun i hi => ?_, h.truncated, h.rest⟩
    · rw [List.length_append, hlen]
      rfl
    · rw [List.length_append, List.length_singleton]
      omega
    · rw [List.length_append, List.length_singleton] at hi
      show _ = some (Function.update s.lineBuf s.lineLen c i)
      by_cases hi' : i < a.part.length
      · rw [List.getElem?_append_left hi', h.part i hi', Function.update_of_ne (by omega)]
      · rw [show i = a.part.length by omega, List.getElem?_concat_length, hlen,
          Function.update_self]
  · rw [if_neg hfull, if_neg (by omega)]
    exact ⟨s, rfl, h⟩

theorem loadChunks_eq : ∀ (chunks : List CStr) (s : Loading),
    chunks.foldlM Loading.loadChunk s = chunks.flatten.foldlM Loading.loadChar s
  | [], _ => rfl
  | chunk :: chunks, s => by
    rw [List.foldlM_cons, List.flatten_cons, List.foldlM_append, Loading.loadChunk]
    congr
    funext s'
    exact loadChunks_eq chunks s'

theorem loadChars_reads : ∀ (bytes : CStr) {s : Loading} {a : Content}, Reads e s a →
    ∃ s', bytes.foldlM Loading.loadChar s = some s' ∧ Reads e s' (bytes.foldl Content.char a)
  | [], s, a, h => ⟨s, rfl, h⟩
  | c :: bytes, s, a, h => by
    obtain ⟨s₁, h₁, hr⟩ := loadChar_reads h c
    rw [List.foldlM_cons, h₁, Option.bind_eq_bind, Option.bind_some, List.foldl_cons]
    exact loadChars_reads bytes hr

theorem load_reads (h : e.lineCount = 0) (lineBuf : Row) (chunks : List CStr) :
    ∃ s', Loading.load ⟨e, lineBuf, 0, false⟩ chunks = some s' ∧
      HasLines s'.editor (Content.ofBytes chunks.flatten).lines ∧
      s'.truncated = (Content.ofBytes chunks.flatten).truncated ∧
      s'.editor = { e with buffer := s'.editor.buffer, lineCount := s'.editor.lineCount } := by
  have hempty : Reads e ⟨e, lineBuf, 0, false⟩ ⟨[], [], false⟩ :=
    ⟨⟨h, Nat.zero_le _, trivial⟩, rfl, Nat.zero_lt_succ _,
      fun i hi => absurd hi (Nat.not_lt_zero i), rfl, rfl⟩
  obtain ⟨s₁, h₁, hr⟩ := loadChars_reads chunks.flatten hempty
  rw [Loading.load, loadChunks_eq, h₁, Option.bind_eq_bind, Option.bind_some, Content.ofBytes]
  generalize chunks.flatten.foldl Content.char ⟨[], [], false⟩ = a at hr
  have hiff : (0 < s₁.lineLen ∨ s₁.editor.lineCount = 0) ↔ (0 < a.part.length ∨ a.lines = []) := by
    rw [hr.len, hr.count, Int.natCast_eq_zero, List.length_eq_zero_iff]
  by_cases hlast : 0 < a.part.length ∨ a.lines = []
  · obtain ⟨s₂, h₂, hr₂⟩ := finishLine_reads hr
    simp only [if_pos hlast, if_pos (hiff.mpr hlast)]
    exact ⟨s₂, h₂, hr₂.toHasLines, hr₂.truncated, hr₂.rest⟩
  · simp only [if_neg hlast, if_neg (mt hiff.mp hlast)]
    exact ⟨s₁, rfl, hr.toHasLines, hr.truncated, hr.rest⟩

/-- What opening a file leaves as it was. -/
structure Opened (e e' : Editor) : Prop where
  active : e'.active = e.active
  path : e'.path = e.path

theorem openPath_opened (h : e.lineCount = 0) (calls : LoadCalls) (lineBuf : Row) :
    ∃ e', e.openPath calls lineBuf = some (e', (contentOf e.path calls).truncated) ∧
      HasLines e' (contentOf e.path calls).lines ∧ Opened e e' ∧
      (calls.openFile = vfsSuccess → e'.statusMessage = e.statusMessage) := by
  have hnone : HasLines e [] := ⟨h, Nat.zero_le _, trivial⟩
  rw [Editor.openPath]
  by_cases hp : e.path = []
  · rw [if_pos hp, contentOf, if_neg (not_and_of_not_left _ (not_not.mpr hp))]
    exact ⟨e, rfl, hnone, ⟨rfl, rfl⟩, fun _ => rfl⟩
  rw [if_neg hp]
  by_cases ho : calls.openFile = vfsSuccess
  · obtain ⟨s, hs, hlines, htrunc, hrest⟩ := load_reads h lineBuf calls.chunks
    rw [if_pos ho, contentOf, if_pos ⟨hp, ho⟩, hs, ← htrunc]
    refine ⟨_, rfl, hlines, ?_, fun _ => ?_⟩
    · rw [hrest]
      exact ⟨rfl, rfl⟩
    · rw [hrest]
  rw [if_neg ho, contentOf, if_neg (not_and_of_not_right _ ho)]
  by_cases hn : calls.openFile = vfsNotFound
  · rw [if_pos hn]
    by_cases hc : calls.create = vfsSuccess
    · rw [if_pos hc]
      exact ⟨e, rfl, hnone, ⟨rfl, rfl⟩, fun _ => rfl⟩
    · rw [if_neg hc]
      exact ⟨_, rfl, ⟨h, Nat.zero_le _, trivial⟩, ⟨rfl, rfl⟩, fun h => absurd h ho⟩
  · rw [if_neg hn]
    exact ⟨e, rfl, hnone, ⟨rfl, rfl⟩, fun _ => rfl⟩

theorem firstLine_opened {ls : List CStr} (h : HasLines e ls) :
    ∃ e', e.firstLine = some e' ∧ HasLines e' (if ls = [] then [[]] else ls) ∧ Opened e e' ∧
      e'.statusMessage = e.statusMessage := by
  have hcount := h.count
  rw [Editor.firstLine]
  by_cases hls : ls = []
  · subst hls
    have hcount : e.lineCount = 0 := h.count
    have hzero : 0 < maxLines := Nat.zero_lt_succ _
    have hrow : e.row 0 = some (e.buffer 0) := row_eq hzero
    have hset := setRow_eq (e := e) hzero
    rw [Nat.cast_zero] at hset
    rw [if_pos rfl, if_pos hcount, hrow]
    simp only [write_eq (show 0 < lineLength from Nat.zero_lt_succ _), hset, Option.bind_eq_bind,
      Option.bind_some, Option.pure_def]
    refine ⟨_, rfl, h.concat hzero (Holds.nil (Nat.zero_lt_succ _) (Function.update_self _ _ _)) rfl
      ?_, ⟨rfl, rfl⟩, rfl⟩
    rw [hcount]
    rfl
  · have hpos := List.length_pos_iff.mpr hls
    rw [if_neg hls, if_neg (by omega)]
    exact ⟨e, rfl, h, ⟨rfl, rfl⟩, rfl⟩

theorem startLines_ne_nil (path : CStr) (calls : LoadCalls) : startLines path calls ≠ [] := by
  rw [startLines]
  by_cases h : (contentOf path calls).lines = []
  · rw [if_pos h]
    exact List.cons_ne_nil _ _
  · rw [if_neg h]
    exact h

theorem lines_atStart {ls : List CStr} (h : ls ≠ []) : (atStart ls).lines = ls := by
  obtain ⟨l, ls, rfl⟩ := List.exists_cons_of_ne_nil h
  rfl

/-- **`start` shows the lines of the file**, whatever the editor was before. -/
theorem start_shows (e : Editor) (path : Option CStr) (calls : LoadCalls) (lineBuf : Row) :
    ∃ e', e.start path calls lineBuf = some e' ∧
      Shows e' (atStart (startLines ((path.getD []).take (maxPath - 1)) calls)) ∧
      e'.active = true ∧ InView e' ∧
      (calls.openFile = vfsSuccess → e'.statusMessage =
        if (contentOf ((path.getD []).take (maxPath - 1)) calls).truncated then
          ascii "File truncated in editor view" else []) := by
  generalize hp : (path.getD []).take (maxPath - 1) = p
  obtain ⟨e₁, h₁, hl₁, ho₁, hm₁⟩ := openPath_opened (e := { e with
    active := true, statusMessage := [], path := p, filename := Editor.filenameOf p,
    lineCount := 0 }) rfl calls lineBuf
  obtain ⟨e₂, h₂, hl₂, ho₂, hm₂⟩ := firstLine_opened hl₁
  have hlines : (atStart (startLines p calls)).lines = startLines p calls :=
    lines_atStart (startLines_ne_nil p calls)
  generalize hm : (if (contentOf p calls).truncated then
    e₂.setStatusMessage (ascii "File truncated in editor view") else e₂) = e₃
  have hshows : Shows { e₃ with cursorLine := 0, cursorCol := 0, viewportOffset := 0 }
      (atStart (startLines p calls)) := by
    refine ⟨?_, rfl, rfl⟩
    rw [hlines, ← hm]
    split
    · exact ⟨hl₂.count, hl₂.count_le, hl₂.rows⟩
    · exact ⟨hl₂.count, hl₂.count_le, hl₂.rows⟩
  obtain ⟨v, hr, hs, hin⟩ := render_shows hshows (Int.le_refl 0)
  refine ⟨_, ?_, hs, ?_, hin, fun hopen => ?_⟩
  · rw [Editor.start]
    simp only [hp, h₁, h₂, Option.bind_eq_bind, Option.bind_some]
    rw [← hr, ← hm]
  · show e₃.active = true
    have hactive : e₂.active = true := by rw [ho₂.active, ho₁.active]
    rw [← hm]
    split
    · exact hactive
    · exact hactive
  · show e₃.statusMessage = _
    rw [← hm]
    split
    · rfl
    · rw [hm₂, hm₁ hopen]

end

end ContinuumOS.TextEditor.Opening
