import ContinuumOS.TextEditor.AsText

/-! # Text that does not fit

A file may have more lines than the buffer, and longer ones than a row. For the
first `start` leaves a message; of a line that is too long it drops the end. -/
namespace ContinuumOS.TextEditor.Truncating
open ContinuumOS.Libc.String
open ContinuumOS.TextEditor.Model ContinuumOS.TextEditor.Opening
open ContinuumOS.TextEditor.Sessions ContinuumOS.TextEditor.AsText

/-- A text without one newline at its end. -/
def withoutNewline (text : CStr) : CStr :=
  if text.getLast? = some newline then text.dropLast else text

/-- The text of a file: its content without carriage returns and without one final
newline. -/
def plainText (content : CStr) : CStr := withoutNewline (content.filter (· ≠ carriageReturn))

/-- The lines of that text. -/
def fileLines (content : CStr) : List CStr := (plainText content).splitOn newline

/-- As much of a line as a row has room for. -/
def cut (l : CStr) : CStr := l.take (lineLength - 1)

/-- The editor has the whole text, or says that it has not. -/
def Tells (e : Editor) (content : CStr) : Prop :=
  joinedText e = plainText content ∨ e.statusMessage = ascii "File truncated in editor view"

/-- A line as the loop reads it. -/
structure Readable (l : CStr) : Prop where
  newline : newline ∉ l
  carriageReturn : carriageReturn ∉ l
  nul : 0 ∉ l

section

variable {ls qs : List CStr} {l content text : CStr} {b : Bool}

/-! ## What is read -/

theorem take_take_append {α : Type} (xs ys : List α) (m : Nat) :
    (xs.take m ++ ys).take m = (xs ++ ys).take m := by
  rw [List.take_append, List.take_append, List.take_take, Nat.min_self, List.length_take]
  congr 2
  omega

theorem finish_cut (h : Readable l) (hlen : ls.length ≤ maxLines) :
    (⟨ls, cut l, b⟩ : Content).finish =
      ⟨(ls ++ [cut l]).take maxLines, [], b || decide (maxLines < ls.length + 1)⟩ := by
  have hwhole : (cut l).takeWhile (· ≠ 0) = cut l := List.takeWhile_eq_self_iff.mpr fun c hc =>
    decide_eq_true fun hz => h.nul (hz ▸ List.mem_of_mem_take hc)
  rw [Content.finish, hwhole]
  by_cases hroom : ls.length < maxLines
  · rw [if_pos hroom, List.take_of_length_le (by rw [List.length_append]; exact hroom),
      decide_eq_false (by omega), Bool.or_false]
  · have hfull : maxLines ≤ ls.length := Nat.le_of_not_lt hroom
    rw [if_neg hroom, List.take_append_of_le_length hfull, List.take_of_length_le hlen,
      decide_eq_true (Nat.lt_succ_of_le hfull), Bool.or_true]

/-- Lines with newlines between them are read as far as there is room for them. -/
theorem lines_finish : ∀ {qs ls : List CStr} {b : Bool}, qs ≠ [] → (∀ l ∈ qs, Readable l) →
    ls.length ≤ maxLines →
    (([newline].intercalate qs).foldl Content.char ⟨ls, [], b⟩).finish =
      ⟨(ls ++ qs.map cut).take maxLines, [], b || decide (maxLines < ls.length + qs.length)⟩
  | [], _, _, hne, _, _ => absurd rfl hne
  | [q], ls, b, _, hq, hlen => by
    have hq := hq q List.mem_cons_self
    rw [List.intercalate_singleton, chars_line hq.newline hq.carriageReturn]
    exact finish_cut hq hlen
  | q :: q' :: rest, ls, b, _, hq, hlen => by
    have hlen' : ((ls ++ [cut q]).take maxLines).length ≤ maxLines := List.length_take_le _ _
    have ih := lines_finish (b := b || decide (maxLines < ls.length + 1))
      (List.cons_ne_nil q' rest) (fun l hl => hq l (List.mem_cons_of_mem _ hl)) hlen'
    have hq := hq q List.mem_cons_self
    rw [List.intercalate_cons_cons, List.foldl_append, List.foldl_append,
      chars_line hq.newline hq.carriageReturn, List.foldl_cons, List.foldl_nil, Content.char,
      if_neg (by decide), if_pos rfl]
    rw [show (q.take (lineLength - 1)) = cut q from rfl, finish_cut hq hlen, ih,
      take_take_append, List.append_assoc, Bool.or_assoc]
    congr 2
    rw [← Bool.decide_or]
    simp only [List.length_take, List.length_append, List.length_cons, List.length_nil]
    exact decide_eq_decide.mpr (by omega)

theorem chars_filter : ∀ (content : CStr) (a : Content),
    content.foldl Content.char a = (content.filter (· ≠ carriageReturn)).foldl Content.char a
  | [], _ => rfl
  | c :: content, a => by
    by_cases hc : c = carriageReturn
    · rw [List.foldl_cons, Content.char, if_pos hc, List.filter_cons_of_neg (by simpa using hc),
        chars_filter content a]
    · rw [List.foldl_cons, List.filter_cons_of_pos (by simpa using hc), List.foldl_cons,
        chars_filter content]

theorem mem_splitOn : ∀ {text l : CStr}, l ∈ text.splitOn newline → newline ∉ l ∧ l ⊆ text
  | [], l, hl => by
    rw [List.splitOn_nil, List.mem_singleton] at hl
    subst hl
    exact ⟨List.not_mem_nil, fun _ hc => hc⟩
  | x :: text, l, hl => by
    rw [List.splitOn_cons_eq_if_modifyHead] at hl
    by_cases hx : x = newline
    · rw [if_pos (beq_iff_eq.mpr hx), List.mem_cons] at hl
      rcases hl with rfl | hl
      · exact ⟨List.not_mem_nil, List.nil_subset _⟩
      · obtain ⟨hnl, hsub⟩ := mem_splitOn hl
        exact ⟨hnl, List.subset_cons_of_subset x hsub⟩
    · obtain ⟨first, rest, hrest⟩ := List.exists_cons_of_ne_nil (List.splitOn_ne_nil newline text)
      have hmem : ∀ m ∈ first :: rest, newline ∉ m ∧ m ⊆ text := fun m hm =>
        mem_splitOn (hrest ▸ hm)
      rw [if_neg (mt beq_iff_eq.mp hx), hrest, List.modifyHead_cons, List.mem_cons] at hl
      rcases hl with rfl | hl
      · obtain ⟨hnl, hsub⟩ := hmem first List.mem_cons_self
        refine ⟨fun hc => ?_, List.cons_subset_cons x hsub⟩
        rcases List.mem_cons.mp hc with he | hc
        · exact hx he.symm
        · exact hnl hc
      · obtain ⟨hnl, hsub⟩ := hmem l (List.mem_cons_of_mem _ hl)
        exact ⟨hnl, List.subset_cons_of_subset x hsub⟩

theorem plainText_sublist :
    (plainText content).Sublist (content.filter (· ≠ carriageReturn)) := by
  rw [plainText, withoutNewline]
  split
  · exact List.dropLast_sublist _
  · exact List.Sublist.refl _

theorem readable_fileLines (h : 0 ∉ content) (hl : l ∈ fileLines content) : Readable l := by
  obtain ⟨hnl, hsub⟩ := mem_splitOn hl
  have hmem : ∀ c ∈ l, c ∈ content ∧ c ≠ carriageReturn := fun c hc => by
    have hfilter := plainText_sublist.subset (hsub hc)
    rw [List.mem_filter, decide_eq_true_eq] at hfilter
    exact hfilter
  exact ⟨hnl, fun hc => (hmem _ hc).2 rfl, fun hc => h (hmem _ hc).1⟩

theorem intercalate_fileLines : [newline].intercalate (fileLines content) = plainText content :=
  List.intercalate_splitOn newline

theorem fileLines_ne_nil : fileLines content ≠ [] := List.splitOnP_ne_nil _ _

theorem char_part {a : Content} {c : UInt8} (hnl : c ≠ newline) (hcr : c ≠ carriageReturn) :
    0 < (a.char c).part.length := by
  rw [Content.char, if_neg hcr, if_neg hnl]
  split
  · rw [List.length_append, List.length_singleton]
    exact Nat.zero_lt_succ _
  · rename_i hfull
    have hpos : 0 < lineLength - 1 := by decide
    omega

theorem finish_lines (a : Content) : a.finish.lines ≠ [] := by
  rw [Content.finish]
  split
  · exact List.append_ne_nil_of_right_ne_nil _ (List.cons_ne_nil _ _)
  · rename_i hfull
    have hpos : 0 < maxLines := by decide
    refine List.ne_nil_of_length_pos ?_
    show 0 < a.lines.length
    omega

theorem finish_part (a : Content) : a.finish.part = [] := by
  rw [Content.finish]
  split <;> rfl

theorem char_newline (a : Content) : a.char newline = a.finish := by
  rw [Content.char, if_neg (by decide), if_pos rfl]

theorem ofBytes_finish : Content.ofBytes content =
    ((plainText content).foldl Content.char ⟨[], [], false⟩).finish := by
  have hcr : ∀ c ∈ content.filter (· ≠ carriageReturn), c ≠ carriageReturn := fun c hc =>
    decide_eq_true_eq.mp (List.mem_filter.mp hc).2
  rw [Content.ofBytes, chars_filter, plainText]
  generalize content.filter (· ≠ carriageReturn) = text at hcr
  rw [withoutNewline]
  rcases List.eq_nil_or_concat' text with rfl | ⟨init, c, rfl⟩
  · rfl
  rw [List.getLast?_concat, List.foldl_concat, List.dropLast_concat]
  by_cases hnl : c = newline
  · subst hnl
    rw [if_pos rfl, char_newline]
    refine if_neg fun h => ?_
    rcases h with h | h
    · rw [finish_part] at h
      exact Nat.not_lt_zero _ h
    · exact finish_lines _ h
  · have hc := hcr c (List.mem_append_right _ List.mem_cons_self)
    rw [if_neg (fun he => hnl (Option.some.inj he)), if_pos (.inl (char_part hnl hc)),
      List.foldl_concat]

/-- **A file is read line by line**, each as far as a row has room and as many as the
buffer has room for. -/
theorem ofBytes_eq (h : 0 ∉ content) : Content.ofBytes content =
    ⟨((fileLines content).map cut).take maxLines, [],
      decide (maxLines < (fileLines content).length)⟩ := by
  have hempty : ([] : List CStr).length ≤ maxLines := Nat.zero_le _
  have hlines := lines_finish (b := false) fileLines_ne_nil
    (fun l hl => readable_fileLines h hl) hempty
  rw [ofBytes_finish, ← intercalate_fileLines, hlines, List.nil_append, List.length_nil,
    Nat.zero_add, Bool.false_or]

/-! ## What the editor shows -/

theorem contentOf_eq {path : CStr} {calls : LoadCalls} (hp : path ≠ [])
    (ho : calls.openFile = vfsSuccess) (hn : 0 ∉ calls.chunks.flatten) :
    contentOf (path.take (maxPath - 1)) calls =
      ⟨((fileLines calls.chunks.flatten).map cut).take maxLines, [],
        decide (maxLines < (fileLines calls.chunks.flatten).length)⟩ := by
  obtain ⟨c, path, rfl⟩ := List.exists_cons_of_ne_nil hp
  rw [contentOf, if_pos ⟨List.cons_ne_nil _ _, ho⟩, ofBytes_eq hn]

theorem cut_eq_iff : cut l = l ↔ l.length < lineLength := by
  have hpos : 0 < lineLength := by decide
  refine ⟨fun h => ?_, fun h => List.take_of_length_le (Nat.le_sub_one_of_lt h)⟩
  have hlen := congrArg List.length h
  rw [cut, List.length_take] at hlen
  omega

theorem intercalate_cut_iff (h : 0 ∉ content) :
    [newline].intercalate ((fileLines content).map cut) = plainText content ↔
      ∀ l ∈ fileLines content, l.length < lineLength := by
  have hnl : ∀ l ∈ (fileLines content).map cut, newline ∉ l := fun l hl hc => by
    obtain ⟨m, hm, rfl⟩ := List.mem_map.mp hl
    exact (readable_fileLines h hm).newline (List.mem_of_mem_take hc)
  rw [← intercalate_fileLines]
  refine ⟨fun heq l hl => ?_, fun hall => ?_⟩
  · have hsplit := congrArg (List.splitOn newline) heq
    rw [List.splitOn_intercalate _ hnl (mt List.map_eq_nil_iff.mp fileLines_ne_nil),
      List.splitOn_intercalate _ (fun l hl => (readable_fileLines h hl).newline)
        fileLines_ne_nil] at hsplit
    exact cut_eq_iff.mp (List.map_inj_left.mp (hsplit.trans (List.map_id _).symm) l hl)
  · rw [List.map_congr_left fun l hl => cut_eq_iff.mpr (hall l hl), List.map_id']

/-- **Loading loses no text silently** exactly when the file has too many lines, of
which `start` tells, or no line that is too long. -/
theorem start_tells_iff (e : Editor) {path : CStr} {calls : LoadCalls} (hp : path ≠ [])
    (ho : calls.openFile = vfsSuccess) (hn : 0 ∉ calls.chunks.flatten) (lineBuf : Row) :
    (∃ e', e.start (some path) calls lineBuf = some e' ∧ Tells e' calls.chunks.flatten) ↔
      maxLines < (fileLines calls.chunks.flatten).length ∨
        ∀ l ∈ fileLines calls.chunks.flatten, l.length < lineLength := by
  obtain ⟨e', he', hshows, -, -, hmsg⟩ := start_shows e (some path) calls lineBuf
  have hmsg := hmsg ho
  have hne : ((fileLines calls.chunks.flatten).map cut).take maxLines ≠ [] := fun hnil =>
    (List.take_eq_nil_iff.mp hnil).elim (by decide) (mt List.map_eq_nil_iff.mp fileLines_ne_nil)
  have hlines : startLines (path.take (maxPath - 1)) calls =
      ((fileLines calls.chunks.flatten).map cut).take maxLines := by
    rw [startLines, contentOf_eq hp ho hn]
    exact if_neg hne
  rw [Option.getD_some, contentOf_eq hp ho hn] at hmsg
  rw [Option.getD_some, hlines] at hshows
  have hjoined : joinedText e' =
      [newline].intercalate (((fileLines calls.chunks.flatten).map cut).take maxLines) := by
    rw [joinedText, textLines_eq hshows.toHasLines, lines_atStart hne]
  have hiff := intercalate_cut_iff hn
  by_cases hmany : maxLines < (fileLines calls.chunks.flatten).length
  · rw [if_pos (decide_eq_true hmany)] at hmsg
    exact ⟨fun _ => .inl hmany, fun _ => ⟨e', he', .inr hmsg⟩⟩
  · rw [List.take_of_length_le (by rw [List.length_map]; omega)] at hjoined
    rw [if_neg (by rw [decide_eq_true_eq]; exact hmany)] at hmsg
    rw [or_iff_right hmany, ← hiff, ← hjoined]
    refine ⟨fun htells => ?_, fun hwhole => ⟨e', he', .inl hwhole⟩⟩
    obtain ⟨e'', he'', hwhole | hsays⟩ := htells
    · rwa [Option.some.inj (he'.symm.trans he'')]
    · rw [← Option.some.inj (he'.symm.trans he''), hmsg] at hsays
      exact absurd hsays (by decide)

end

/-! ## Runs -/

/-- Two lines, the second without an end, in two chunks. -/
theorem start_tells_example : ∃ e,
    blank.start (some (ascii "/f")) ⟨vfsSuccess, [ascii "a", newline :: ascii "b"], 0⟩
      (fun _ => 0) = some e ∧ Tells e (ascii "a" ++ newline :: ascii "b") :=
  (start_tells_iff blank (by decide) rfl (by decide) _).mpr (.inr (by decide))

/-- One line of 128 characters: the last one is gone, and nothing says so. -/
theorem long_line_cut_silently :
    ¬ ∃ e, blank.start (some (ascii "/f")) ⟨vfsSuccess, [List.replicate 128 97], 0⟩
      (fun _ => 0) = some e ∧ Tells e (List.replicate 128 97) := by
  have hstart : (blank.start (some (ascii "/f")) ⟨vfsSuccess, [List.replicate 128 97], 0⟩
      (fun _ => 0)).map (fun e => (joinedText e, e.statusMessage)) =
      some (List.replicate 127 97, []) := by decide +kernel
  intro h
  obtain ⟨e, he, htells⟩ := h
  rw [he, Option.map_some, Option.some_inj, Prod.mk.injEq] at hstart
  obtain ⟨hjoined, hmsg⟩ := hstart
  rcases htells with hwhole | hsays
  · rw [hjoined] at hwhole
    exact absurd hwhole (by decide +kernel)
  · rw [hmsg] at hsays
    exact absurd hsays (by decide)

end ContinuumOS.TextEditor.Truncating
