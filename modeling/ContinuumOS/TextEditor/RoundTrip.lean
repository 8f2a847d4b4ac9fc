import ContinuumOS.TextEditor.Saving
import ContinuumOS.TextEditor.Opening

/-! # Saving and opening again

The bytes that `exit` writes are read back as the lines that were saved. -/
namespace ContinuumOS.TextEditor.RoundTrip
open ContinuumOS.Lib.Terminated ContinuumOS.Libc.String
open ContinuumOS.TextEditor.Model ContinuumOS.TextEditor.View ContinuumOS.TextEditor.Saving
open ContinuumOS.TextEditor.Opening

/-- A line that comes back as it was. -/
structure Plain (l : CStr) : Prop where
  length_lt : l.length < lineLength
  nul : 0 ∉ l
  newline : newline ∉ l
  carriageReturn : carriageReturn ∉ l

section

variable {e e' : Editor} {l part : CStr} {ls ms : List CStr}

theorem line_eq {b : Bool} (h : Plain l) (hroom : ls.length < maxLines) :
    (l ++ [newline]).foldl Content.char ⟨ls, [], b⟩ = ⟨ls ++ [l], [], b⟩ := by
  have hlen : l.take (lineLength - 1) = l :=
    List.take_of_length_le (Nat.le_sub_one_of_lt h.length_lt)
  have hwhole : l.takeWhile (· ≠ 0) = l := List.takeWhile_eq_self_iff.mpr fun c hc =>
    decide_eq_true fun hz => h.nul (hz ▸ hc)
  rw [List.foldl_append, chars_line h.newline h.carriageReturn, hlen, List.foldl_cons,
    List.foldl_nil, Content.char, if_neg (by decide), if_pos rfl, Content.finish, if_pos hroom,
    hwhole]

theorem fileOf_eq {b : Bool} : ∀ {ls ms : List CStr}, (∀ l ∈ ls, Plain l) →
    ms.length + ls.length ≤ maxLines →
    (fileOf ls).foldl Content.char ⟨ms, [], b⟩ = ⟨ms ++ ls, [], b⟩
  | [], ms, _, _ => by
    rw [fileOf, List.flatMap_nil, List.foldl_nil, List.append_nil]
  | l :: ls, ms, hp, hlen => by
    obtain ⟨hl, hp⟩ := List.forall_mem_cons.mp hp
    rw [List.length_cons] at hlen
    have hlen' : (ms ++ [l]).length + ls.length ≤ maxLines := by
      rw [List.length_append, List.length_singleton]
      omega
    rw [fileOf, List.flatMap_cons, List.foldl_append, line_eq hl (by omega)]
    rw [← fileOf, fileOf_eq hp hlen', List.append_assoc]
    rfl

theorem ofBytes_fileOf (hp : ∀ l ∈ ls, Plain l) (hlen : ls.length ≤ maxLines) (hne : ls ≠ []) :
    Content.ofBytes (fileOf ls) = ⟨ls, [], false⟩ := by
  have hread : (fileOf ls).foldl Content.char ⟨[], [], false⟩ = ⟨[] ++ ls, [], false⟩ :=
    fileOf_eq hp (by rwa [List.length_nil, Nat.zero_add])
  rw [Content.ofBytes, hread]
  refine if_neg fun h => ?_
  rcases h with h | h
  · exact Nat.not_lt_zero _ h
  · exact hne h

theorem rows_mem {b : Nat → Row} : ∀ {k : Nat} {ls : List CStr}, RowsFrom b k ls → l ∈ ls →
    ∃ r, RowHolds r l
  | _, [], _, hl => absurd hl List.not_mem_nil
  | k, m :: ls, h, hl => by
    rcases List.mem_cons.mp hl with rfl | hl
    · exact ⟨_, h.1⟩
    · exact rows_mem h.2 hl

/-- **A text that was saved comes back**, without the empty lines at its end, in
whatever chunks the file is read and whatever the editor was before. -/
theorem start_exit {calls : SaveCalls} {data : CStr} {chunks : List CStr} (h : HasLines e ls)
    (hne : ls ≠ []) (hplain : ∀ l ∈ ls, newline ∉ l ∧ carriageReturn ∉ l)
    (hexit : e.exit true calls = some (e', some data)) (hread : chunks.flatten = data)
    (e₀ : Editor) (create : Int) (lineBuf : Row) :
    ∃ e₁, e₀.start (some e.path) ⟨vfsSuccess, chunks, create⟩ lineBuf = some e₁ ∧
      HasLines e₁ (trimmed ls) ∧ e₁.statusMessage = [] := by
  obtain ⟨_, s, hs, -, hdata⟩ := exit_eq h hne true calls
  rw [hexit, Option.some_inj, Prod.mk.injEq] at hs
  obtain ⟨hpath, rfl⟩ := hdata data hs.2.symm
  have hinit := trimmed_init ls
  have hkept : trimmed ls ≠ [] := trimmed_ne_nil hne
  have hp : ∀ l ∈ trimmed ls, Plain l := by
    intro l hl
    have hl := hinit.subset hl
    obtain ⟨r, hr⟩ := rows_mem h.rows hl
    exact ⟨hr.length_lt, hr.not_mem, (hplain l hl).1, (hplain l hl).2⟩
  have hpath' : e.path.take (maxPath - 1) ≠ [] := by
    obtain ⟨c, path, hc⟩ := List.exists_cons_of_ne_nil hpath
    rw [hc]
    exact List.cons_ne_nil _ _
  have hcontent : contentOf (e.path.take (maxPath - 1)) ⟨vfsSuccess, chunks, create⟩ =
      ⟨trimmed ls, [], false⟩ := by
    rw [contentOf, if_pos ⟨hpath', rfl⟩, hread,
      ofBytes_fileOf hp (Nat.le_trans hinit.length_le h.count_le) hkept]
  have hlines : startLines (e.path.take (maxPath - 1)) ⟨vfsSuccess, chunks, create⟩ =
      trimmed ls := by
    rw [startLines, hcontent]
    exact if_neg hkept
  obtain ⟨e₁, h₁, hshows, -, -, hmsg⟩ := start_shows e₀ (some e.path)
    ⟨vfsSuccess, chunks, create⟩ lineBuf
  rw [Option.getD_some] at hshows hmsg
  have hall := hshows.toHasLines
  rw [hlines, lines_atStart hkept] at hall
  have hmsg := hmsg rfl
  rw [hcontent] at hmsg
  exact ⟨e₁, h₁, hall, hmsg⟩

end

/-! ## A run -/

/-- The lines `a`, an empty one, `b` and another empty one. -/
def fourLines : Editor :=
  { buffer := fun i => if i = 0 then Function.update (fun _ => 0) 0 97
      else if i = 2 then Function.update (fun _ => 0) 0 98 else fun _ => 0
    lineCount := 4, cursorLine := 0, cursorCol := 0, viewportOffset := 0, filename := ascii "f"
    path := ascii "/f", active := true, statusMessage := [] }

theorem rowHolds_singleton {c : UInt8} (hc : c ≠ 0) :
    RowHolds (Function.update (fun _ => 0) 0 c) [c] := by
  refine ⟨show 1 < lineLength by decide, fun i hi => ?_,
    fun hm => hc (List.mem_singleton.mp hm).symm, rfl⟩
  obtain rfl : i = 0 := Nat.lt_one_iff.mp hi
  rw [Function.update_self]
  rfl

theorem hasLines_fourLines : HasLines fourLines [[97], [], [98], []] :=
  ⟨rfl, by decide, rowHolds_singleton (by decide), Holds.nil (by decide) rfl,
    rowHolds_singleton (by decide), Holds.nil (by decide) rfl, trivial⟩

/-- The file comes in three chunks. -/
theorem start_exit_example :
    ∃ e, Editor.start fourLines (some (ascii "/f")) ⟨vfsSuccess, [[97, 10], [10, 98], [10]], 0⟩
      (fun _ => 0) = some e ∧ HasLines e [[97], [], [98]] ∧ e.statusMessage = [] := by
  have hexit : (fourLines.exit true ⟨true, 0, 0, 0, 5⟩).map Prod.snd =
      some (some [97, 10, 10, 98, 10]) := by decide +kernel
  obtain ⟨⟨e', s⟩, hs, rfl⟩ := Option.map_eq_some_iff.mp hexit
  exact start_exit hasLines_fourLines (List.cons_ne_nil _ _) (by decide) hs rfl fourLines 0 _

end ContinuumOS.TextEditor.RoundTrip
