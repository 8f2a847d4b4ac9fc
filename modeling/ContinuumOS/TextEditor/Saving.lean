import Mathlib.Data.List.DropRight
import ContinuumOS.TextEditor.View

/-! # Saving a text

What `exit` writes are the lines without the empty ones at the end, each with a
newline behind it. -/
namespace ContinuumOS.TextEditor.Saving
open ContinuumOS.Lib.Terminated ContinuumOS.Libc.String
open ContinuumOS.TextEditor.Model ContinuumOS.TextEditor.View

/-- The lines without the empty ones at the end; one line stays. -/
def trimmed (ls : List CStr) : List CStr :=
  let kept := ls.rdropWhile (· = [])
  if kept = [] then ls.take 1 else kept

/-- The bytes of the lines in a file. -/
def fileOf (ls : List CStr) : CStr := ls.flatMap (· ++ [newline])

/-- Every call of a save of `total` bytes succeeds. -/
structure Succeeds (calls : SaveCalls) (total : Nat) : Prop where
  kmalloc : calls.kmalloc = true
  remove : calls.remove = vfsSuccess ∨ calls.remove = vfsNotFound
  openFile : calls.openFile = vfsSuccess
  seek : calls.seek = vfsSuccess
  write : calls.write = total

section

variable {e e' : Editor} {l : CStr} {ls ms : List CStr}

/-! ## Empty lines at the end -/

theorem trimmed_singleton (l : CStr) : trimmed [l] = [l] := by
  rw [trimmed, List.rdropWhile_singleton]
  by_cases hl : l = []
  · simp only [hl, decide_true, if_true, List.take_succ_cons, List.take_zero]
  · simp only [hl, decide_false, Bool.false_eq_true, if_false, List.cons_ne_nil]

theorem trimmed_concat_nil (hms : ms ≠ []) : trimmed (ms ++ [[]]) = trimmed ms := by
  have hpos : 1 ≤ ms.length := List.length_pos_iff.mpr hms
  have hkept : (ms ++ [[]]).rdropWhile (· = []) = ms.rdropWhile (· = []) :=
    List.rdropWhile_concat_pos _ _ _ (decide_eq_true rfl)
  rw [trimmed, trimmed, hkept, List.take_append_of_le_length hpos]

theorem trimmed_concat (hl : l ≠ []) : trimmed (ms ++ [l]) = ms ++ [l] := by
  have hkept : (ms ++ [l]).rdropWhile (· = []) = ms ++ [l] :=
    List.rdropWhile_concat_neg _ _ _ (mt of_decide_eq_true hl)
  rw [trimmed, hkept]
  exact if_neg (List.append_ne_nil_of_right_ne_nil _ (List.cons_ne_nil _ _))

theorem trimmed_init (ls : List CStr) : trimmed ls <+: ls := by
  rw [trimmed]
  by_cases h : ls.rdropWhile (· = []) = []
  · rw [if_pos h]
    exact List.take_prefix 1 ls
  · rw [if_neg h]
    exact List.rdropWhile_prefix _ _

theorem trimmed_ne_nil (h : ls ≠ []) : trimmed ls ≠ [] := by
  obtain ⟨l, ls, rfl⟩ := List.exists_cons_of_ne_nil h
  rw [trimmed]
  by_cases hk : (l :: ls).rdropWhile (· = []) = []
  · rw [if_pos hk]
    exact List.cons_ne_nil _ _
  · rw [if_neg hk]
    exact hk

theorem trimmed_append (ls : List CStr) :
    ∃ rest, ls = trimmed ls ++ rest ∧ ∀ l ∈ rest, l = [] := by
  induction ls using List.reverseRecOn with
  | nil => exact ⟨[], rfl, fun _ hl => absurd hl List.not_mem_nil⟩
  | append_singleton ms l ih =>
    by_cases hms : ms = []
    · subst hms
      rw [List.nil_append, trimmed_singleton]
      exact ⟨[], rfl, fun _ hl => absurd hl List.not_mem_nil⟩
    by_cases hl : l = []
    · obtain ⟨rest, hrest, hempty⟩ := ih
      subst hl
      rw [trimmed_concat_nil hms]
      refine ⟨rest ++ [[]], by rw [← List.append_assoc, ← hrest], fun m hm => ?_⟩
      rcases List.mem_append.mp hm with hm | hm
      · exact hempty m hm
      · exact List.mem_singleton.mp hm
    · rw [trimmed_concat hl]
      exact ⟨[], (List.append_nil _).symm, fun _ hl => absurd hl List.not_mem_nil⟩

theorem length_fileOf_pos (h : ls ≠ []) : 0 < (fileOf ls).length := by
  obtain ⟨l, ls, rfl⟩ := List.exists_cons_of_ne_nil h
  rw [fileOf, List.flatMap_cons, List.length_append, List.length_append, List.length_singleton]
  omega

/-! ## The passes over the lines -/

theorem hasLines_of_init (h : HasLines e ls) (hp : ms <+: ls) :
    HasLines { e with lineCount := ms.length } ms := by
  obtain ⟨rest, rfl⟩ := hp
  refine ⟨rfl, Nat.le_trans ?_ h.count_le, (rowsFrom_append.mp h.rows).1⟩
  rw [List.length_append]
  exact Nat.le_add_right _ _

theorem last_row (h : HasLines e (ms ++ [l])) :
    e.row (e.lineCount - 1) = some (e.buffer ms.length) ∧ RowHolds (e.buffer ms.length) l := by
  have hle := h.count_le
  have hcount := h.count
  obtain ⟨-, hlast, -⟩ := rowsFrom_append.mp h.rows
  rw [List.length_append, List.length_singleton] at hle hcount
  rw [Nat.zero_add] at hlast
  refine ⟨?_, hlast⟩
  rw [show e.lineCount - 1 = (ms.length : Int) by omega, row_eq (Nat.lt_of_succ_le hle)]

theorem trimLines_eq : ∀ (left : Nat) {e : Editor} {ls : List CStr}, HasLines e ls → ls ≠ [] →
    ls.length ≤ left + 1 →
    Editor.trimLines left e = some { e with lineCount := (trimmed ls).length }
  | 0, e, ls, h, hne, hlen => by
    obtain ⟨l, rfl⟩ : ∃ l, ls = [l] := List.length_eq_one_iff.mp
      (Nat.le_antisymm hlen (List.length_pos_iff.mpr hne))
    rw [Editor.trimLines, trimmed_singleton, ← h.count]
  | left + 1, e, ls, h, hne, hlen => by
    obtain ⟨ms, l, rfl⟩ := (List.eq_nil_or_concat' ls).resolve_left hne
    have hcount := h.count
    rw [List.length_append, List.length_singleton] at hcount hlen
    obtain ⟨hrow, hlast⟩ := last_row h
    rw [Editor.trimLines]
    by_cases hms : ms = []
    · subst hms
      rw [if_neg (by rw [hcount]; decide), List.nil_append, trimmed_singleton,
        show (([l] : List CStr).length : Int) = e.lineCount from hcount.symm]
    · have hpos := List.length_pos_iff.mpr hms
      rw [if_pos (by omega)]
      simp only [hrow, Option.bind_eq_bind, Option.bind_some, strlen_eq hlast,
        List.length_eq_zero_iff]
      by_cases hl : l = []
      · have hpred : e.lineCount - 1 = (ms.length : Int) := by omega
        rw [if_pos hl, hl, trimmed_concat_nil hms, hpred,
          trimLines_eq left (hasLines_of_init h (List.prefix_append _ _)) hms (by omega)]
      · rw [if_neg hl, trimmed_concat hl, ← h.count]
        rfl

theorem totalLength_eq : ∀ (ls : List CStr) (k : Nat), k + ls.length ≤ maxLines →
    RowsFrom e.buffer k ls → Editor.totalLength e ls.length k = some (fileOf ls).length
  | [], _, _, _ => rfl
  | l :: ls, k, hk, h => by
    rw [List.length_cons] at hk
    have hrest := totalLength_eq ls (k + 1) (by omega) h.2
    rw [List.length_cons, Editor.totalLength, row_eq (by omega)]
    simp only [Option.bind_eq_bind, Option.bind_some, strlen_eq h.1]
    rw [show (k : Int) + 1 = ((k + 1 : Nat) : Int) from rfl, hrest, Option.bind_some, fileOf,
      fileOf, List.flatMap_cons, List.length_append, List.length_append, List.length_singleton]
    rfl

theorem fillData_eq : ∀ (ls : List CStr) (k : Nat) (data : CStr), k + ls.length ≤ maxLines →
    RowsFrom e.buffer k ls → Editor.fillData e ls.length k data = some (data ++ fileOf ls)
  | [], _, _, _, _ => by
    rw [fileOf, List.flatMap_nil, List.append_nil]
    rfl
  | l :: ls, k, data, hk, h => by
    rw [List.length_cons] at hk
    have hrest := fillData_eq ls (k + 1) (data ++ l ++ [newline]) (by omega) h.2
    rw [List.length_cons, Editor.fillData, row_eq (by omega)]
    simp only [Option.bind_eq_bind, Option.bind_some, strlen_eq h.1, textOf_eq h.1]
    rw [show (k : Int) + 1 = ((k + 1 : Nat) : Int) from rfl, hrest, fileOf, fileOf,
      List.flatMap_cons]
    simp only [List.append_assoc]

/-- The editor after a save. -/
def closed (e : Editor) (ls : List CStr) : Editor :=
  { e with lineCount := (trimmed ls).length, active := false }

theorem hasLines_closed (h : HasLines e ls) : HasLines (closed e ls) (trimmed ls) := by
  have hk := hasLines_of_init h (trimmed_init ls)
  exact ⟨rfl, hk.count_le, hk.rows⟩

/-- **A save writes the lines** without the empty ones at the end, if every call that
it makes succeeds, and nothing otherwise. -/
theorem exit_save (h : HasLines e ls) (hne : ls ≠ []) (hp : e.path ≠ []) (calls : SaveCalls) :
    (Succeeds calls (fileOf (trimmed ls)).length →
      e.exit true calls = some (closed e ls, some (fileOf (trimmed ls)))) ∧
    (¬ Succeeds calls (fileOf (trimmed ls)).length →
      e.exit true calls = some (closed e ls, none)) := by
  have hlen : ls.length ≤ e.lineCount.toNat + 1 := by
    rw [h.count]
    exact Nat.le_succ _
  have hk := hasLines_of_init h (trimmed_init ls)
  have hle := hk.count_le
  have htotal := totalLength_eq (trimmed ls) 0 (by omega) hk.rows
  have hfill := fillData_eq (trimmed ls) 0 [] (by omega) hk.rows
  have hpos := length_fileOf_pos (trimmed_ne_nil hne)
  simp only [Nat.cast_zero, List.nil_append] at htotal hfill
  rw [Editor.exit, if_pos rfl, if_neg hp]
  simp only [trimLines_eq _ h hne hlen, Option.bind_eq_bind, Option.bind_some, Int.toNat_natCast,
    htotal, hfill, Option.pure_def]
  refine ⟨fun hs => ?_, fun hs => ?_⟩
  · have hmem : calls.kmalloc ≠ false := by
      rw [hs.kmalloc]
      exact Bool.noConfusion
    have hremove : ¬ (calls.remove ≠ vfsSuccess ∧ calls.remove ≠ vfsNotFound) := fun hr =>
      hs.remove.elim hr.1 hr.2
    rw [if_neg (not_and_of_not_right _ hmem), if_neg hremove, if_neg (not_not.mpr hs.openFile),
      if_neg (not_not.mpr hs.seek), if_neg (not_and_of_not_right _ (not_not.mpr hs.write))]
    rfl
  split
  · rfl
  rename_i hmem
  split
  · rfl
  rename_i hremove
  split
  · rfl
  rename_i hopen
  split
  · rfl
  rename_i hseek
  split
  · rfl
  rename_i hwrite
  refine absurd ⟨?_, ?_, not_not.mp hopen, not_not.mp hseek, ?_⟩ hs
  · exact Bool.eq_true_of_not_eq_false fun hf => hmem ⟨hpos, hf⟩
  · exact or_iff_not_and_not.mpr hremove
  · exact not_not.mp fun hw => hwrite ⟨hpos, hw⟩

/-- **`exit` ends the editor**, and a file that it writes has the lines without the
empty ones at the end. -/
theorem exit_eq (h : HasLines e ls) (hne : ls ≠ []) (save : Bool) (calls : SaveCalls) :
    ∃ e' s, e.exit save calls = some (e', s) ∧ e'.active = false ∧
      ∀ data, s = some data → e.path ≠ [] ∧ data = fileOf (trimmed ls) := by
  have hnone : ∀ data : CStr, none = some data → e.path ≠ [] ∧ data = fileOf (trimmed ls) :=
    fun data hd => absurd hd.symm (Option.some_ne_none data)
  by_cases hs : save = true
  swap
  · rw [Editor.exit, if_neg hs]
    exact ⟨_, _, rfl, rfl, hnone⟩
  subst hs
  by_cases hp : e.path = []
  · rw [Editor.exit, if_pos rfl, if_pos hp]
    exact ⟨_, _, rfl, rfl, hnone⟩
  obtain ⟨hgood, hbad⟩ := exit_save h hne hp calls
  by_cases hsucc : Succeeds calls (fileOf (trimmed ls)).length
  · exact ⟨_, _, hgood hsucc, rfl, fun data hd => ⟨hp, (Option.some.inj hd).symm⟩⟩
  · exact ⟨_, _, hbad hsucc, rfl, hnone⟩

end

end ContinuumOS.TextEditor.Saving
