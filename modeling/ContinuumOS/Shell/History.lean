import ContinuumOS.Shell.Line

/-! # The history of commands

The ring keeps the last commands that are not empty, and `cmd_history` lists
them. Up and Down walk over the numbers of all commands that were entered, which
is the same as long as the ring has not wrapped. -/
namespace ContinuumOS.Shell.History
open ContinuumOS.Libc.String
open ContinuumOS.Shell.Model ContinuumOS.Shell.Line

/-- The texts of the commands that are not empty, in the order they were entered. -/
def enteredTexts (commands : List Row) : List CStr := (commands.map rowText).filter (· ≠ [])

/-- The texts that `cmd_history` lists. -/
def listed (s : ShellState) : List CStr := s.cmdHistory.map fun entry => rowText entry.2

/-- The shell waits at a prompt, with no walk through the history under way. -/
structure AtPrompt (s : ShellState) : Prop where
  enabled : s.inputEnabled = true
  nav : s.historyNav = -1

def IsUp (p : Press) : Prop := p.key.release = false ∧ p.key.upArrow = true

def IsDown (p : Press) : Prop :=
  p.key.release = false ∧ p.key.upArrow = false ∧ p.key.downArrow = true

/-- What `k` times Up and `d` times Down show of the texts, over a line `t`. -/
def navText (texts : List CStr) (k d : Nat) (t : CStr) : CStr :=
  if d = 0 ∧ min k texts.length = 0 then t
  else if d < min k texts.length then texts.getD (texts.length - (min k texts.length - d)) []
  else []

/-- Up shows the texts that are listed, the last first, and stays on the first; Down goes
back to the last and then clears the line. -/
def Navigates (s : ShellState) : Prop :=
  ∀ ups downs : List Press, (∀ p ∈ ups, IsUp p) → (∀ p ∈ downs, IsDown p) →
    ∃ s', ShellState.run (ups ++ downs) s = some (s', []) ∧
      rowText s'.buffer = navText (listed s) ups.length downs.length (rowText s.buffer)

/-- The ring has the last of the texts. -/
structure Retains (s : ShellState) (texts : List CStr) : Prop where
  count : s.historyCount = texts.length
  rows : ∀ i t, texts[i]? = some t → texts.length ≤ i + historySize →
    rowText (s.history (i % historySize)) = t
  nonEmpty : ∀ t ∈ texts, t ≠ []

/-- A walk that has come to the row of a number. -/
structure ShowsRow (s s' : ShellState) (v : Nat) : Prop extends SameHistory s s' where
  enabled : s'.inputEnabled = true
  nav : s'.historyNav = v
  line : HasLine s' (.recalled (rowText (s.history (v % historySize))))

/-- A walk that has come to its end. -/
structure Blank (s s' : ShellState) : Prop extends SameHistory s s', AtPrompt s' where
  line : HasLine s' .empty

section

variable {s s' : ShellState} {l : Line} {texts : List CStr} {p : Press} {v n : Nat}

/-! ## What is retained -/

theorem ring_ne {i : Nat} (hi : i < n) (hn : n + 1 ≤ i + historySize) :
    i % historySize ≠ n % historySize := by
  have hsize : historySize = 16 := rfl
  rw [hsize] at hn ⊢
  omega

theorem retains_entered (h : HasLine s l) (hr : Retains s texts) (hn : texts.length + 1 < 2 ^ 32)
    (p : Press) : Retains (entered p s) (texts ++ enteredTexts [s.buffer]) := by
  have htext := rowText_eq h.buffer
  rw [enteredTexts, List.map_singleton, htext]
  by_cases hnil : l.text = []
  · have hzero : s.buffer 0 = 0 := by
      have hstop := h.buffer.stop
      rwa [hnil] at hstop
    have hadd : s.historyAdd s.buffer = s := if_pos hzero
    have hnone : [l.text].filter (· ≠ []) = [] := by
      rw [hnil]
      rfl
    rw [hnone, List.append_nil, entered, hadd]
    exact ⟨hr.count, hr.rows, hr.nonEmpty⟩
  · have hpos : 0 < l.text.length := List.length_pos_iff.mpr hnil
    have hne : s.buffer 0 ≠ 0 := h.buffer.ne hpos
    have hone : [l.text].filter (· ≠ []) = [l.text] :=
      List.filter_cons_of_pos (decide_eq_true hnil)
    rw [hone]
    have hlen : (texts ++ [l.text]).length = texts.length + 1 := by
      rw [List.length_append, List.length_singleton]
    have hcount := hr.count
    refine ⟨?_, fun i t hi hlast => ?_, fun t ht => ?_⟩
    · rw [entered, ShellState.historyAdd, if_neg hne, hlen]
      show (s.historyCount + 1) % 2 ^ 32 = _
      rw [hcount, Nat.mod_eq_of_lt hn]
    · rw [hlen] at hlast
      rw [entered, ShellState.historyAdd, if_neg hne]
      show rowText (Function.update s.history (s.historyCount % historySize)
        (safeStrncpy (s.history (s.historyCount % historySize)) s.buffer) (i % historySize)) = t
      by_cases hlt : i < texts.length
      · rw [List.getElem?_append_left hlt] at hi
        rw [hcount, Function.update_of_ne (ring_ne hlt hlast)]
        exact hr.rows i t hi (by omega)
      · have hlen' : i < (texts ++ [l.text]).length := (List.getElem?_eq_some_iff.mp hi).1
        have hi' : i = texts.length := by omega
        rw [hi', List.getElem?_concat_length, Option.some_inj] at hi
        rw [hi', ← hcount, Function.update_self, ← hi]
        exact (rowText_eq (holds_safeStrncpy _ _)).trans htext
    · rcases List.mem_append.mp ht with ht | ht
      · exact hr.nonEmpty t ht
      · rw [List.mem_singleton.mp ht]
        exact hnil

theorem enteredTexts_append (a b : List Row) :
    enteredTexts (a ++ b) = enteredTexts a ++ enteredTexts b := by
  rw [enteredTexts, List.map_append, List.filter_append, enteredTexts, enteredTexts]

theorem Retains.same (hr : Retains s texts) (hs : SameHistory s s') : Retains s' texts := by
  refine ⟨hs.count.trans hr.count, fun i t hi hlast => ?_, hr.nonEmpty⟩
  rw [hs.history]
  exact hr.rows i t hi hlast

theorem run_cons {command : Option Row} (h : s.handleKey p = some (s', command))
    (keys : List Press) : ShellState.run (p :: keys) s =
      (ShellState.run keys s').map fun q => (q.1, command.toList ++ q.2) := by
  rw [ShellState.run, h]
  simp only [Option.bind_eq_bind, Option.bind_some]
  cases ShellState.run keys s' with
  | none => rfl
  | some q => rfl

theorem run_retains : ∀ (keys : List Press) {s s' : ShellState} {l : Line} {texts : List CStr}
    {commands : List Row}, HasLine s l → Retains s texts →
    ShellState.run keys s = some (s', commands) →
    (texts ++ enteredTexts commands).length < 2 ^ 31 →
    (∃ l', HasLine s' l') ∧ Retains s' (texts ++ enteredTexts commands)
  | [], s, s', l, texts, commands, h, hr, hrun, _ => by
    rw [ShellState.run, Option.some_inj, Prod.mk.injEq] at hrun
    obtain ⟨rfl, rfl⟩ := hrun
    rw [enteredTexts, List.map_nil, List.filter_nil, List.append_nil]
    exact ⟨⟨l, h⟩, hr⟩
  | p :: keys, s, s', l, texts, commands, h, hr, hrun, hn => by
    cases he : s.inputEnabled with
    | false =>
      rw [run_cons (handleKey_disabled he p), Option.map_eq_some_iff] at hrun
      obtain ⟨⟨s₂, commands₂⟩, hrun, heq⟩ := hrun
      obtain ⟨rfl, rfl⟩ := Prod.mk.inj heq
      exact run_retains keys h hr hrun hn
    | true =>
      obtain ⟨s₁, command, h₁, hline₁, -, hrec⟩ := handleKey_line h he p
      rw [run_cons h₁, Option.map_eq_some_iff] at hrun
      obtain ⟨⟨s₂, commands₂⟩, hrun, heq⟩ := hrun
      obtain ⟨rfl, rfl⟩ := Prod.mk.inj heq
      rcases hrec with ⟨rfl, hsame⟩ | ⟨rfl, rfl⟩
      · exact run_retains keys hline₁ (hr.same hsame) hrun hn
      · have hsplit : enteredTexts ((some s.buffer).toList ++ commands₂) =
            enteredTexts [s.buffer] ++ enteredTexts commands₂ := enteredTexts_append _ _
        rw [hsplit, ← List.append_assoc] at hn ⊢
        have hlen : texts.length + 1 < 2 ^ 32 := by
          rw [List.length_append, List.length_append] at hn
          omega
        exact run_retains keys hline₁ (retains_entered h hr hlen p) hrun hn

/-- **`cmd_history` lists** the last sixteen of what was entered. -/
theorem listed_eq (hr : Retains s texts) : listed s = texts.drop (texts.length - historySize) := by
  have hstart : (if historySize < texts.length then texts.length - historySize else 0) =
      texts.length - historySize := by
    split <;> omega
  rw [listed, ShellState.cmdHistory]
  simp only [hr.count, hstart, List.map_map]
  refine List.ext_getElem? fun j => ?_
  rw [List.getElem?_map, List.getElem?_drop]
  by_cases hj : texts.length - historySize + j < texts.length
  · rw [List.getElem?_range' (by omega), List.getElem?_eq_getElem hj, Option.map_some, Nat.one_mul]
    exact congrArg some (hr.rows _ _ (List.getElem?_eq_getElem hj) (by omega))
  · rw [List.getElem?_eq_none (by rw [List.length_range']; omega),
      List.getElem?_eq_none (by omega), Option.map_none]

/-! ## One key -/

theorem toInt_pred (hpos : 0 < n) (hlt : n < 2 ^ 31) : toInt ((n : Int) - 1) = (n - 1 : Nat) := by
  rw [toInt, Int.bmod_eq_of_le_mul_two (by omega) (by omega)]
  omega

theorem tmod_eq (v : Nat) : (v : Int).tmod historySize = ((v % historySize : Nat) : Int) :=
  (Int.ofNat_tmod v historySize).symm

theorem deref_row (outside : Int → Row) (v : Nat) :
    s.deref outside (.row ((v : Int).tmod historySize)) = some (s.history (v % historySize)) := by
  rw [tmod_eq, ShellState.deref, if_pos (Int.natCast_nonneg _), Int.toNat_natCast]

theorem handleKey_up (hp : IsUp p) (he : s.inputEnabled = true) (h : s.handleUp p = some s') :
    s.handleKey p = some (s', none) := by
  obtain ⟨hr, hu⟩ := hp
  simp only [ShellState.handleKey, hr, hu, he, h, Bool.false_eq_true, Bool.true_eq_false, if_false,
    if_true, Option.bind_eq_bind, Option.bind_some, Option.pure_def]

theorem handleKey_down (hp : IsDown p) (he : s.inputEnabled = true)
    (h : s.handleDown p = some s') : s.handleKey p = some (s', none) := by
  obtain ⟨hr, hu, hd⟩ := hp
  simp only [ShellState.handleKey, hr, hu, hd, he, h, Bool.false_eq_true, Bool.true_eq_false,
    if_false, if_true, Option.bind_eq_bind, Option.bind_some, Option.pure_def]

theorem up_none (hp : IsUp p) (he : s.inputEnabled = true) (hn : s.historyCount = 0) :
    s.handleKey p = some (s, none) := by
  have hprev : s.historyPrev = (.null, s) := if_pos hn
  refine handleKey_up hp he ?_
  rw [handleUp_none (by rw [hprev]; rfl), hprev]

theorem up_first (hp : IsUp p) (ha : AtPrompt s) (hpos : 0 < s.historyCount)
    (hlt : s.historyCount < 2 ^ 31) :
    ∃ s', s.handleKey p = some (s', none) ∧ ShowsRow s s' (s.historyCount - 1) := by
  have hprev : s.historyPrev = (.row (((s.historyCount - 1 : Nat) : Int).tmod historySize),
      { s with historyNav := (s.historyCount - 1 : Nat) }) := by
    rw [ShellState.historyPrev, if_neg (Nat.ne_of_gt hpos), if_pos ha.nav, toInt_pred hpos hlt]
  have hup : s.handleUp p = some (shown s.historyPrev.2 (s.history
      ((s.historyCount - 1) % historySize))) := handleUp_some (by rw [hprev]; exact deref_row _ _)
  refine ⟨_, handleKey_up hp ha.enabled hup, ?_⟩
  rw [hprev]
  exact ⟨⟨rfl, rfl⟩, ha.enabled, rfl, hasLine_shown _ _⟩

theorem up_next (hp : IsUp p) (hs : ShowsRow s s' v) (hpos : 0 < s.historyCount) :
    ∃ s'', s'.handleKey p = some (s'', none) ∧ ShowsRow s s'' (v - 1) := by
  have hcount := hs.count
  have hprev : s'.historyPrev = (.row (((v - 1 : Nat) : Int).tmod historySize),
      { s' with historyNav := (v - 1 : Nat) }) := by
    have hnav : (if s'.historyNav = -1 then toInt (s'.historyCount - 1)
        else if 0 < s'.historyNav then s'.historyNav - 1 else s'.historyNav) =
        ((v - 1 : Nat) : Int) := by
      rw [hs.nav, if_neg (by omega)]
      split <;> omega
    rw [ShellState.historyPrev, if_neg (by omega)]
    simp only [hnav]
  have hup : s'.handleUp p = some (shown s'.historyPrev.2 (s'.history ((v - 1) % historySize))) :=
    handleUp_some (by rw [hprev]; exact deref_row _ _)
  refine ⟨_, handleKey_up hp hs.enabled hup, ?_⟩
  rw [hprev, hs.history]
  exact ⟨⟨rfl, hs.count⟩, hs.enabled, rfl, hasLine_shown _ _⟩

theorem down_next (hp : IsDown p) (hs : ShowsRow s s' v) (hv : v + 1 < s.historyCount)
    (hlt : s.historyCount < 2 ^ 31) :
    ∃ s'', s'.handleKey p = some (s'', none) ∧ ShowsRow s s'' (v + 1) := by
  have hcount := hs.count
  have hnav := hs.nav
  have hpred := toInt_pred (n := s.historyCount) (by omega) hlt
  have hnext : s'.historyNext = (.row (((v + 1 : Nat) : Int).tmod historySize),
      { s' with historyNav := (v + 1 : Nat) }) := by
    rw [ShellState.historyNext, if_neg (by omega), if_neg (by omega), hcount, hpred,
      if_pos (by omega), hnav]
    rfl
  have hrow : s'.historyNext.2.deref p.outside s'.historyNext.1 =
      some (s'.history ((v + 1) % historySize)) := by
    rw [hnext]
    exact deref_row _ _
  rw [hs.history] at hrow
  by_cases hr : s.history ((v + 1) % historySize) 0 = 0
  · have hblank : (s'.historyNext.2.deref p.outside s'.historyNext.1).filter
        (fun r => r 0 ≠ 0) = none := by
      rw [hrow]
      exact Option.filter_some_neg (by simpa using hr)
    refine ⟨_, handleKey_down hp hs.enabled (handleDown_none hblank), ?_⟩
    rw [hnext]
    refine ⟨⟨hs.history, hs.count⟩, hs.enabled, rfl, ?_⟩
    rw [rowText_nil hr]
    exact hasLine_cleared _
  · refine ⟨_, handleKey_down hp hs.enabled (handleDown_some hrow hr), ?_⟩
    rw [hnext]
    exact ⟨⟨hs.history, hs.count⟩, hs.enabled, rfl, hasLine_shown _ _⟩

theorem down_last (hp : IsDown p) (hs : ShowsRow s s' v) (hv : v + 1 = s.historyCount)
    (hlt : s.historyCount < 2 ^ 31) :
    ∃ s'', s'.handleKey p = some (s'', none) ∧ Blank s s'' := by
  have hcount := hs.count
  have hnav := hs.nav
  have hpred := toInt_pred (n := s.historyCount) (by omega) hlt
  have hnext : s'.historyNext = (.emptyText, { s' with historyNav := -1 }) := by
    rw [ShellState.historyNext, if_neg (by omega), if_neg (by omega), hcount, hpred,
      if_neg (by omega)]
  refine ⟨_, handleKey_down hp hs.enabled (handleDown_none (by rw [hnext]; rfl)), ?_⟩
  rw [hnext]
  exact ⟨⟨hs.history, hs.count⟩, ⟨hs.enabled, rfl⟩, hasLine_cleared _⟩

theorem down_none (hp : IsDown p) (hs : SameHistory s s') (ha : AtPrompt s') :
    ∃ s'', s'.handleKey p = some (s'', none) ∧ Blank s s'' := by
  have hnext : s'.historyNext = (.null, s') := by
    rw [ShellState.historyNext]
    by_cases hzero : s'.historyCount = 0
    · rw [if_pos hzero]
    · rw [if_neg hzero, if_pos ha.nav]
  refine ⟨_, handleKey_down hp ha.enabled (handleDown_none (by rw [hnext]; rfl)), ?_⟩
  rw [hnext]
  exact ⟨⟨hs.history, hs.count⟩, ⟨ha.enabled, ha.nav⟩, hasLine_cleared _⟩

/-! ## Runs of keys -/

theorem run_silent (h : s.handleKey p = some (s', none)) (keys : List Press) :
    ShellState.run (p :: keys) s = ShellState.run keys s' := by
  rw [run_cons h]
  cases ShellState.run keys s' with
  | none => rfl
  | some q => rfl

theorem run_append : ∀ {keys : List Press} (keys' : List Press) {s s' : ShellState},
    ShellState.run keys s = some (s', []) →
    ShellState.run (keys ++ keys') s = ShellState.run keys' s'
  | [], keys', s, s', h => by
    rw [ShellState.run, Option.some_inj, Prod.mk.injEq] at h
    rw [List.nil_append, h.1]
  | p :: keys, keys', s, s', h => by
    cases hk : s.handleKey p with
    | none =>
      rw [ShellState.run, hk] at h
      exact absurd h.symm (Option.some_ne_none _)
    | some q =>
      obtain ⟨s₁, command⟩ := q
      rw [run_cons hk, Option.map_eq_some_iff] at h
      obtain ⟨⟨s₂, commands⟩, hrun, heq⟩ := h
      obtain ⟨rfl, hnil⟩ := Prod.mk.inj heq
      obtain ⟨hcommand, rfl⟩ := List.append_eq_nil_iff.mp hnil
      have hnone : command = none := Option.toList_eq_nil_iff.mp hcommand
      subst hnone
      rw [List.cons_append, run_silent hk, run_append keys' hrun]

theorem ups_back : ∀ {ups : List Press} {s' : ShellState} {v : Nat}, ShowsRow s s' v →
    0 < s.historyCount → (∀ p ∈ ups, IsUp p) →
    ∃ s'', ShellState.run ups s' = some (s'', []) ∧ ShowsRow s s'' (v - ups.length)
  | [], s', v, hs, _, _ => ⟨s', rfl, hs⟩
  | p :: ups, s', v, hs, hpos, hups => by
    obtain ⟨hp, hups⟩ := List.forall_mem_cons.mp hups
    obtain ⟨s₁, h₁, hs₁⟩ := up_next hp hs hpos
    obtain ⟨s₂, h₂, hs₂⟩ := ups_back hs₁ hpos hups
    rw [Nat.sub_sub, Nat.add_comm] at hs₂
    exact ⟨s₂, (run_silent h₁ ups).trans h₂, hs₂⟩

theorem ups_from_prompt (ha : AtPrompt s) (hpos : 0 < s.historyCount)
    (hlt : s.historyCount < 2 ^ 31) {ups : List Press} (hne : ups ≠ [])
    (hups : ∀ p ∈ ups, IsUp p) :
    ∃ s', ShellState.run ups s = some (s', []) ∧ ShowsRow s s' (s.historyCount - ups.length) := by
  obtain ⟨p, ups, rfl⟩ := List.exists_cons_of_ne_nil hne
  obtain ⟨hp, hups⟩ := List.forall_mem_cons.mp hups
  obtain ⟨s₁, h₁, hs₁⟩ := up_first hp ha hpos hlt
  obtain ⟨s₂, h₂, hs₂⟩ := ups_back hs₁ hpos hups
  rw [Nat.sub_sub, Nat.add_comm] at hs₂
  exact ⟨s₂, (run_silent h₁ ups).trans h₂, hs₂⟩

theorem ups_none : ∀ {ups : List Press}, s.inputEnabled = true → s.historyCount = 0 →
    (∀ p ∈ ups, IsUp p) → ShellState.run ups s = some (s, [])
  | [], _, _, _ => rfl
  | p :: ups, he, hn, hups => by
    obtain ⟨hp, hups⟩ := List.forall_mem_cons.mp hups
    rw [run_silent (up_none hp he hn), ups_none he hn hups]

theorem downs_blank : ∀ {downs : List Press} {s' : ShellState}, Blank s s' →
    (∀ p ∈ downs, IsDown p) →
    ∃ s'', ShellState.run downs s' = some (s'', []) ∧ Blank s s''
  | [], s', hs, _ => ⟨s', rfl, hs⟩
  | p :: downs, s', hs, hdowns => by
    obtain ⟨hp, hdowns⟩ := List.forall_mem_cons.mp hdowns
    obtain ⟨s₁, h₁, hs₁⟩ := down_none hp hs.toSameHistory hs.toAtPrompt
    obtain ⟨s₂, h₂, hs₂⟩ := downs_blank hs₁ hdowns
    exact ⟨s₂, (run_silent h₁ downs).trans h₂, hs₂⟩

theorem downs_forth : ∀ {downs : List Press} {s' : ShellState} {v : Nat}, ShowsRow s s' v →
    v < s.historyCount → s.historyCount < 2 ^ 31 → (∀ p ∈ downs, IsDown p) →
    ∃ s'', ShellState.run downs s' = some (s'', []) ∧
      (v + downs.length < s.historyCount → ShowsRow s s'' (v + downs.length)) ∧
      (s.historyCount ≤ v + downs.length → Blank s s'')
  | [], s', v, hs, hv, _, _ => ⟨s', rfl, fun _ => hs, fun h => absurd h (Nat.not_le.mpr hv)⟩
  | p :: downs, s', v, hs, hv, hlt, hdowns => by
    obtain ⟨hp, hdowns⟩ := List.forall_mem_cons.mp hdowns
    rw [List.length_cons]
    by_cases hlast : v + 1 = s.historyCount
    · obtain ⟨s₁, h₁, hs₁⟩ := down_last hp hs hlast hlt
      obtain ⟨s₂, h₂, hs₂⟩ := downs_blank hs₁ hdowns
      exact ⟨s₂, (run_silent h₁ downs).trans h₂, fun h => absurd h (by omega), fun _ => hs₂⟩
    · obtain ⟨s₁, h₁, hs₁⟩ := down_next hp hs (by omega) hlt
      obtain ⟨s₂, h₂, hrow, hblank⟩ := downs_forth hs₁ (by omega) hlt hdowns
      rw [Nat.add_right_comm, Nat.add_assoc] at hrow hblank
      exact ⟨s₂, (run_silent h₁ downs).trans h₂, hrow, hblank⟩

/-! ## Walks through the history -/

theorem walk_without_rows (hl : HasLine s l) (ha : AtPrompt s) {ups downs : List Press}
    (hrun : ShellState.run ups s = some (s, [])) (hdowns : ∀ p ∈ downs, IsDown p) :
    ∃ s', ShellState.run (ups ++ downs) s = some (s', []) ∧
      rowText s'.buffer = if downs.length = 0 then rowText s.buffer else [] := by
  rw [run_append downs hrun]
  cases downs with
  | nil => exact ⟨s, rfl, rfl⟩
  | cons p downs =>
    obtain ⟨hp, hdowns⟩ := List.forall_mem_cons.mp hdowns
    obtain ⟨s₁, h₁, hs₁⟩ := down_none hp ⟨rfl, rfl⟩ ha
    obtain ⟨s₂, h₂, hs₂⟩ := downs_blank hs₁ hdowns
    exact ⟨s₂, (run_silent h₁ downs).trans h₂, rowText_eq hs₂.line.buffer⟩

theorem walk (hr : Retains s texts) (ha : AtPrompt s) (hpos : 0 < texts.length)
    (hlt : texts.length < 2 ^ 31) {ups downs : List Press} (hne : ups ≠ [])
    (hups : ∀ p ∈ ups, IsUp p) (hdowns : ∀ p ∈ downs, IsDown p) :
    ∃ s', ShellState.run (ups ++ downs) s = some (s', []) ∧
      (texts.length - ups.length + downs.length < texts.length → rowText s'.buffer =
        rowText (s.history ((texts.length - ups.length + downs.length) % historySize))) ∧
      (texts.length ≤ texts.length - ups.length + downs.length → rowText s'.buffer = []) := by
  have hcount := hr.count
  have hk := List.length_pos_iff.mpr hne
  obtain ⟨s₁, h₁, hs₁⟩ := ups_from_prompt ha (by omega) (by omega) hne hups
  obtain ⟨s₂, h₂, hrow, hblank⟩ := downs_forth hs₁ (by omega) (by omega) hdowns
  rw [hcount] at hrow hblank
  exact ⟨s₂, (run_append downs h₁).trans h₂, fun h => rowText_eq (hrow h).line.buffer,
    fun h => rowText_eq (hblank h).line.buffer⟩

theorem navigates_of_few (hl : HasLine s l) (hr : Retains s texts) (ha : AtPrompt s)
    (hn : texts.length ≤ historySize) : Navigates s := by
  intro ups downs hups hdowns
  have hsize : historySize = 16 := rfl
  have hlist : listed s = texts := by
    rw [listed_eq hr, Nat.sub_eq_zero_of_le hn, List.drop_zero]
  rw [hlist, navText]
  by_cases hnone : ups = [] ∨ texts = []
  · have hrun : ShellState.run ups s = some (s, []) := by
      rcases hnone with rfl | rfl
      · rfl
      · exact ups_none ha.enabled hr.count hups
    have hmin : min ups.length texts.length = 0 := by
      rcases hnone with rfl | rfl
      · exact Nat.zero_min _
      · exact Nat.min_zero _
    obtain ⟨s', hs', htext⟩ := walk_without_rows hl ha hrun hdowns
    refine ⟨s', hs', ?_⟩
    simp only [htext, hmin, Nat.not_lt_zero, if_false, and_true]
  · obtain ⟨hne, htexts⟩ := not_or.mp hnone
    have hk := List.length_pos_iff.mpr hne
    have hpos := List.length_pos_iff.mpr htexts
    obtain ⟨s', hs', hrow, hblank⟩ := walk hr ha hpos (by omega) hne hups hdowns
    refine ⟨s', hs', ?_⟩
    rw [if_neg (by omega)]
    by_cases hd : texts.length - ups.length + downs.length < texts.length
    · have hi : texts.length - (min ups.length texts.length - downs.length) =
          texts.length - ups.length + downs.length := by omega
      rw [if_pos (by omega), hi, hrow hd, List.getD_eq_getElem?_getD,
        List.getElem?_eq_getElem hd, Option.getD_some]
      exact hr.rows _ _ (List.getElem?_eq_getElem hd) (by omega)
    · rw [if_neg (by omega), hblank (by omega)]

def arrowKey (scancode : UInt8) : Keyboard.Model.KeyboardEvent :=
  ⟨⟨scancode, false, false, false, false, false⟩, false, false, true, scancode = 0x48,
    scancode = 0x50, scancode = 0x4B, scancode = 0x4D⟩

/-- A key without a window. -/
def pressed (ke : Keyboard.Model.KeyboardEvent) : Press := ⟨ke, false, true, fun _ _ => 0⟩

/-- Behind sixteen commands Up goes on to rows of newer ones, and sixteen times Down then
does not clear the line. -/
theorem not_navigates_of_many (hr : Retains s texts) (ha : AtPrompt s)
    (hlt : texts.length < 2 ^ 31) (hn : historySize < texts.length) : ¬ Navigates s := by
  intro hnav
  have hsize : historySize = 16 := rfl
  have hups : ∀ p ∈ List.replicate 17 (pressed (arrowKey 0x48)), IsUp p := fun p hp => by
    rw [List.eq_of_mem_replicate hp]
    exact ⟨rfl, rfl⟩
  have hdowns : ∀ p ∈ List.replicate 16 (pressed (arrowKey 0x50)), IsDown p := fun p hp => by
    rw [List.eq_of_mem_replicate hp]
    exact ⟨rfl, rfl, rfl⟩
  have hne : List.replicate 17 (pressed (arrowKey 0x48)) ≠ [] := List.cons_ne_nil _ _
  obtain ⟨s', hs', hrow, -⟩ := walk hr ha (by omega) hlt hne hups hdowns
  obtain ⟨s'', hs'', htext⟩ := hnav _ _ hups hdowns
  have hsame : s' = s'' := congrArg Prod.fst (Option.some.inj (hs'.symm.trans hs''))
  have hlen : (listed s).length = 16 := by
    rw [listed_eq hr, List.length_drop]
    omega
  rw [List.length_replicate, List.length_replicate] at hrow
  rw [List.length_replicate, List.length_replicate, navText, hlen, if_neg (by decide),
    if_neg (by decide), ← hsame, hrow (by omega)] at htext
  have hlast : texts.length - 17 + 16 < texts.length := by omega
  have hget := hr.rows _ _ (List.getElem?_eq_getElem hlast) (by omega)
  rw [hget] at htext
  exact hr.nonEmpty _ (List.getElem_mem hlast) htext

theorem session_retains {s₀ : ShellState} {graphics : Bool} {keys : List Press}
    {commands : List Row} (hrun : s₀.session graphics keys = some (s, commands))
    (hn : (enteredTexts commands).length < 2 ^ 31) :
    (∃ l, HasLine s l) ∧ Retains s (enteredTexts commands) := by
  obtain ⟨s₁, h₁, hline, -, hcount, -⟩ := init_eq s₀ graphics
  rw [ShellState.session, h₁, Option.bind_eq_bind, Option.bind_some] at hrun
  have hr : Retains s₁ [] := ⟨hcount, fun _ _ hi => absurd hi.symm (Option.some_ne_none _),
    fun _ ht => absurd ht List.not_mem_nil⟩
  exact run_retains keys hline hr hrun hn

/-- **History navigation shows the retained commands**, those that `cmd_history` lists,
exactly when no more than sixteen commands were entered. -/
theorem history_navigation_iff {s₀ : ShellState} {graphics : Bool} {keys : List Press}
    {commands : List Row} (hrun : s₀.session graphics keys = some (s, commands))
    (ha : AtPrompt s) (hn : (enteredTexts commands).length < 2 ^ 31) :
    (listed s = (enteredTexts commands).drop ((enteredTexts commands).length - historySize) ∧
      Navigates s) ↔ (enteredTexts commands).length ≤ historySize := by
  obtain ⟨⟨l, hl⟩, hr⟩ := session_retains hrun hn
  refine ⟨fun h => ?_, fun h => ⟨listed_eq hr, navigates_of_few hl hr ha h⟩⟩
  exact Nat.le_of_not_lt fun hmany => not_navigates_of_many hr ha hn hmany h.2

end

/-! ## Runs -/

def blankShell : ShellState :=
  ⟨fun _ => 0, 0, 0, false, false, fun _ _ => 0, 0, 0⟩

def charKey (scancode : UInt8) : Keyboard.Model.KeyboardEvent :=
  ⟨⟨scancode, false, false, false, scancode = 0x1C, scancode = 0x0E⟩, false, false, false, false,
    false, false, false⟩

/-- The command `a`, `n` times. -/
def enterA (n : Nat) : List Press :=
  (List.replicate n [pressed (charKey 0x1E), pressed (charKey 0x1C)]).flatten

/-- The commands `a`, `b` and `c`. -/
def threeCommands : List Press :=
  [0x1E, 0x30, 0x2E].flatMap fun scancode => [pressed (charKey scancode), pressed (charKey 0x1C)]

/-- Three commands: all are listed, and Up and Down walk through them. -/
theorem history_navigation_example : ∃ s commands,
    blankShell.session false threeCommands = some (s, commands) ∧
      listed s = [[97], [98], [99]] ∧ Navigates s := by
  have hrun : (blankShell.session false threeCommands).map (fun q =>
      (q.1.inputEnabled, q.1.historyNav, enteredTexts q.2)) =
      some (true, -1, [[97], [98], [99]]) := by decide +kernel
  obtain ⟨⟨s, commands⟩, hs, heq⟩ := Option.map_eq_some_iff.mp hrun
  simp only [Prod.mk.injEq] at heq
  obtain ⟨he, hnav, htexts⟩ := heq
  obtain ⟨hlist, hwalk⟩ := (history_navigation_iff hs ⟨he, hnav⟩ (by rw [htexts]; decide)).mpr
    (by rw [htexts]; decide)
  rw [htexts] at hlist
  exact ⟨s, commands, hs, hlist, hwalk⟩

/-- Seventeen commands: Up goes back to a row that has a newer one. -/
theorem seventeenth_command_wraps : ∃ s commands,
    blankShell.session false (enterA 17) = some (s, commands) ∧ AtPrompt s ∧
      (enteredTexts commands).length = 17 ∧ ¬ Navigates s := by
  have hrun : (blankShell.session false (enterA 17)).map (fun q =>
      (q.1.inputEnabled, q.1.historyNav, (enteredTexts q.2).length)) = some (true, -1, 17) := by
    decide +kernel
  obtain ⟨⟨s, commands⟩, hs, heq⟩ := Option.map_eq_some_iff.mp hrun
  simp only [Prod.mk.injEq] at heq
  obtain ⟨he, hnav, hlen⟩ := heq
  obtain ⟨-, hr⟩ := session_retains hs (by rw [hlen]; decide)
  exact ⟨s, commands, hs, ⟨he, hnav⟩, hlen,
    not_navigates_of_many hr ⟨he, hnav⟩ (by rw [hlen]; decide) (by rw [hlen]; decide)⟩

end ContinuumOS.Shell.History
