import Mathlib.Data.List.TakeWhile

/-! # The words of a list between separators

A tokenizer that skips separators and cuts the next maximal run of other
elements (`nextWord`) reads off, call after call, the non-empty pieces of the
list between separators (`words`). Putting one separator before each word
(`joinWords`) is the inverse on words that are non-empty and hold no
separator. -/
namespace ContinuumOS.Lib.Words

variable {α : Type*} {p : α → Bool}

/-- The non-empty pieces of a list between the elements that satisfy `p`. -/
def words (p : α → Bool) (s : List α) : List (List α) :=
  (s.splitOnP p).filter fun w => !w.isEmpty

/-- One separator before each word. -/
def joinWords (sep : α) (ws : List (List α)) : List α := ws.flatMap fun w => sep :: w

/-- Skip separators, cut the next word, and step over the separator that
ended it. -/
def nextWord (p : α → Bool) (s : List α) : Option (List α × List α) :=
  match s.dropWhile p with
  | [] => none
  | c :: r => some (c :: r.takeWhile (fun x => !p x), (r.dropWhile fun x => !p x).tail)

/-- A word: non-empty and free of separators. -/
def IsWord (p : α → Bool) (w : List α) : Prop := w ≠ [] ∧ ∀ c ∈ w, p c = false

@[simp] theorem words_nil : words p [] = [] := by simp [words]

theorem words_append_sep (a b : List α) {c : α} (hc : p c = true) :
    words p (a ++ c :: b) = words p a ++ words p b := by
  simp [words, List.splitOnP_append_cons a b hc]

theorem words_cons_sep {c : α} (hc : p c = true) (s : List α) : words p (c :: s) = words p s := by
  simpa using words_append_sep [] s hc

theorem words_of_isWord {w : List α} (h : IsWord p w) : words p w = [w] := by
  simp [words, List.splitOnP_eq_singleton h.2, h.1]

theorem words_dropWhile (s : List α) : words p (s.dropWhile p) = words p s := by
  induction s with
  | nil => rfl
  | cons c s ih =>
    cases hc : p c with
    | true => rw [List.dropWhile_cons_of_pos hc, ih, words_cons_sep hc]
    | false => rw [List.dropWhile_cons_of_neg (by simp [hc])]

theorem dropWhile_not_cases (r : List α) :
    (r.dropWhile fun x => !p x) = [] ∨
      ∃ c t, (r.dropWhile fun x => !p x) = c :: t ∧ p c = true := by
  cases h : r.dropWhile fun x => !p x with
  | nil => exact .inl rfl
  | cons c t =>
    have hc := List.dropWhile_get_zero_not (fun x => !p x) r (by rw [h]; simp)
    exact .inr ⟨c, t, rfl, by simpa [h] using hc⟩

theorem isWord_cons_takeWhile {c : α} (hc : p c = false) (r : List α) :
    IsWord p (c :: r.takeWhile fun x => !p x) := by
  refine ⟨by simp, fun x hx => ?_⟩
  rcases List.mem_cons.mp hx with rfl | hx
  · exact hc
  · simpa using List.mem_takeWhile_imp hx

/-- A list that starts with a word is that word followed by what its words are. -/
theorem words_cons_of_not_sep {c : α} (hc : p c = false) (r : List α) :
    words p (c :: r) =
      (c :: r.takeWhile fun x => !p x) :: words p (r.dropWhile fun x => !p x).tail := by
  have hsplit : c :: r = (c :: r.takeWhile fun x => !p x) ++ r.dropWhile fun x => !p x := by
    simp
  have hw := isWord_cons_takeWhile hc r
  rcases dropWhile_not_cases (p := p) r with he | ⟨d, t, he, hd⟩
  · rw [hsplit, he, List.append_nil, words_of_isWord hw]
    simp
  · rw [hsplit, he, words_append_sep _ _ hd, words_of_isWord hw]
    simp

theorem head_dropWhile_not_sep {s r : List α} {c : α} (h : s.dropWhile p = c :: r) :
    p c = false := by
  have := List.dropWhile_get_zero_not p s (by rw [h]; simp)
  simpa [h] using this

theorem nextWord_eq_none {s : List α} : nextWord p s = none ↔ words p s = [] := by
  unfold nextWord
  rw [← words_dropWhile]
  split
  · rename_i h; simp [h]
  · rename_i c r h
    simp [h, words_cons_of_not_sep (head_dropWhile_not_sep h)]

theorem nextWord_eq_some {s t r : List α} (h : nextWord p s = some (t, r)) :
    words p s = t :: words p r := by
  unfold nextWord at h
  rw [← words_dropWhile]
  split at h
  · cases h
  · rename_i c u hd
    obtain ⟨rfl, rfl⟩ := Prod.mk.inj (Option.some.inj h)
    rw [hd, words_cons_of_not_sep (head_dropWhile_not_sep hd)]

theorem nextWord_length {s t r : List α} (h : nextWord p s = some (t, r)) :
    r.length < s.length := by
  unfold nextWord at h
  split at h
  · cases h
  · rename_i c u hd
    obtain ⟨rfl, rfl⟩ := Prod.mk.inj (Option.some.inj h)
    have h₁ := (List.dropWhile_suffix (l := s) p).length_le
    have h₂ := (List.dropWhile_suffix (l := u) fun x => !p x).length_le
    rw [hd, List.length_cons] at h₁
    simp only [List.length_tail]
    omega

theorem isWord_of_mem_words {s w : List α} (h : w ∈ words p s) : IsWord p w := by
  induction hn : s.length using Nat.strongRecOn generalizing s with
  | ind n ih =>
    cases hs : nextWord p s with
    | none => rw [nextWord_eq_none.mp hs] at h; cases h
    | some tr =>
      obtain ⟨t, r⟩ := tr
      rw [nextWord_eq_some hs] at h
      rcases List.mem_cons.mp h with rfl | h
      · unfold nextWord at hs
        split at hs
        · cases hs
        · rename_i c u hd
          obtain ⟨rfl, -⟩ := Prod.mk.inj (Option.some.inj hs)
          exact isWord_cons_takeWhile (head_dropWhile_not_sep hd) u
      · exact ih r.length (hn ▸ nextWord_length hs) h rfl

@[simp] theorem joinWords_nil (sep : α) : joinWords sep [] = [] := rfl

@[simp] theorem joinWords_cons (sep : α) (w : List α) (ws : List (List α)) :
    joinWords sep (w :: ws) = sep :: (w ++ joinWords sep ws) := by
  simp [joinWords]

theorem joinWords_append (sep : α) (ws vs : List (List α)) :
    joinWords sep (ws ++ vs) = joinWords sep ws ++ joinWords sep vs := by
  simp [joinWords]

theorem words_joinWords {sep : α} (hsep : p sep = true) :
    ∀ ws : List (List α), (∀ w ∈ ws, IsWord p w) → words p (joinWords sep ws) = ws
  | [], _ => by simp
  | [w], h => by
    rw [joinWords_cons, words_cons_sep hsep]
    simpa using words_of_isWord (h w (by simp))
  | w :: v :: ws, h => by
    have ih := words_joinWords hsep (v :: ws) fun u hu => h u (by simp [hu])
    rw [joinWords_cons, words_cons_sep hsep, joinWords_cons, words_append_sep _ _ hsep,
      words_of_isWord (h w (by simp)), ← words_cons_sep hsep, ← joinWords_cons, ih]
    rfl

/-- Joining the words of a list takes no more room than the list and one
separator: between two words the list already has one. -/
theorem length_joinWords_words (sep : α) (s : List α) :
    (joinWords sep (words p s)).length ≤ s.length + 1 := by
  induction hn : s.length using Nat.strongRecOn generalizing s with
  | ind n ih =>
    cases hs : s with
    | nil => simp
    | cons c r =>
      have hlen : n = r.length + 1 := by rw [← hn, hs]; rfl
      cases hc : p c with
      | true =>
        rw [words_cons_sep hc]
        have := ih r.length (by omega) r rfl
        omega
      | false =>
        rw [words_cons_of_not_sep hc, joinWords_cons]
        have hsum := congrArg List.length (List.takeWhile_append_dropWhile (p := fun x => !p x) (l := r))
        rw [List.length_append] at hsum
        rcases dropWhile_not_cases (p := p) r with he | ⟨d, t, he, -⟩
        · simp only [he, List.tail_nil, words_nil, joinWords_nil, List.append_nil,
            List.length_cons, List.length_nil] at hsum ⊢
          omega
        · simp only [he, List.tail_cons, List.length_cons, List.length_append] at hsum ⊢
          have := ih t.length (by omega) t rfl
          omega

end ContinuumOS.Lib.Words
