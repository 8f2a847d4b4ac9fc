import Mathlib.Data.List.Basic
import Mathlib.Data.List.DropRight

/-! # Loops that stop early

A loop that fills a table until one more item finds no room, and a loop that
searches until something is found, both over a state that every round passes
on. Nested loops do what one loop over the flat list does. -/
namespace ContinuumOS.Lib.Scanning

variable {α β σ : Type}

/-! ## Filling -/

/-- The table with the items that find room, and whether all did. -/
def fill (cap : Nat) (t ys : List β) : Bool × List β :=
  (decide (t.length + ys.length ≤ cap), (t ++ ys).take cap)

/-- Rounds until one of them says that there is no room. -/
def fillLoop (body : α → List β → σ → (Bool × List β) × σ) :
    List α → List β → σ → (Bool × List β) × σ
  | [], t, s => ((true, t), s)
  | x :: xs, t, s =>
    let r := body x t s
    if r.1.1 then fillLoop body xs r.1.2 r.2 else r

theorem fill_nil {cap : Nat} {t : List β} (h : t.length ≤ cap) : fill cap t [] = (true, t) := by
  simp [fill, h, List.take_of_length_le h]

theorem length_fill_le (cap : Nat) (t ys : List β) : (fill cap t ys).2.length ≤ cap :=
  List.length_take_le cap (t ++ ys)

theorem fill_append {cap : Nat} {t ys : List β} (h : (fill cap t ys).1 = true) (zs : List β) :
    fill cap t (ys ++ zs) = fill cap (fill cap t ys).2 zs := by
  have hle : (t ++ ys).length ≤ cap := by simpa [fill] using h
  simp only [fill, List.take_of_length_le hle, List.length_append, ← List.append_assoc, Nat.add_assoc]

theorem fill_full {cap : Nat} {t ys : List β} (h : (fill cap t ys).1 = false) (zs : List β) :
    fill cap t (ys ++ zs) = fill cap t ys := by
  have hlt : cap < (t ++ ys).length := by simpa [fill] using h
  have hlt' : cap < t.length + ys.length := by simpa using hlt
  have h₁ : ¬ t.length + (ys ++ zs).length ≤ cap := by
    rw [List.length_append]
    omega
  have h₂ : ¬ t.length + ys.length ≤ cap := by omega
  simp only [fill, decide_eq_false h₁, decide_eq_false h₂, ← List.append_assoc,
    List.take_append_of_le_length (Nat.le_of_lt hlt)]

/-- **A loop of rounds that fill the table fills it with all their items.** -/
theorem fillLoop_spec {body : α → List β → σ → (Bool × List β) × σ} {cap : Nat} {inv : σ → Prop}
    {g : α → List β} (xs : List α)
    (hbody : ∀ x ∈ xs, ∀ t s, t.length ≤ cap → inv s →
      (body x t s).1 = fill cap t (g x) ∧ inv (body x t s).2) :
    ∀ {t : List β} {s : σ}, t.length ≤ cap → inv s →
      (fillLoop body xs t s).1 = fill cap t (xs.flatMap g) ∧ inv (fillLoop body xs t s).2 := by
  induction xs with
  | nil => exact fun ht hs => ⟨(fill_nil ht).symm, hs⟩
  | cons x xs ih =>
    intro t s ht hs
    obtain ⟨hround, hinv⟩ := hbody x (.head _) t s ht hs
    rw [List.flatMap_cons, fillLoop]
    by_cases hgo : (body x t s).1.1 = true
    · simp only [if_pos hgo]
      rw [fill_append (by rw [← hround]; exact hgo), ← hround]
      refine ih (fun y hy => hbody y (.tail _ hy)) ?_ hinv
      rw [hround]
      exact length_fill_le cap t (g x)
    · simp only [if_neg hgo]
      rw [fill_full (by rw [← hround]; simpa using hgo)]
      exact ⟨hround, hinv⟩

/-! ## Searching -/

/-- Rounds until one of them finds something. -/
def searchLoop (body : α → σ → Option β × σ) : List α → σ → Option β × σ
  | [], s => (none, s)
  | x :: xs, s =>
    let r := body x s
    match r.1 with
    | some b => (some b, r.2)
    | none => searchLoop body xs r.2

/-- **A loop of rounds that find what `g` says finds the first of it.** -/
theorem searchLoop_spec {body : α → σ → Option β × σ} {inv : σ → Prop} {g : α → Option β} (xs : List α)
    (hbody : ∀ x ∈ xs, ∀ s, inv s → (body x s).1 = g x ∧ inv (body x s).2) :
    ∀ {s : σ}, inv s → (searchLoop body xs s).1 = xs.findSome? g ∧ inv (searchLoop body xs s).2 := by
  induction xs with
  | nil => exact fun hs => ⟨rfl, hs⟩
  | cons x xs ih =>
    intro s hs
    obtain ⟨hround, hinv⟩ := hbody x (.head _) s hs
    rw [List.findSome?_cons, ← hround, searchLoop]
    cases hr : (body x s).1 with
    | some b => exact ⟨rfl, hinv⟩
    | none => exact ih (fun y hy => hbody y (.tail _ hy)) hinv

end ContinuumOS.Lib.Scanning

/-! # First fit

The first `count` adjacent free items of a list, found in one pass that carries
the free items met last. -/
namespace ContinuumOS.Lib.FirstFit

variable {α : Type} {free : α → Bool} {count : Nat}

/-- The items found, or the free items at the end of the list. -/
inductive Fit (α : Type)
  | found (run : List α)
  | more (run : List α)

def firstFit (free : α → Bool) (count : Nat) : List α → List α → Fit α
  | [], run => .more run
  | a :: items, run =>
    if free a then
      if (run ++ [a]).length = count then .found (run ++ [a])
      else firstFit free count items (run ++ [a])
    else firstFit free count items []

theorem firstFit_append (b : List α) : ∀ (a run : List α),
    firstFit free count (a ++ b) run = match firstFit free count a run with
      | .found r => .found r
      | .more r => firstFit free count b r
  | [], run => rfl
  | x :: a, run => by
    have ih := firstFit_append b a
    simp only [List.cons_append, firstFit, ih]
    split
    · split <;> rfl
    · rfl

/-- `run` are the free items that end `passed`. -/
structure FreeTail (free : α → Bool) (passed run : List α) : Prop where
  split : ∃ pre, passed = pre ++ run ∧ ∀ a, pre.getLast? = some a → free a = false
  free : ∀ a ∈ run, free a = true

theorem FreeTail.nil : FreeTail free [] [] := ⟨⟨[], rfl, by simp⟩, by simp⟩

theorem FreeTail.push {passed run : List α} {a : α} (h : FreeTail free passed run)
    (ha : free a = true) : FreeTail free (passed ++ [a]) (run ++ [a]) := by
  obtain ⟨⟨pre, rfl, hpre⟩, hfree⟩ := h
  refine ⟨⟨pre, by simp, hpre⟩, fun b hb => ?_⟩
  rcases List.mem_append.mp hb with hb | hb
  · exact hfree b hb
  · rw [List.mem_singleton.mp hb]
    exact ha

theorem FreeTail.used {passed : List α} {a : α} (ha : free a = false) :
    FreeTail free (passed ++ [a]) [] := by
  refine ⟨⟨passed ++ [a], by simp, fun b hb => ?_⟩, by simp⟩
  rw [List.getLast?_concat] at hb
  exact Option.some.inj hb ▸ ha

/-- What is found are `count` adjacent free items, with a used one before them. -/
theorem firstFit_found {r : List α} : ∀ (items passed run : List α), FreeTail free passed run →
    firstFit free count items run = .found r →
    ∃ pre post, passed ++ items = pre ++ r ++ post ∧ (∀ a ∈ r, free a = true) ∧
      r.length = count ∧ ∀ a, pre.getLast? = some a → free a = false
  | [], _, _, _, h => by cases h
  | a :: items, passed, run, ht, h => by
    rw [firstFit] at h
    have happ : passed ++ a :: items = passed ++ [a] ++ items := by simp
    split at h
    · rename_i ha
      have ht' := ht.push ha
      split at h
      · rename_i hlen
        cases h
        obtain ⟨⟨pre, hpre, hused⟩, hfree⟩ := ht'
        exact ⟨pre, items, by rw [happ, hpre], hfree, hlen, hused⟩
      · rw [happ]
        exact firstFit_found items _ _ ht' h
    · rename_i ha
      rw [happ]
      exact firstFit_found items _ _ (.used (by simpa using ha)) h

end ContinuumOS.Lib.FirstFit

/-! # The end of a list, changed

A pass over a list from its end that changes the items with a property and stops
at the first one without it. -/
namespace ContinuumOS.Lib.MapEnd

variable {α : Type} {p : α → Bool} {f : α → α} {a b : List α} {x : α}

/-- The longest end of `l` whose items all have `p` is mapped. -/
def mapEnd (p : α → Bool) (f : α → α) (l : List α) : List α :=
  l.rdropWhile p ++ (l.rtakeWhile p).map f

@[simp] theorem mapEnd_nil : mapEnd p f [] = [] := rfl

theorem mapEnd_concat_pos (h : p x = true) : mapEnd p f (a ++ [x]) = mapEnd p f a ++ [f x] := by
  rw [mapEnd, mapEnd, List.rdropWhile_concat_pos _ _ _ h, List.rtakeWhile_concat_pos _ _ _ h,
    List.map_append, List.append_assoc]
  rfl

theorem mapEnd_concat_neg (h : p x = false) : mapEnd p f (a ++ [x]) = a ++ [x] := by
  rw [mapEnd, List.rdropWhile_concat_neg _ _ _ (by simp [h]),
    List.rtakeWhile_concat_neg _ _ _ (by simp [h]), List.map_nil, List.append_nil]

theorem mapEnd_append_all (h : ∀ x ∈ b, p x = true) : mapEnd p f (a ++ b) = mapEnd p f a ++ b.map f := by
  induction b using List.reverseRecOn with
  | nil => simp
  | append_singleton b x ih =>
    rw [← List.append_assoc, mapEnd_concat_pos (h x (by simp)), ih fun y hy => h y (by simp [hy]),
      List.map_append, List.append_assoc]
    rfl

theorem mapEnd_append_some (h : ∃ x ∈ b, p x = false) : mapEnd p f (a ++ b) = a ++ mapEnd p f b := by
  induction b using List.reverseRecOn with
  | nil => simp at h
  | append_singleton b x ih =>
    rw [← List.append_assoc]
    cases hx : p x with
    | true =>
      obtain ⟨y, hy, hn⟩ := h
      have hyb : y ∈ b := by
        rcases List.mem_append.mp hy with hy | hy
        · exact hy
        · rw [List.mem_singleton.mp hy, hx] at hn
          cases hn
      rw [mapEnd_concat_pos hx, mapEnd_concat_pos hx, ih ⟨y, hyb, hn⟩, List.append_assoc]
    | false => rw [mapEnd_concat_neg hx, mapEnd_concat_neg hx, List.append_assoc]

/-- What follows the pass: an old item without the property at the end, or a
mapped one. -/
theorem mem_mapEnd {y : α} (h : y ∈ mapEnd p f a) : y ∈ a ∨ ∃ x ∈ a, p x = true ∧ y = f x := by
  rcases List.mem_append.mp h with h | h
  · exact .inl ((List.rdropWhile_prefix p a).subset h)
  · obtain ⟨x, hx, rfl⟩ := List.mem_map.mp h
    exact .inr ⟨x, (List.rtakeWhile_suffix p a).subset hx, List.mem_rtakeWhile_imp hx, rfl⟩

theorem map_mapEnd {β : Type} {g : α → β} (h : ∀ x ∈ a, p x = true → g (f x) = g x) :
    (mapEnd p f a).map g = a.map g := by
  induction a using List.reverseRecOn with
  | nil => rfl
  | append_singleton a x ih =>
    cases hx : p x with
    | true =>
      rw [mapEnd_concat_pos hx, List.map_append, ih fun y hy => h y (by simp [hy]), List.map_append,
        List.map_singleton, h x (by simp) hx, List.map_singleton]
    | false => rw [mapEnd_concat_neg hx]

end ContinuumOS.Lib.MapEnd
