import Mathlib.Data.List.Basic

/-! # Runs of a state machine

A machine takes a state and an action to the next state, or stops (`none`). A
property may hold of every state of a run only as long as each action meets
some condition on the state before it. `Rule` collects what has to be shown of
one step, `Rule.visited_iff` is the consequence for runs. -/
namespace ContinuumOS.Lib.Runs

variable {σ α : Type} {step : σ → α → Option σ}

/-- The states a run goes through, from `s` on. -/
def visited (step : σ → α → Option σ) : List α → σ → List σ
  | [], s => [s]
  | a :: acts, s =>
    s :: match step s a with
      | some t => visited step acts t
      | none => []

/-- Every action of the run meets the condition in the state before it. -/
def Heeded (step : σ → α → Option σ) (heeds : σ → α → Prop) : List α → σ → Prop
  | [], _ => True
  | a :: acts, s => heeds s a ∧ ∀ t ∈ step s a, Heeded step heeds acts t

theorem start_mem_visited (acts : List α) (s : σ) : s ∈ visited step acts s := by
  cases acts <;> simp [visited]

theorem visited_of_step {a : α} {acts : List α} {s t u : σ} (hs : step s a = some t)
    (hu : u ∈ visited step acts t) : u ∈ visited step (a :: acts) s := by
  simp only [visited, hs]
  exact .tail _ hu

theorem mem_visited_of_foldlM {acts : List α} : ∀ {s t : σ}, acts.foldlM step s = some t →
    t ∈ visited step acts s := by
  induction acts with
  | nil =>
    intro s t h
    obtain rfl : s = t := Option.some.inj h
    exact start_mem_visited _ _
  | cons a acts ih =>
    intro s t h
    rw [List.foldlM_cons] at h
    obtain ⟨u, hs, hu⟩ := Option.bind_eq_some_iff.mp h
    exact visited_of_step hs (ih hu)

/-- The condition `heeds` keeps the invariant `inv`, which gives the property
`good`; an action that does not meet it leads to a state without the property. -/
structure Rule (step : σ → α → Option σ) (inv good : σ → Prop) (heeds : σ → α → Prop) : Prop where
  sound : ∀ s, inv s → good s
  next : ∀ s a t, inv s → heeds s a → step s a = some t → inv t
  fails : ∀ s a, inv s → ¬ heeds s a → ∃ t, step s a = some t ∧ ¬ good t

variable {inv good : σ → Prop} {heeds : σ → α → Prop}

theorem inv_visited (next : ∀ s a t, inv s → heeds s a → step s a = some t → inv t)
    (acts : List α) : ∀ {s : σ}, inv s → Heeded step heeds acts s →
      ∀ t ∈ visited step acts s, inv t := by
  induction acts with
  | nil =>
    intro s h _ t ht
    rwa [List.mem_singleton.mp ht]
  | cons a acts ih =>
    rintro s h ⟨ha, hrest⟩ t ht
    simp only [visited, List.mem_cons] at ht
    obtain rfl | ht := ht
    · exact h
    cases hs : step s a with
    | none => rw [hs] at ht; cases ht
    | some u =>
      rw [hs] at ht
      exact ih (next s a u h ha hs) (hrest u hs) t ht

theorem heeded_of_forall {acts : List α} : (∀ a ∈ acts, ∀ s, heeds s a) → ∀ s : σ,
    Heeded step heeds acts s := by
  induction acts with
  | nil => exact fun _ _ => trivial
  | cons a acts ih =>
    exact fun h s => ⟨h a (.head _) s, fun t _ => ih (fun b hb => h b (.tail _ hb)) t⟩

theorem heeded_append {acts more : List α} : ∀ {s : σ}, Heeded step heeds acts s →
    (∀ t, acts.foldlM step s = some t → Heeded step heeds more t) →
    Heeded step heeds (acts ++ more) s := by
  induction acts with
  | nil => exact fun _ h => h _ rfl
  | cons a acts ih =>
    refine fun h hmore => ⟨h.1, fun t ht => ih (h.2 t ht) fun u hu => hmore u ?_⟩
    rw [List.foldlM_cons, ht]
    exact hu

theorem inv_visited_all (next : ∀ s a t, inv s → step s a = some t → inv t) (acts : List α) {s : σ}
    (h : inv s) : ∀ t ∈ visited step acts s, inv t :=
  inv_visited (fun s a t hi _ hs => next s a t hi hs) acts h
    (heeded_of_forall (fun _ _ _ => (trivial : True)) s)

theorem heeded_congr {heeds' : σ → α → Prop} (next : ∀ s a t, inv s → step s a = some t → inv t)
    (same : ∀ s a, inv s → (heeds s a ↔ heeds' s a)) (acts : List α) : ∀ {s : σ}, inv s →
      (Heeded step heeds acts s ↔ Heeded step heeds' acts s) := by
  induction acts with
  | nil => exact fun _ => Iff.rfl
  | cons a acts ih =>
    exact fun h => and_congr (same _ a h) (forall₂_congr fun t ht => ih (next _ a t h ht))

/-- **A run keeps the property exactly when its actions meet the condition.** -/
theorem Rule.visited_iff (rule : Rule step inv good heeds) (acts : List α) : ∀ {s : σ}, inv s →
    ((∀ t ∈ visited step acts s, good t) ↔ Heeded step heeds acts s) := by
  induction acts with
  | nil =>
    intro s h
    simpa [visited, Heeded] using rule.sound s h
  | cons a acts ih =>
    intro s h
    constructor
    · intro hgood
      have ha : heeds s a := by
        by_contra hnot
        obtain ⟨t, hs, hbad⟩ := rule.fails s a h hnot
        exact hbad (hgood t (visited_of_step hs (start_mem_visited acts t)))
      exact ⟨ha, fun t hs => (ih (rule.next s a t h ha hs)).mp fun u hu =>
        hgood u (visited_of_step hs hu)⟩
    · intro hheeded t ht
      exact rule.sound t (inv_visited rule.next _ h hheeded t ht)

end ContinuumOS.Lib.Runs
