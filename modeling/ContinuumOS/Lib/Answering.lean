/-! # Machines that answer

A call takes a state to an answer and a state, or does not come back. Three rules
for runs from what is shown of one call: an invariant, the refinement of a
machine that always answers, and two runs that get the same answers, where each
may make silent calls of its own. A ghost is carried beside the state and read by
conditions only. -/
namespace ContinuumOS.Lib.Answering

variable {σ τ γ α β : Type}

/-- The answers to a list of calls, and the state afterwards. -/
def answers (call : σ → α → Option (β × σ)) : List α → σ → Option (List β × σ)
  | [], s => some ([], s)
  | a :: acts, s => do
    let (r, s) ← call s a
    let (rs, s) ← answers call acts s
    return (r :: rs, s)

/-- Every call of the list meets the condition where it is made. -/
def Meets (call : σ → α → Option (β × σ)) (ok : σ → α → Prop) : List α → σ → Prop
  | [], _ => True
  | a :: acts, s => ok s a ∧ ∀ r ∈ call s a, Meets call ok acts r.2

instance instDecidableMeets {call : σ → α → Option (β × σ)} {ok : σ → α → Prop}
    [∀ s a, Decidable (ok s a)] : ∀ (acts : List α) (s : σ), Decidable (Meets call ok acts s)
  | [], _ => .isTrue trivial
  | a :: acts, s =>
    have : DecidablePred fun r : β × σ => Meets call ok acts r.2 :=
      fun r => instDecidableMeets acts r.2
    inferInstanceAs (Decidable (ok s a ∧ ∀ r, r ∈ call s a → Meets call ok acts r.2))

/-- The answers of a machine that always answers, and its state afterwards. -/
def replies (spec : τ → α → β × τ) : List α → τ → List β × τ
  | [], t => ([], t)
  | a :: acts, t => ((spec t a).1 :: (replies spec acts (spec t a).2).1,
      (replies spec acts (spec t a).2).2)

/-- The machine with a ghost that follows the calls. -/
def ghosted (call : σ → α → Option (β × σ)) (follow : σ → γ → α → β → γ) (s : σ × γ) (a : α) :
    Option (β × σ × γ) := (call s.1 a).map fun r => (r.1, r.2, follow s.1 s.2 a r.1)

variable {call : σ → α → Option (β × σ)} {ok : σ → α → Prop} {acts acts' : List α}

theorem answers_cons {a : α} {s : σ} {rs : List β} {u : σ}
    (h : answers call (a :: acts) s = some (rs, u)) :
    ∃ r t rs', call s a = some (r, t) ∧ answers call acts t = some (rs', u) ∧ rs = r :: rs' := by
  obtain ⟨⟨r, t⟩, hr, h⟩ := Option.bind_eq_some_iff.mp h
  obtain ⟨⟨rs', u'⟩, hrs, h⟩ := Option.bind_eq_some_iff.mp h
  cases h
  exact ⟨r, t, rs', hr, hrs, rfl⟩

theorem answers_step {a : α} {s t u : σ} {r : β} {rs : List β} (hr : call s a = some (r, t))
    (hrs : answers call acts t = some (rs, u)) :
    answers call (a :: acts) s = some (r :: rs, u) := by
  rw [answers, hr, Option.bind_eq_bind, Option.bind_some]
  simp only [hrs]
  rfl

theorem inv_answers {P : σ → Prop}
    (next : ∀ s a r t, P s → ok s a → call s a = some (r, t) → P t) : ∀ {acts : List α}
      {s : σ} {rs : List β} {u : σ}, P s → Meets call ok acts s →
        answers call acts s = some (rs, u) → P u := by
  intro acts
  induction acts with
  | nil =>
    intro s rs u h _ hrun
    cases hrun
    exact h
  | cons a acts ih =>
    intro s rs u h hmeets hrun
    obtain ⟨r, t, rs', hr, hrs, -⟩ := answers_cons hrun
    exact ih (next s a r t h hmeets.1 hr) (hmeets.2 _ hr) hrs

/-- **Refinement.** A machine that takes every call as the specification does comes
back from every run, with the answers of the specification. -/
theorem answers_refine {spec : τ → α → β × τ} {R : σ → τ → Prop}
    (sim : ∀ s t a, R s t → ok s a → ∃ s', call s a = some ((spec t a).1, s') ∧ R s' (spec t a).2) :
    ∀ {acts : List α} {s : σ} {t : τ}, R s t → Meets call ok acts s →
      ∃ s', answers call acts s = some ((replies spec acts t).1, s') ∧
        R s' (replies spec acts t).2 := by
  intro acts
  induction acts with
  | nil => exact fun h _ => ⟨_, rfl, h⟩
  | cons a acts ih =>
    intro s t h hmeets
    obtain ⟨u, hu, hR⟩ := sim s t a h hmeets.1
    obtain ⟨s', hs', hR'⟩ := ih hR (hmeets.2 _ hu)
    exact ⟨s', answers_step hu hs', hR'⟩

/-! ## Two runs -/

/-- Two lists of calls that differ in silent calls only. -/
inductive Alike (silent : α → Bool) : List α → List α → Prop where
  | nil : Alike silent [] []
  | both {acts acts' : List α} (a : α) : Alike silent acts acts' →
      Alike silent (a :: acts) (a :: acts')
  | left {acts acts' : List α} {a : α} : silent a = true → Alike silent acts acts' →
      Alike silent (a :: acts) acts'
  | right {acts acts' : List α} {a : α} : silent a = true → Alike silent acts acts' →
      Alike silent acts (a :: acts')

theorem alike_of_filter {silent : α → Bool} :
    ∀ {acts acts' : List α}, acts.filter (!silent ·) = acts'.filter (!silent ·) →
      Alike silent acts acts' := by
  intro acts
  induction acts with
  | nil =>
    intro acts' h
    induction acts' with
    | nil => exact .nil
    | cons b acts' ih =>
      by_cases hb : silent b = true
      · rw [List.filter_cons_of_neg (by rw [hb]; decide)] at h
        exact .right hb (ih h)
      · rw [List.filter_cons_of_pos (by simpa using hb)] at h
        cases h
  | cons a acts ih =>
    intro acts' h
    by_cases ha : silent a = true
    · rw [List.filter_cons_of_neg (by rw [ha]; decide)] at h
      exact .left ha (ih h)
    rw [List.filter_cons_of_pos (by simpa using ha)] at h
    -- the call is behind silent ones of the other list
    induction acts' with
    | nil => cases h
    | cons b acts' ih' =>
      by_cases hb : silent b = true
      · rw [List.filter_cons_of_neg (by rw [hb]; decide)] at h
        exact .right hb (ih' h)
      · rw [List.filter_cons_of_pos (by simpa using hb)] at h
        obtain ⟨rfl, hrest⟩ := List.cons.inj h
        exact .both a (ih hrest)

/-- **Two runs.** From related states a call that both make gets one answer and leads
to related states, and a silent call of one of them is not heard: so is what the two
runs hear the same. -/
theorem answers_twin {call' : τ → α → Option (β × τ)} {ok' : τ → α → Prop} {R : σ → τ → Prop}
    {silent : α → Bool} {heard : β → Bool}
    (both : ∀ s t a r u, R s t → ok s a → ok' t a → call s a = some (r, u) →
      ∃ v, call' t a = some (r, v) ∧ R u v)
    (left : ∀ s t a r u, R s t → silent a = true → ok s a → call s a = some (r, u) →
      heard r = false ∧ R u t)
    (right : ∀ s t a, R s t → silent a = true → ok' t a →
      ∃ r v, call' t a = some (r, v) ∧ heard r = false ∧ R s v)
    (h : Alike silent acts acts') : ∀ {s : σ} {t : τ} {u : σ} {rs : List β}, R s t →
      Meets call ok acts s → Meets call' ok' acts' t → answers call acts s = some (rs, u) →
        ∃ rs' v, answers call' acts' t = some (rs', v) ∧ rs'.filter heard = rs.filter heard ∧
          R u v := by
  induction h with
  | nil =>
    intro s t u rs hR _ _ hrun
    cases hrun
    exact ⟨[], t, rfl, rfl, hR⟩
  | both a _ ih =>
    intro s t u rs hR hmeets hmeets' hrun
    obtain ⟨r, w, rs₁, hr, hrs, rfl⟩ := answers_cons hrun
    obtain ⟨v, hv, hR'⟩ := both _ _ _ _ _ hR hmeets.1 hmeets'.1 hr
    obtain ⟨rs', v', hv', hheard, hR''⟩ := ih hR' (hmeets.2 _ hr) (hmeets'.2 _ hv) hrs
    exact ⟨r :: rs', v', answers_step hv hv', by simp only [List.filter_cons, hheard], hR''⟩
  | left ha _ ih =>
    intro s t u rs hR hmeets hmeets' hrun
    obtain ⟨r, w, rs₁, hr, hrs, rfl⟩ := answers_cons hrun
    obtain ⟨hquiet, hR'⟩ := left _ _ _ _ _ hR ha hmeets.1 hr
    obtain ⟨rs', v', hv', hheard, hR''⟩ := ih hR' (hmeets.2 _ hr) hmeets' hrs
    exact ⟨rs', v', hv', by simp only [List.filter_cons, hquiet, hheard]; rfl, hR''⟩
  | right ha _ ih =>
    intro s t u rs hR hmeets hmeets' hrun
    obtain ⟨r, v, hv, hquiet, hR'⟩ := right _ _ _ hR ha hmeets'.1
    obtain ⟨rs', v', hv', hheard, hR''⟩ := ih hR' hmeets (hmeets'.2 _ hv) hrun
    exact ⟨r :: rs', v', answers_step hv hv', by simp only [List.filter_cons, hquiet, hheard]; rfl,
      hR''⟩

/-! ## Ghosts -/

theorem answers_ghosted {follow : σ → γ → α → β → γ} {s u : σ} {rs : List β} (g : γ)
    (h : answers call acts s = some (rs, u)) :
    ∃ g', answers (ghosted call follow) acts (s, g) = some (rs, u, g') := by
  induction acts generalizing s rs g with
  | nil =>
    cases h
    exact ⟨g, rfl⟩
  | cons a acts ih =>
    obtain ⟨r, t, rs', hr, hrs, rfl⟩ := answers_cons h
    obtain ⟨g', hg'⟩ := ih (follow s g a r) hrs
    refine ⟨g', answers_step (t := (t, follow s g a r)) ?_ hg'⟩
    rw [ghosted, hr]
    rfl

end ContinuumOS.Lib.Answering
