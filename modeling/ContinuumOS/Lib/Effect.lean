import Mathlib.Logic.Basic

/-! # Programs over a state

A program takes a state to a result and a state, or never comes back. `Triple`
is partial correctness; its rules follow the program text. -/
namespace ContinuumOS.Lib.Effect

/-- `none`: the program does not come back. -/
def Eff (σ α : Type) : Type := σ → Option (α × σ)

variable {σ α β : Type}

namespace Eff

def pure (a : α) : Eff σ α := fun s => some (a, s)

def bind (m : Eff σ α) (f : α → Eff σ β) : Eff σ β := fun s => (m s).bind fun r => f r.1 r.2

/-- The state. -/
def get : Eff σ σ := fun s => some (s, s)

def modify (f : σ → σ) : Eff σ Unit := fun s => some ((), f s)

/-- The program that never comes back. -/
def diverge : Eff σ α := fun _ => none

end Eff

instance : Monad (Eff σ) where
  pure := Eff.pure
  bind := Eff.bind

@[simp] theorem pure_run (a : α) (s : σ) : (pure a : Eff σ α) s = some (a, s) := rfl

@[simp] theorem bind_run (m : Eff σ α) (f : α → Eff σ β) (s : σ) :
    (m >>= f) s = (m s).bind fun r => f r.1 r.2 := rfl

theorem bind_eq_some {m : Eff σ α} {f : α → Eff σ β} {s : σ} {r : β × σ}
    (h : (m >>= f) s = some r) : ∃ a t, m s = some (a, t) ∧ f a t = some r := by
  rw [bind_run] at h
  obtain ⟨⟨a, t⟩, ht, hb⟩ := Option.bind_eq_some_iff.mp h
  exact ⟨a, t, ht, hb⟩

theorem get_bind_eq_some {f : σ → Eff σ β} {s : σ} {r : β × σ} (h : (Eff.get >>= f) s = some r) :
    f s s = some r := h

@[simp] theorem get_run (s : σ) : (Eff.get : Eff σ σ) s = some (s, s) := rfl

@[simp] theorem modify_run (f : σ → σ) (s : σ) : Eff.modify f s = some ((), f s) := rfl

@[simp] theorem diverge_run (s : σ) : (Eff.diverge : Eff σ α) s = none := rfl

@[simp] theorem ite_run (c : Prop) [Decidable c] (m n : Eff σ α) (s : σ) :
    (if c then m else n : Eff σ α) s = if c then m s else n s := by
  split <;> rfl

/-! ## Partial correctness -/

/-- From a state with `P`, whatever comes back is as `Q` says. -/
def Triple (P : σ → Prop) (m : Eff σ α) (Q : α → σ → Prop) : Prop :=
  ∀ s, P s → ∀ a s', m s = some (a, s') → Q a s'

namespace Triple

variable {P P' : σ → Prop} {Q Q' : α → σ → Prop} {m n : Eff σ α}

theorem conseq (h : Triple P m Q) (hp : ∀ s, P' s → P s) (hq : ∀ a s, Q a s → Q' a s) :
    Triple P' m Q' := fun s hs a s' hr => hq a s' (h s (hp s hs) a s' hr)

theorem pre (h : Triple P m Q) (hp : ∀ s, P' s → P s) : Triple P' m Q := h.conseq hp fun _ _ => id

theorem post (h : Triple P m Q) (hq : ∀ a s, Q a s → Q' a s) : Triple P m Q' := h.conseq (fun _ => id) hq

theorem pure {a : α} (h : ∀ s, P s → Q a s) : Triple P (Pure.pure a) Q := by
  intro s hs b s' hr
  obtain ⟨rfl, rfl⟩ := Prod.mk.inj (Option.some.inj hr)
  exact h s hs

theorem bind {R : β → σ → Prop} {f : α → Eff σ β} (hm : Triple P m Q)
    (hf : ∀ a, Triple (Q a) (f a) R) : Triple P (m >>= f) R := by
  intro s hs b s' hr
  obtain ⟨a, t, ht, hb⟩ := bind_eq_some hr
  exact hf a t (hm s hs a t ht) b s' hb

theorem ite {c : Prop} [Decidable c] (hm : c → Triple P m Q) (hn : ¬ c → Triple P n Q) :
    Triple P (if c then m else n) Q := by
  split
  · rename_i h; exact hm h
  · rename_i h; exact hn h

theorem get_bind {f : σ → Eff σ β} {R : β → σ → Prop}
    (h : ∀ s, P s → Triple (fun t => t = s) (f s) R) : Triple P (Eff.get >>= f) R := by
  intro s hs b s' hr
  exact h s hs s rfl b s' hr

theorem and (h : Triple P m Q) (h' : Triple P' m Q') :
    Triple (fun s => P s ∧ P' s) m fun a s => Q a s ∧ Q' a s :=
  fun s hs a s' hr => ⟨h s hs.1 a s' hr, h' s hs.2 a s' hr⟩

theorem intro (h : ∀ s, P s → Triple (fun t => t = s) m Q) : Triple P m Q := by
  intro s hs
  exact h s hs s rfl

theorem modify {f : σ → σ} {R : Unit → σ → Prop} (h : ∀ s, P s → R () (f s)) :
    Triple P (Eff.modify f) R := by
  intro s hs a s' hr
  obtain ⟨-, rfl⟩ := Prod.mk.inj (Option.some.inj hr)
  exact h s hs

theorem diverge : Triple P (Eff.diverge : Eff σ α) Q := by
  intro s _ a s' hr
  cases hr

end Triple

/-! ## What a program leaves alone -/

/-- What `view` shows of the state is afterwards what it was before. -/
def Keeps {γ : Type} (view : σ → γ) (m : Eff σ α) : Prop :=
  ∀ s a s', m s = some (a, s') → view s' = view s

namespace Keeps

variable {γ : Type} {view : σ → γ} {m n : Eff σ α}

theorem pure (a : α) : Keeps view (Pure.pure a : Eff σ α) := by
  intro s b s' hr
  obtain ⟨-, rfl⟩ := Prod.mk.inj (Option.some.inj hr)
  rfl

theorem bind {k : α → Eff σ β} (hm : Keeps view m) (hk : ∀ a, Keeps view (k a)) :
    Keeps view (m >>= k) := by
  intro s b s' hr
  obtain ⟨a, t, ht, hb⟩ := bind_eq_some hr
  exact (hk a t b s' hb).trans (hm s a t ht)

theorem bind_option {m : Eff σ (Option α)} {k : Option α → Eff σ β} (hm : Keeps view m)
    (hnone : Keeps view (k none)) (hsome : ∀ a, Keeps view (k (some a))) :
    Keeps view (m >>= k) := by
  refine hm.bind fun r => ?_
  cases r with
  | none => exact hnone
  | some a => exact hsome a

theorem get_bind {k : σ → Eff σ β} (hk : ∀ s, Keeps view (k s)) : Keeps view (Eff.get >>= k) :=
  fun s => hk s s

theorem ite {c : Prop} [Decidable c] (hm : c → Keeps view m) (hn : ¬ c → Keeps view n) :
    Keeps view (if c then m else n) := by
  split
  · rename_i h; exact hm h
  · rename_i h; exact hn h

theorem modify {f : σ → σ} (hf : ∀ s, view (f s) = view s) : Keeps view (Eff.modify f) := by
  intro s a s' hr
  obtain ⟨-, rfl⟩ := Prod.mk.inj (Option.some.inj hr)
  exact hf s

theorem diverge : Keeps view (Eff.diverge : Eff σ α) := by
  intro s a s' hr
  cases hr

end Keeps

end ContinuumOS.Lib.Effect

/-! # Two runs that give the same result

Two programs run side by side from related states. `Lockstep` says that both come
back, with one and the same result and in states that are related again. -/
namespace ContinuumOS.Lib.Lockstep
open ContinuumOS.Lib.Effect

variable {σ τ α β : Type}

/-- From states related by `R` both programs come back with one result, which is
as `Q` says, and in states related by `R`. -/
def Lockstep (R : σ → τ → Prop) (m : Eff σ α) (n : Eff τ α) (Q : α → Prop) : Prop :=
  ∀ s t, R s t → ∃ a s' t', m s = some (a, s') ∧ n t = some (a, t') ∧ R s' t' ∧ Q a

namespace Lockstep

variable {R : σ → τ → Prop} {m m' : Eff σ α} {n n' : Eff τ α} {Q : α → Prop}

theorem pure {a : α} (h : Q a) : Lockstep R (Pure.pure a) (Pure.pure a) Q :=
  fun s t hr => ⟨a, s, t, rfl, rfl, hr, h⟩

theorem bind {Q' : β → Prop} {f : α → Eff σ β} {g : α → Eff τ β} (h : Lockstep R m n Q)
    (hf : ∀ a, Q a → Lockstep R (f a) (g a) Q') : Lockstep R (m >>= f) (n >>= g) Q' := by
  intro s t hr
  obtain ⟨a, s', t', hm, hn, hr', ha⟩ := h s t hr
  obtain ⟨b, s'', t'', hm', hn', hr'', hb⟩ := hf a ha s' t' hr'
  refine ⟨b, s'', t'', ?_, ?_, hr'', hb⟩
  · rw [bind_run, hm]
    exact hm'
  · rw [bind_run, hn]
    exact hn'

theorem get_bind {f : σ → Eff σ α} {g : τ → Eff τ α}
    (h : ∀ s t, R s t → Lockstep R (f s) (g t) Q) : Lockstep R (Eff.get >>= f) (Eff.get >>= g) Q :=
  fun s t hr => h s t hr s t hr

theorem ite {c d : Prop} [Decidable c] [Decidable d] (hcd : c ↔ d) (hm : c → Lockstep R m n Q)
    (hn : ¬ c → Lockstep R m' n' Q) :
    Lockstep R (if c then m else m') (if d then n else n') Q := by
  by_cases hc : c
  · rw [if_pos hc, if_pos (hcd.mp hc)]
    exact hm hc
  · rw [if_neg hc, if_neg fun hd => hc (hcd.mpr hd)]
    exact hn hc

end Lockstep

end ContinuumOS.Lib.Lockstep

/-! # Programs that do not look

A part of the state can be set. A program is blind to the part if it does the same
whatever the part is, and leaves it alone; the rules follow the program text. -/
namespace ContinuumOS.Lib.Blindness
open ContinuumOS.Lib.Effect

variable {σ γ α β : Type} {set : γ → σ → σ} {m n : Eff σ α}

/-- The program neither reads the part that `set` sets nor changes it. -/
def Blind (set : γ → σ → σ) (m : Eff σ α) : Prop :=
  ∀ x s, m (set x s) = (m s).map fun r => (r.1, set x r.2)

namespace Blind

theorem pure (a : α) : Blind set (Pure.pure a : Eff σ α) := fun _ _ => rfl

theorem bind {k : α → Eff σ β} (hm : Blind set m) (hk : ∀ a, Blind set (k a)) :
    Blind set (m >>= k) := by
  intro x s
  rw [bind_run, hm x s, bind_run]
  cases m s with
  | none => rfl
  | some r => exact hk r.1 x r.2

theorem get_bind {k : σ → Eff σ β} (hk : ∀ s, Blind set (k s)) (hsame : ∀ x s, k (set x s) = k s) :
    Blind set (Eff.get >>= k) := by
  intro x s
  change k (set x s) (set x s) = _
  rw [hsame]
  exact hk s x s

theorem ite {c : Prop} [Decidable c] (hm : c → Blind set m) (hn : ¬ c → Blind set n) :
    Blind set (if c then m else n) := by
  split
  · rename_i h; exact hm h
  · rename_i h; exact hn h

theorem modify {f : σ → σ} (hf : ∀ x s, f (set x s) = set x (f s)) : Blind set (Eff.modify f) :=
  fun x s => congrArg (fun t => some ((), t)) (hf x s)

theorem run (h : Blind set m) {s s' : σ} {a : α} (hm : m s = some (a, s')) (x : γ) :
    m (set x s) = some (a, set x s') := by
  rw [h x s, hm]
  rfl

end Blind

end ContinuumOS.Lib.Blindness

/-! # Ghost state

A program may carry a value beside its state that it changes and never reads.
`Erases` says that forgetting this value leaves another program; the rules
follow the program text. A fact about the value is then a fact about the runs
of the program without it. -/
namespace ContinuumOS.Lib.Ghost
open ContinuumOS.Lib.Effect

variable {σ τ γ α β : Type}

/-- A program that leaves the ghost alone. -/
def beside (m : Eff σ α) : Eff (σ × γ) α := fun s => (m s.1).map fun r => (r.1, r.2, s.2)

/-- A change of the ghost. -/
def note (f : γ → γ) : Eff (σ × γ) Unit := Eff.modify fun s => (s.1, f s.2)

/-- A program on a part of the state. -/
def within (part : τ → σ) (put : τ → σ → τ) (m : Eff (σ × γ) α) : Eff (τ × γ) α := fun s =>
  (m (part s.1, s.2)).map fun r => (r.1, put s.1 r.2.1, r.2.2)

theorem beside_eq_some {m : Eff σ α} {s t : σ × γ} {a : α} (h : beside m s = some (a, t)) :
    m s.1 = some (a, t.1) ∧ t.2 = s.2 := by
  obtain ⟨⟨b, u⟩, hu, hr⟩ := Option.map_eq_some_iff.mp h
  cases hr
  exact ⟨hu, rfl⟩

theorem within_eq_some {part : τ → σ} {put : τ → σ → τ} {m : Eff (σ × γ) α} {s t : τ × γ} {a : α}
    (h : within part put m s = some (a, t)) :
    ∃ u, m (part s.1, s.2) = some (a, u, t.2) ∧ t.1 = put s.1 u := by
  obtain ⟨⟨b, u, g⟩, hu, hr⟩ := Option.map_eq_some_iff.mp h
  cases hr
  exact ⟨u, hu, rfl⟩

/-- Without the ghost the first program is the second. -/
def Erases (m : Eff (σ × γ) α) (n : Eff σ α) : Prop :=
  ∀ s g, (m (s, g)).map (fun r => (r.1, r.2.1)) = n s

namespace Erases

variable {m : Eff (σ × γ) α} {n : Eff σ α}

theorem of_run (h : Erases m n) {s t : σ × γ} {a : α} (hr : m s = some (a, t)) :
    n s.1 = some (a, t.1) := by
  rw [← h s.1 s.2, hr]
  rfl

theorem run (h : Erases m n) {s t : σ} {a : α} (hr : n s = some (a, t)) (g : γ) :
    ∃ g', m (s, g) = some (a, t, g') := by
  rw [← h s g] at hr
  obtain ⟨⟨b, u, g'⟩, hu, hb⟩ := Option.map_eq_some_iff.mp hr
  cases hb
  exact ⟨g', hu⟩

theorem pure (a : α) : Erases (Pure.pure a : Eff (σ × γ) α) (Pure.pure a) := fun _ _ => rfl

theorem beside (n : Eff σ α) : Erases (γ := γ) (Ghost.beside n) n := by
  intro s g
  rw [Ghost.beside, Option.map_map]
  exact Option.map_id'

theorem bind {f : α → Eff (σ × γ) β} {k : α → Eff σ β} (hm : Erases m n)
    (hf : ∀ a, Erases (f a) (k a)) : Erases (m >>= f) (n >>= k) := by
  intro s g
  rw [bind_run, bind_run, ← hm s g, Option.map_bind, Option.bind_map]
  exact congrArg _ (funext fun r => hf r.1 r.2.1 r.2.2)

theorem note_bind {f : γ → γ} {k : Unit → Eff (σ × γ) α} (hk : Erases (k ()) n) :
    Erases (note f >>= k) n := fun s g => hk s (f g)

theorem ite {c : Prop} [Decidable c] {m' : Eff (σ × γ) α} {n' : Eff σ α} (hm : Erases m n)
    (hm' : Erases m' n') : Erases (if c then m else m') (if c then n else n') := by
  split
  · exact hm
  · exact hm'

theorem within {part : τ → σ} {put : τ → σ → τ} (h : Erases m n) :
    Erases (Ghost.within part put m) fun t => (n (part t)).map fun r => (r.1, put t r.2) := by
  intro t g
  show _ = (n (part t)).map _
  rw [Ghost.within, Option.map_map, ← h (part t) g, Option.map_map]
  rfl

end Erases

end ContinuumOS.Lib.Ghost

/-! # Services that may fail

A state may say how the services that a program asks will answer. `ideal` gives
the state in which they all answer well. A program that only gives up where a
service fails comes back with a bad result, or it has run as in the ideal state. -/
namespace ContinuumOS.Lib.Fallible
open ContinuumOS.Lib.Effect

variable {σ α β : Type}

/-- A run gives a bad result, or it is the run from the ideal state. -/
def Falters (ideal : σ → σ) (bad : α → Prop) (m : Eff σ α) : Prop :=
  ∀ s a t, m s = some (a, t) → bad a ∨ m (ideal s) = some (a, ideal t)

namespace Falters

variable {ideal : σ → σ} {bad : α → Prop} {m m' : Eff σ α}

theorem pure (a : α) : Falters ideal bad (Pure.pure a) := by
  intro s b t hr
  obtain ⟨rfl, rfl⟩ := Prod.mk.inj (Option.some.inj hr)
  exact .inr rfl

theorem diverge : Falters ideal bad (Eff.diverge : Eff σ α) := by
  intro s a t hr
  cases hr

theorem modify {f : σ → σ} {bad : Unit → Prop} (h : ∀ s, f (ideal s) = ideal (f s)) :
    Falters ideal bad (Eff.modify f) := by
  intro s a t hr
  obtain ⟨rfl, rfl⟩ := Prod.mk.inj (Option.some.inj hr)
  refine .inr ?_
  rw [modify_run, h]

theorem ite {c : Prop} [Decidable c] (hm : c → Falters ideal bad m)
    (hm' : ¬ c → Falters ideal bad m') : Falters ideal bad (if c then m else m') := by
  split
  · rename_i h; exact hm h
  · rename_i h; exact hm' h

theorem bind {badB : β → Prop} {f : α → Eff σ β} (hm : Falters ideal bad m)
    (hf : ∀ a, Falters ideal badB (f a))
    (hbad : ∀ a, bad a → Triple (fun _ => True) (f a) fun b _ => badB b) :
    Falters ideal badB (m >>= f) := by
  intro s b t hr
  obtain ⟨a, u, hu, hb⟩ := bind_eq_some hr
  rcases hm s a u hu with ha | ha
  · exact .inl (hbad a ha u trivial b t hb)
  · refine (hf a u b t hb).imp_right fun h => ?_
    rw [bind_run, ha]
    exact h

theorem bind_option {badB : β → Prop} {m : Eff σ (Option α)} {f : Option α → Eff σ β}
    (hm : Falters ideal (· = none) m) (hnone : Falters ideal badB (f none))
    (hsome : ∀ a, Falters ideal badB (f (some a)))
    (hbad : Triple (fun _ => True) (f none) fun b _ => badB b) : Falters ideal badB (m >>= f) := by
  refine hm.bind (fun r => ?_) fun r hr => by rwa [hr]
  cases r with
  | none => exact hnone
  | some a => exact hsome a

theorem get_bind {f : σ → Eff σ α} (hread : ∀ s, f (ideal s) = f s)
    (hf : ∀ s, Falters ideal bad (f s)) : Falters ideal bad (Eff.get >>= f) := by
  intro s a t hr
  refine (hf s s a t hr).imp_right fun h => ?_
  rw [← hread s] at h
  exact h

end Falters

end ContinuumOS.Lib.Fallible
