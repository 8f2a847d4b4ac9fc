import ContinuumOS.Lib.Effect

/-! # Guarded programs

A guarded program runs like a program over a state, but checks some of its steps
and stops at the first one that fails. `Follows` ties it to the program without
the checks; `Safe` says that it never stops so, `Stops` that it does. -/
namespace ContinuumOS.Lib.Guards
open ContinuumOS.Lib.Effect

variable {σ ε α β : Type}

/-- A program that comes back with a result or from a check that failed. -/
def Guarded (σ ε α : Type) : Type := σ → Option (Except ε α × σ)

namespace Guarded

def pure (a : α) : Guarded σ ε α := fun s => some (.ok a, s)

def bind (m : Guarded σ ε α) (f : α → Guarded σ ε β) : Guarded σ ε β := fun s =>
  (m s).bind fun r => match r.1 with
    | .ok a => f a r.2
    | .error e => some (.error e, r.2)

/-- A program without checks. -/
def lift (m : Eff σ α) : Guarded σ ε α := fun s => (m s).map fun r => (.ok r.1, r.2)

/-- The state. -/
def get : Guarded σ ε σ := lift Eff.get

def modify (f : σ → σ) : Guarded σ ε Unit := lift (Eff.modify f)

/-- The program that never comes back. -/
def diverge : Guarded σ ε α := lift Eff.diverge

/-- Goes on in a state that passes. -/
def check (passes : σ → Bool) (e : ε) : Guarded σ ε Unit := fun s =>
  some (if passes s then .ok () else .error e, s)

end Guarded

instance : Monad (Guarded σ ε) where
  pure := Guarded.pure
  bind := Guarded.bind

instance : MonadLift (Eff σ) (Guarded σ ε) where
  monadLift := Guarded.lift

theorem lift_run {n : Eff σ α} {s t : σ} {a : α} (h : n s = some (a, t)) :
    (liftM n : Guarded σ ε α) s = some (.ok a, t) := by
  show (n s).map _ = _
  rw [h]
  rfl

theorem bind_ok {m : Guarded σ ε α} {f : α → Guarded σ ε β} {s t : σ} {a : α}
    (h : m s = some (.ok a, t)) : (m >>= f) s = f a t := by
  show (m s).bind _ = _
  rw [h]
  rfl

theorem bind_error {m : Guarded σ ε α} {f : α → Guarded σ ε β} {s t : σ} {e : ε}
    (h : m s = some (.error e, t)) : (m >>= f) s = some (.error e, t) := by
  show (m s).bind _ = _
  rw [h]
  rfl

/-! ## Stopping -/

/-- The program stops at a check. -/
def Stops (m : Guarded σ ε α) (s : σ) : Prop := ∃ e t, m s = some (.error e, t)

/-- The program stops at a check or runs like the one without checks. -/
def Follows (m : Guarded σ ε α) (n : Eff σ α) : Prop := ∀ s, Stops m s ∨ m s = Guarded.lift n s

section

variable {m m' : Guarded σ ε α} {n n' : Eff σ α} {f : α → Guarded σ ε β} {s t : σ} {a : α}

theorem Stops.bind (h : Stops m s) : Stops (m >>= f) s := by
  obtain ⟨e, t, hm⟩ := h
  exact ⟨e, t, bind_error hm⟩

theorem Stops.of_eq (h : Stops (f a) t) (hm : m s = some (.ok a, t)) : Stops (m >>= f) s := by
  obtain ⟨e, u, hf⟩ := h
  exact ⟨e, u, (bind_ok hm).trans hf⟩

theorem Stops.ite_pos {c : Prop} [Decidable c] (hc : c) (h : Stops m s) :
    Stops (if c then m else m') s := by
  rw [if_pos hc]
  exact h

theorem Stops.ite_neg {c : Prop} [Decidable c] (hc : ¬ c) (h : Stops m' s) :
    Stops (if c then m else m') s := by
  rw [if_neg hc]
  exact h

theorem Stops.check {passes : σ → Bool} {e : ε} (h : passes s = false) :
    Stops (Guarded.check passes e) s := by
  refine ⟨e, s, ?_⟩
  rw [Guarded.check, h]
  rfl

theorem Stops.check_bind {passes : σ → Bool} {e : ε} {k : Unit → Guarded σ ε α}
    (h : Stops (k ()) s) : Stops (Guarded.check passes e >>= k) s := by
  cases hp : passes s with
  | false => exact (Stops.check hp).bind
  | true => exact h.of_eq (by rw [Guarded.check, hp]; rfl)

theorem Stops.lift_bind (hn : n s = some (a, t)) (h : Stops (f a) t) :
    Stops (liftM n >>= f) s := h.of_eq (lift_run hn)

theorem Stops.get_bind {k : σ → Guarded σ ε α} (h : Stops (k s) s) :
    Stops (Guarded.get >>= k) s := h.of_eq rfl

theorem Follows.run (h : Follows m n) (hn : n s = some (a, t)) :
    Stops m s ∨ m s = some (.ok a, t) := (h s).imp_right fun hm => hm.trans (lift_run hn)

theorem Stops.bind_run (h : Stops (f a) t) (hm : Follows m n) (hn : n s = some (a, t)) :
    Stops (m >>= f) s := (hm.run hn).elim (fun hs => hs.bind) fun hs => h.of_eq hs

/-! ## Following a program -/

namespace Follows

theorem pure (a : α) : Follows (Pure.pure a : Guarded σ ε α) (Pure.pure a) := fun _ => .inr rfl

theorem lift (n : Eff σ α) : Follows (liftM n : Guarded σ ε α) n := fun _ => .inr rfl

theorem get : Follows (Guarded.get : Guarded σ ε σ) Eff.get := fun _ => .inr rfl

theorem modify (g : σ → σ) : Follows (Guarded.modify g : Guarded σ ε Unit) (Eff.modify g) :=
  fun _ => .inr rfl

theorem diverge : Follows (Guarded.diverge : Guarded σ ε α) Eff.diverge := fun _ => .inr rfl

theorem bind {k : α → Eff σ β} (hm : Follows m n) (hf : ∀ a, Follows (f a) (k a)) :
    Follows (m >>= f) (n >>= k) := by
  intro s
  rcases hm s with hs | hs
  · exact .inl hs.bind
  · cases hn : n s with
    | none =>
      refine .inr ?_
      show (m s).bind _ = Option.map _ ((n s).bind _)
      rw [hs, Guarded.lift, hn]
      rfl
    | some r =>
      have hr : m s = some (.ok r.1, r.2) := hs.trans (lift_run hn)
      refine (hf r.1 r.2).imp (fun h => h.of_eq hr) fun h => (bind_ok hr).trans (h.trans ?_)
      show _ = Option.map _ ((n s).bind _)
      rw [hn]
      rfl

theorem bind_pure {k : Eff σ β} (hm : Follows m (Pure.pure a)) (hf : Follows (f a) k) :
    Follows (m >>= f) k := by
  intro s
  rcases hm s with hs | hs
  · exact .inl hs.bind
  · have hr : m s = some (.ok a, s) := hs
    exact (hf s).imp (fun h => h.of_eq hr) fun h => (bind_ok hr).trans h

theorem bind_none (hm : Follows m (Eff.diverge : Eff σ α)) :
    Follows (m >>= f) (Eff.diverge : Eff σ β) := by
  intro s
  refine (hm s).imp (fun h => h.bind) fun h => ?_
  show (m s).bind _ = none
  rw [h]
  rfl

theorem check (passes : σ → Bool) (e : ε) :
    Follows (Guarded.check passes e) (Pure.pure () : Eff σ Unit) := by
  intro s
  cases hp : passes s with
  | false => exact .inl (Stops.check hp)
  | true =>
    refine .inr ?_
    rw [Guarded.check, hp]
    rfl

theorem check_bind {passes : σ → Bool} {e : ε} {k : Unit → Guarded σ ε α}
    (hk : Follows (k ()) n) : Follows (Guarded.check passes e >>= k) n := (check passes e).bind_pure hk

theorem ite {c : Prop} [Decidable c] (hm : Follows m n) (hm' : Follows m' n') :
    Follows (if c then m else m') (if c then n else n') := by
  split
  · exact hm
  · exact hm'

end Follows

end

/-! ## Programs that pass every check -/

/-- From a state with `P` no check fails, and whatever comes back is as `Q` says. -/
def Safe (P : σ → Prop) (m : Guarded σ ε α) (Q : α → σ → Prop) : Prop :=
  ∀ s, P s → ∀ r t, m s = some (r, t) → ∃ a, r = .ok a ∧ Q a t

namespace Safe

variable {P P' : σ → Prop} {Q Q' : α → σ → Prop} {m m' : Guarded σ ε α} {n : Eff σ α}

theorem not_stops {s : σ} (h : Safe P m Q) (hs : P s) : ¬ Stops m s := by
  rintro ⟨e, t, hm⟩
  obtain ⟨a, ha, -⟩ := h s hs _ t hm
  cases ha

theorem conseq (h : Safe P m Q) (hp : ∀ s, P' s → P s) (hq : ∀ a s, Q a s → Q' a s) :
    Safe P' m Q' := by
  intro s hs r t hr
  obtain ⟨a, ha, hat⟩ := h s (hp s hs) r t hr
  exact ⟨a, ha, hq a t hat⟩

theorem pre (h : Safe P m Q) (hp : ∀ s, P' s → P s) : Safe P' m Q := h.conseq hp fun _ _ => id

theorem post (h : Safe P m Q) (hq : ∀ a s, Q a s → Q' a s) : Safe P m Q' := h.conseq (fun _ => id) hq

theorem pure {a : α} (h : ∀ s, P s → Q a s) : Safe P (Pure.pure a : Guarded σ ε α) Q := by
  intro s hs r t hr
  obtain ⟨rfl, rfl⟩ := Prod.mk.inj (Option.some.inj hr)
  exact ⟨a, rfl, h s hs⟩

theorem lift (h : Triple P n Q) : Safe P (liftM n : Guarded σ ε α) Q := by
  intro s hs r t hr
  obtain ⟨⟨a, u⟩, hn, hau⟩ := Option.map_eq_some_iff.mp hr
  obtain ⟨rfl, rfl⟩ := Prod.mk.inj hau
  exact ⟨a, rfl, h s hs a u hn⟩

theorem bind {R : β → σ → Prop} {f : α → Guarded σ ε β} (hm : Safe P m Q)
    (hf : ∀ a, Safe (Q a) (f a) R) : Safe P (m >>= f) R := by
  intro s hs r t hr
  obtain ⟨⟨x, u⟩, hu, hx⟩ := Option.bind_eq_some_iff.mp hr
  obtain ⟨a, rfl, ha⟩ := hm s hs x u hu
  exact hf a u ha r t hx

theorem bind_option {R : β → σ → Prop} {m : Guarded σ ε (Option α)}
    {Q : Option α → σ → Prop} {f : Option α → Guarded σ ε β} (hm : Safe P m Q)
    (hnone : Safe (Q none) (f none) R) (hsome : ∀ a, Safe (Q (some a)) (f (some a)) R) :
    Safe P (m >>= f) R := by
  refine hm.bind fun r => ?_
  cases r with
  | none => exact hnone
  | some a => exact hsome a

theorem ite {c : Prop} [Decidable c] (hm : c → Safe P m Q) (hm' : ¬ c → Safe P m' Q) :
    Safe P (if c then m else m') Q := by
  split
  · rename_i h; exact hm h
  · rename_i h; exact hm' h

theorem check {passes : σ → Bool} {e : ε} (h : ∀ s, P s → passes s = true) :
    Safe P (Guarded.check passes e) fun _ => P := by
  intro s hs r t hr
  rw [Guarded.check, h s hs] at hr
  obtain ⟨rfl, rfl⟩ := Prod.mk.inj (Option.some.inj hr)
  exact ⟨(), rfl, hs⟩

theorem check_bind {passes : σ → Bool} {e : ε} {k : Unit → Guarded σ ε α}
    (h : ∀ s, P s → passes s = true) (hk : Safe P (k ()) Q) :
    Safe P (Guarded.check passes e >>= k) Q := .bind (.check h) fun _ => hk

theorem and_triple {R : α → σ → Prop} (h : Safe P m Q) (hf : Follows m n) (ht : Triple P n R) :
    Safe P m fun a s => Q a s ∧ R a s := by
  intro s hs r t hr
  obtain ⟨a, rfl, ha⟩ := h s hs r t hr
  refine ⟨a, rfl, ha, ?_⟩
  rcases hf s with ⟨e, u, he⟩ | hrun
  · cases (hr.symm.trans he)
  · obtain ⟨⟨b, u⟩, hn, hbu⟩ := Option.map_eq_some_iff.mp (hrun.symm.trans hr)
    obtain ⟨hb, rfl⟩ := Prod.mk.inj hbu
    obtain rfl := Except.ok.inj hb
    exact ht s hs b u hn

theorem get_bind {f : σ → Guarded σ ε α} (h : ∀ s, P s → Safe (fun t => t = s) (f s) Q) :
    Safe P (Guarded.get >>= f) Q := by
  intro s hs r t hr
  exact h s hs s rfl r t hr

theorem modify {g : σ → σ} {R : Unit → σ → Prop} (h : ∀ s, P s → R () (g s)) :
    Safe P (Guarded.modify g : Guarded σ ε Unit) R := lift (.modify h)

theorem diverge : Safe P (Guarded.diverge : Guarded σ ε α) Q := lift .diverge

theorem intro (h : ∀ s, P s → Safe (fun t => t = s) m Q) : Safe P m Q := by
  intro s hs
  exact h s hs s rfl

end Safe

end ContinuumOS.Lib.Guards
