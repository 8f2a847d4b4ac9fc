import Mathlib.Data.Set.Function
import Mathlib.Logic.Function.Basic
import Mathlib.Data.List.Basic

/-! # Painting

A painting gives cells values, one after the other. Where it does not depend on
what the cells held, it keeps what two canvases have in common, and makes them
alike where it covers them. It may be moved to another place. -/
namespace ContinuumOS.Lib.Painting

variable {α β ι κ : Type} [DecidableEq ι] [DecidableEq κ]

def paint (ws : List (ι × α)) (f : ι → α) : ι → α :=
  ws.foldl (fun f w => Function.update f w.1 w.2) f

/-- The same values for cells at another place. -/
def moved (e : ι → κ) (ws : List (ι × α)) : List (κ × α) := ws.map fun w => (e w.1, w.2)

section

variable {f g : ι → α} {V : Set ι} {ws : List (ι × α)}

theorem paint_cons (w : ι × α) (ws : List (ι × α)) (f : ι → α) :
    paint (w :: ws) f = paint ws (Function.update f w.1 w.2) := rfl

theorem paint_flatMap (F : β → List (ι × α)) (l : List β) (f : ι → α) :
    paint (l.flatMap F) f = l.foldl (fun f b => paint (F b) f) f := List.foldl_flatMap

theorem paint_map (F : β → ι × α) (l : List β) (f : ι → α) :
    paint (l.map F) f = l.foldl (fun f b => Function.update f (F b).1 (F b).2) f := List.foldl_map

/-- **What canvases have in common stays so.** -/
theorem paint_eqOn : ∀ {ws : List (ι × α)} {f g : ι → α}, Set.EqOn f g V →
    Set.EqOn (paint ws f) (paint ws g) V
  | [], _, _, h => h
  | w :: ws, f, g, h => by
    have hone : Set.EqOn (Function.update f w.1 w.2) (Function.update g w.1 w.2) V := by
      intro i hi
      by_cases hw : i = w.1
      · rw [hw, Function.update_self, Function.update_self]
      · rw [Function.update_of_ne hw, Function.update_of_ne hw, h hi]
    rw [paint_cons, paint_cons]
    exact paint_eqOn hone

theorem paint_eq_of_mem {i : ι} {v : α} : ∀ {ws : List (ι × α)}, (i, v) ∈ ws →
    ∀ f g : ι → α, paint ws f i = paint ws g i
  | w :: ws, h, f, g => by
    rw [paint_cons, paint_cons]
    rcases List.mem_cons.mp h with he | h
    · have hat : Set.EqOn (Function.update f w.1 w.2) (Function.update g w.1 w.2) {i} := by
        intro j hj
        obtain rfl : j = i := hj
        rw [← he, Function.update_self, Function.update_self]
      exact paint_eqOn hat rfl
    · exact paint_eq_of_mem h _ _

theorem paint_append (ws vs : List (ι × α)) (f : ι → α) :
    paint (ws ++ vs) f = paint vs (paint ws f) := List.foldl_append

theorem paint_of_not_mem {i : ι} : ∀ {ws : List (ι × α)}, (∀ w ∈ ws, w.1 ≠ i) →
    ∀ f : ι → α, paint ws f i = f i
  | [], _, _ => rfl
  | w :: ws, h, f => by
    rw [paint_cons, paint_of_not_mem (fun v hv => h v (List.mem_cons_of_mem w hv)),
      Function.update_of_ne (h w List.mem_cons_self).symm]

theorem paint_of_mem {i : ι} {v : α} : ∀ {ws : List (ι × α)}, (i, v) ∈ ws →
    (∀ w ∈ ws, w.1 = i → w.2 = v) → ∀ f : ι → α, paint ws f i = v
  | w :: ws, h, hone, f => by
    rw [paint_cons]
    by_cases hlater : ∃ u ∈ ws, u.1 = i
    · obtain ⟨u, hu, hui⟩ := hlater
      refine paint_of_mem ?_ (fun u hu => hone u (List.mem_cons_of_mem w hu)) _
      rw [← hui, ← hone u (List.mem_cons_of_mem w hu) hui]
      exact hu
    · rw [paint_of_not_mem fun u hu hui => hlater ⟨u, hu, hui⟩]
      rcases List.mem_cons.mp h with he | hlate
      · rw [← he, Function.update_self]
      · exact absurd ⟨_, hlate, rfl⟩ hlater

/-- **A painting is taken back** by one that gives the cells what they held. -/
theorem paint_undone {ws vs : List (ι × α)} {f : ι → α} (hvalue : ∀ w ∈ ws, w.2 = f w.1)
    (hcover : ∀ v ∈ vs, ∃ w ∈ ws, w.1 = v.1) : paint ws (paint vs f) = f := by
  funext i
  by_cases hi : ∃ w ∈ ws, w.1 = i
  · obtain ⟨w, hw, rfl⟩ := hi
    refine paint_of_mem ?_ (fun u hu hui => ?_) _
    · rw [← hvalue w hw]
      exact hw
    · rw [hvalue u hu, hui]
  · rw [paint_of_not_mem fun w hw hwi => hi ⟨w, hw, hwi⟩]
    refine paint_of_not_mem (fun v hv hvi => ?_) f
    obtain ⟨w, hw, hwv⟩ := hcover v hv
    exact hi ⟨w, hw, hwv.trans hvi⟩

/-- **What is covered is alike.** -/
theorem paint_covers (h : ∀ i ∈ V, ∃ v, (i, v) ∈ ws) (f g : ι → α) :
    Set.EqOn (paint ws f) (paint ws g) V := fun i hi => by
  obtain ⟨v, hv⟩ := h i hi
  exact paint_eq_of_mem hv f g

theorem paint_moved {e : ι → κ} (he : Function.Injective e) : ∀ (ws : List (ι × α)) (f : κ → α),
    paint (moved e ws) f ∘ e = paint ws (f ∘ e)
  | [], _ => rfl
  | w :: ws, f => by
    show paint (moved e ws) (Function.update f (e w.1) w.2) ∘ e =
      paint ws (Function.update (f ∘ e) w.1 w.2)
    rw [paint_moved he ws, Function.update_comp_eq_of_injective f he]

end

end ContinuumOS.Lib.Painting

/-! # Layers

Layers lie one over another, and each has ink in some places. What is seen in a
place is the ink of the topmost layer that has any there. -/
namespace ContinuumOS.Lib.Layers

variable {L M ι κ : Type} {ink : L → ι → Option κ}

/-- What is seen of the layers, which come from the bottom to the top. -/
def overlay (ink : L → ι → Option κ) (ls : List L) (i : ι) : Option κ :=
  ls.reverse.findSome? fun l => ink l i

@[simp] theorem overlay_nil (i : ι) : overlay ink [] i = none := rfl

theorem overlay_singleton (l : L) (i : ι) : overlay ink [l] i = ink l i := by
  rw [overlay, List.reverse_singleton, List.findSome?_singleton]

theorem overlay_append (ls ms : List L) (i : ι) :
    overlay ink (ls ++ ms) i = (overlay ink ms i).or (overlay ink ls i) := by
  rw [overlay, List.reverse_append, List.findSome?_append]
  rfl

theorem overlay_cons (l : L) (ls : List L) (i : ι) :
    overlay ink (l :: ls) i = (overlay ink ls i).or (ink l i) := by
  rw [← List.singleton_append, overlay_append, overlay_singleton]

theorem overlay_map (F : M → L) (ms : List M) (i : ι) :
    overlay ink (ms.map F) i = overlay (fun m => ink (F m)) ms i := by
  induction ms with
  | nil => rfl
  | cons m ms ih => rw [List.map_cons, overlay_cons, overlay_cons, ih]

/-- **Layers of layers** are layers. -/
theorem overlay_flatMap (F : M → List L) (ms : List M) (i : ι) :
    overlay ink (ms.flatMap F) i = overlay (fun m => overlay ink (F m)) ms i := by
  induction ms with
  | nil => rfl
  | cons m ms ih => rw [List.flatMap_cons, overlay_append, overlay_cons, ih]

theorem overlay_congr {ink' : L → ι → Option κ} {ls : List L} {i : ι}
    (h : ∀ l ∈ ls, ink l i = ink' l i) : overlay ink ls i = overlay ink' ls i := by
  induction ls with
  | nil => rfl
  | cons l ls ih =>
    rw [overlay_cons, overlay_cons, h l List.mem_cons_self,
      ih fun m hm => h m (List.mem_cons_of_mem l hm)]

theorem overlay_eq_none {ls : List L} {i : ι} :
    overlay ink ls i = none ↔ ∀ l ∈ ls, ink l i = none := by
  rw [overlay, List.findSome?_eq_none_iff]
  exact ⟨fun h l hl => h l (List.mem_reverse.mpr hl), fun h l hl => h l (List.mem_reverse.mp hl)⟩

theorem overlay_const {ls : List L} {i : ι} {v : κ} (hink : ∀ l ∈ ls, ∀ u, ink l i = some u → u = v)
    (hsome : ∃ l ∈ ls, ink l i ≠ none) : overlay ink ls i = some v := by
  cases hseen : overlay ink ls i with
  | none =>
    obtain ⟨l, hl, hne⟩ := hsome
    exact absurd (overlay_eq_none.mp hseen l hl) hne
  | some u =>
    obtain ⟨l, hl, hu⟩ := List.exists_of_findSome?_eq_some hseen
    rw [hink l (List.mem_reverse.mp hl) u hu]

theorem overlay_eq_some_of_unique {ls : List L} {i : ι} {v : κ}
    (hone : ∀ l ∈ ls, ∀ m ∈ ls, ink l i ≠ none → ink m i ≠ none → l = m) :
    overlay ink ls i = some v ↔ ∃ l ∈ ls, ink l i = some v := by
  constructor
  · intro h
    obtain ⟨l, hl, hv⟩ := List.exists_of_findSome?_eq_some h
    exact ⟨l, List.mem_reverse.mp hl, hv⟩
  · rintro ⟨l, hl, hv⟩
    refine overlay_const (fun m hm u hu => ?_) ⟨l, hl, by rw [hv]; exact Option.some_ne_none v⟩
    obtain rfl := hone l hl m hm (by rw [hv]; exact Option.some_ne_none v)
      (by rw [hu]; exact Option.some_ne_none u)
    exact Option.some.inj (hu.symm.trans hv)

end ContinuumOS.Lib.Layers
