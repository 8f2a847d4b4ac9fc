import Mathlib.Data.List.Nodup
import Mathlib.Data.List.Perm.Subperm

/-! # Chains in a successor map

A map `f` from nodes to nodes holds lists of nodes: `Linked f z l` says that `f`
leads from each node of `l` to the next and from the last one to `z`. `InChains`
says that the nodes in use are exactly a set of such lists, each node in one
place. Adding a node behind a list, starting a new list and taking one away
are the edits that keep it. -/
namespace ContinuumOS.Lib.Chains

variable {α : Type} {f g : α → α} {z free : α} {S : α → Prop}

def Linked (f : α → α) (z : α) : List α → Prop
  | [] => True
  | a :: l => f a = l.headD z ∧ Linked f z l

theorem Linked.congr {l : List α} (h : Linked f z l) (hag : ∀ a ∈ l, g a = f a) : Linked g z l := by
  induction l with
  | nil => trivial
  | cons a l ih =>
    exact ⟨(hag a (by simp)).trans h.1, ih h.2 fun b hb => hag b (by simp [hb])⟩

theorem headD_append (l m : List α) (z : α) : (l ++ m).headD z = l.headD (m.headD z) := by
  cases l <;> rfl

theorem linked_append {l m : List α} :
    Linked f z (l ++ m) ↔ Linked f (m.headD z) l ∧ Linked f z m := by
  induction l with
  | nil => simp [Linked]
  | cons a l ih => simp only [List.cons_append, Linked, ih, headD_append, and_assoc]

theorem Linked.next {l : List α} (h : Linked f z l) {q : Nat} {c : α} (hc : l[q]? = some c) :
    f c = (l[q + 1]?).getD z := by
  induction l generalizing q with
  | nil => cases hc
  | cons a l ih =>
    cases q with
    | zero =>
      obtain rfl := Option.some.inj hc
      rw [h.1]
      cases l <;> rfl
    | succ q => exact ih h.2 hc

theorem Linked.concat {l : List α} {p c : α} (h : Linked f z (l ++ [p])) (hp : p ∉ l)
    (hc : c ∉ l) (hgp : g p = c) (hgc : g c = z) (hag : ∀ a, a ≠ p → a ≠ c → g a = f a) :
    Linked g z (l ++ [p, c]) := by
  refine linked_append.mpr ⟨?_, hgp, hgc, trivial⟩
  refine (linked_append.mp h).1.congr fun a ha => hag a ?_ ?_
  · rintro rfl; exact hp ha
  · rintro rfl; exact hc ha

/-- The nodes of `S` that are not free lie on the chains `cs`, each once. -/
structure InChains (f : α → α) (z free : α) (S : α → Prop) (cs : List (List α)) : Prop where
  nonempty : ∀ l ∈ cs, l ≠ []
  nodup : cs.flatten.Nodup
  linked : ∀ l ∈ cs, Linked f z l
  inside : ∀ a ∈ cs.flatten, S a
  cover : ∀ a, S a → (a ∈ cs.flatten ↔ f a ≠ free)

theorem InChains.nodup_of_mem {cs : List (List α)} (h : InChains f z free S cs) {l : List α}
    (hl : l ∈ cs) : l.Nodup := (List.nodup_flatten.mp h.nodup).1 l hl

theorem InChains.new {cs : List (List α)} {c : α} (h : InChains f z free S cs) (hS : S c)
    (hc : f c = free) (hgc : g c = z) (hz : z ≠ free) (hag : ∀ a, a ≠ c → g a = f a) :
    InChains g z free S ([c] :: cs) := by
  have hout : c ∉ cs.flatten := fun hm => (h.cover c hS).mp hm hc
  have hne : ∀ a ∈ cs.flatten, a ≠ c := fun a ha he => hout (he ▸ ha)
  refine ⟨?_, ?_, ?_, ?_, ?_⟩
  · intro l hl
    rcases List.mem_cons.mp hl with rfl | hl
    · simp
    · exact h.nonempty l hl
  · exact List.nodup_cons.mpr ⟨hout, h.nodup⟩
  · intro l hl
    rcases List.mem_cons.mp hl with rfl | hl
    · exact ⟨hgc, trivial⟩
    · exact (h.linked l hl).congr fun a ha => hag a (hne a (List.mem_flatten_of_mem hl ha))
  · intro a ha
    rcases List.mem_cons.mp ha with rfl | ha
    · exact hS
    · exact h.inside a ha
  · intro a ha
    by_cases he : a = c
    · subst he
      simp [hgc, hz]
    · rw [hag a he, ← h.cover a ha]
      simp [he]

theorem InChains.extend {pre post : List (List α)} {l : List α} {p c : α}
    (h : InChains f z free S (pre ++ (l ++ [p]) :: post)) (hS : S c) (hc : f c = free)
    (hgp : g p = c) (hgc : g c = z) (hz : z ≠ free) (hcf : c ≠ free)
    (hag : ∀ a, a ≠ p → a ≠ c → g a = f a) :
    InChains g z free S (pre ++ (l ++ [p, c]) :: post) := by
  have hperm : (pre ++ (l ++ [p, c]) :: post).flatten.Perm
      (c :: (pre ++ (l ++ [p]) :: post).flatten) := by
    have h₁ : (pre ++ (l ++ [p, c]) :: post).flatten =
        (pre.flatten ++ (l ++ [p])) ++ c :: post.flatten := by simp
    have h₂ : (pre ++ (l ++ [p]) :: post).flatten =
        (pre.flatten ++ (l ++ [p])) ++ post.flatten := by simp
    rw [h₁, h₂]
    exact List.perm_middle
  have hout : c ∉ (pre ++ (l ++ [p]) :: post).flatten := fun hm => (h.cover c hS).mp hm hc
  have hpl : p ∈ (pre ++ (l ++ [p]) :: post).flatten := by simp
  have hpc : p ≠ c := fun he => hout (he ▸ hpl)
  have hnl := h.nodup_of_mem (l := l ++ [p]) (by simp)
  -- a node of another chain is neither `p` nor `c`
  have hother : ∀ m ∈ pre ++ post, ∀ a ∈ m, a ≠ p ∧ a ≠ c := by
    intro m hm a ha
    have hm' : m ∈ pre ++ (l ++ [p]) :: post := by
      rcases List.mem_append.mp hm with h | h <;> simp [h]
    refine ⟨fun he => ?_, fun he => hout (he ▸ List.mem_flatten_of_mem hm' ha)⟩
    have hd := (List.nodup_flatten.mp h.nodup).2
    rw [List.pairwise_append, List.pairwise_cons] at hd
    obtain ⟨-, ⟨hpost, -⟩, hpre⟩ := hd
    rcases List.mem_append.mp hm with hm | hm
    · exact (hpre m hm (l ++ [p]) (by simp)) ha (by simp [he])
    · exact (hpost m hm) (by simp [he]) ha
  refine ⟨?_, ?_, ?_, ?_, ?_⟩
  · intro m hm
    rcases List.mem_append.mp hm with hm | hm
    · exact h.nonempty m (by simp [hm])
    · rcases List.mem_cons.mp hm with rfl | hm
      · simp
      · exact h.nonempty m (by simp [hm])
  · exact hperm.nodup_iff.mpr (List.nodup_cons.mpr ⟨hout, h.nodup⟩)
  · intro m hm
    have hkeep : m ∈ pre ++ post → Linked g z m := fun hm => by
      refine (h.linked m ?_).congr fun a ha => hag a (hother m hm a ha).1 (hother m hm a ha).2
      rcases List.mem_append.mp hm with h | h <;> simp [h]
    rcases List.mem_append.mp hm with hm | hm
    · exact hkeep (by simp [hm])
    · rcases List.mem_cons.mp hm with rfl | hm
      · refine (h.linked (l ++ [p]) (by simp)).concat ?_ ?_ hgp hgc hag
        · intro hp
          exact (List.nodup_append.mp hnl).2.2 p hp p (by simp) rfl
        · exact fun hcl => hout (by simp [hcl])
      · exact hkeep (by simp [hm])
  · intro a ha
    rcases List.mem_cons.mp (hperm.subset ha) with rfl | ha
    · exact hS
    · exact h.inside a ha
  · intro a ha
    rw [hperm.mem_iff, List.mem_cons]
    by_cases hac : a = c
    · simp [hac, hgc, hz]
    · by_cases hap : a = p
      · subst hap
        simp [hgp, hcf]
      · rw [hag a hap hac, ← h.cover a ha]
        simp [hac]

theorem InChains.remove {pre post : List (List α)} {l : List α}
    (h : InChains f z free S (pre ++ l :: post)) (hl : ∀ a ∈ l, g a = free)
    (hag : ∀ a, a ∉ l → g a = f a) : InChains g z free S (pre ++ post) := by
  have hperm : (pre ++ l :: post).flatten.Perm (l ++ (pre ++ post).flatten) := by
    simp only [List.flatten_append, List.flatten_cons]
    rw [← List.append_assoc, ← List.append_assoc]
    exact List.Perm.append_right _ List.perm_append_comm
  obtain ⟨-, hrest, hdis⟩ := List.nodup_append.mp (hperm.nodup_iff.mp h.nodup)
  have hout : ∀ a ∈ (pre ++ post).flatten, a ∉ l := fun a ha hal => hdis a hal a ha rfl
  have hsub : ∀ m ∈ pre ++ post, m ∈ pre ++ l :: post := by
    intro m hm
    rcases List.mem_append.mp hm with h | h <;> simp [h]
  refine ⟨fun m hm => h.nonempty m (hsub m hm), hrest, fun m hm => ?_, fun a ha => ?_, fun a ha => ?_⟩
  · exact (h.linked m (hsub m hm)).congr fun a ha => hag a (hout a (List.mem_flatten_of_mem hm ha))
  · exact h.inside a (hperm.symm.subset (List.mem_append_right _ ha))
  · by_cases hal : a ∈ l
    · rw [hl a hal]
      exact ⟨fun hm => absurd hal (hout a hm), fun hne => absurd rfl hne⟩
    · rw [hag a hal, ← h.cover a ha, hperm.mem_iff, List.mem_append]
      simp [hal]

end ContinuumOS.Lib.Chains
