import Mathlib.Data.List.Basic
import Mathlib.Data.List.Induction
import ContinuumOS.Keyboard.Model

/-! # The shift keys

Which shift keys are held, by the make and break codes without a prefix, against
the one flag that the keyboard has for both. -/
namespace ContinuumOS.Keyboard.Shifts
open ContinuumOS.Keyboard.Model

/-- The shift keys that are held, and whether a prefix was read. -/
structure Held where
  left : Bool
  right : Bool
  prefixed : Bool
  deriving DecidableEq, Repr

namespace Held

/-- A code behind a prefix is of another key. -/
def next (h : Held) (b : UInt8) : Held :=
  if b = kbdScancodePrefix then { h with prefixed := true }
  else if h.prefixed then { h with prefixed := false }
  else if b = 0x2A then { h with left := true }
  else if b = 0x36 then { h with right := true }
  else if b = 0xAA then { h with left := false }
  else if b = 0xB6 then { h with right := false }
  else h

def shift (h : Held) : Bool := h.left || h.right

end Held

/-- What is held after the bytes. -/
def held (bytes : List UInt8) : Held := bytes.foldl Held.next ⟨false, false, false⟩

/-- A byte after which the flag is wrong: a prefixed code that looks like that of a
shift key, or the end of one shift key while the other one is held. -/
inductive Misleads (h : Held) (b : UInt8) : Prop
  | fakePress : h.prefixed = true → b = 0x2A ∨ b = 0x36 → h.shift = false → Misleads h b
  | fakeRelease : h.prefixed = true → b = 0xAA ∨ b = 0xB6 → h.shift = true → Misleads h b
  | releaseLeft : h.prefixed = false → b = 0xAA → h.right = true → Misleads h b
  | releaseRight : h.prefixed = false → b = 0xB6 → h.left = true → Misleads h b

/-- The variables say what is held. -/
structure Tracks (k : Keyboard) (h : Held) : Prop where
  extended : k.extended = h.prefixed
  shift : k.shiftPressed = h.shift

section

variable {k : Keyboard} {h : Held} {b : UInt8}

theorem held_concat (bytes : List UInt8) (b : UInt8) : held (bytes ++ [b]) = (held bytes).next b := by
  rw [held, List.foldl_append, List.foldl_cons, List.foldl_nil, held]

theorem next_prefixed (hb : b ≠ kbdScancodePrefix) : (h.next b).prefixed = false := by
  rw [Held.next, if_neg hb]
  cases hp : h.prefixed with
  | true => rfl
  | false =>
    rw [if_neg Bool.false_ne_true]
    repeat' split
    all_goals first | rfl | exact hp

theorem next_shift_prefixed (hb : b ≠ kbdScancodePrefix) (hp : h.prefixed = true) :
    (h.next b).shift = h.shift := by
  rw [Held.next, if_neg hb, if_pos hp]
  rfl

theorem shiftAfter_make (hb : b = 0x2A ∨ b = 0x36) (s : Bool) : shiftAfter b s = true := if_pos hb

theorem shiftAfter_break (hb : b = 0xAA ∨ b = 0xB6) (s : Bool) : shiftAfter b s = false := by
  rcases hb with rfl | rfl <;> rfl

theorem shiftAfter_other (h₁ : b ≠ 0x2A) (h₂ : b ≠ 0x36) (h₃ : b ≠ 0xAA) (h₄ : b ≠ 0xB6)
    (s : Bool) : shiftAfter b s = s := by
  rw [shiftAfter, if_neg (fun h => h.elim h₁ h₂), if_neg (fun h => h.elim h₃ h₄)]

theorem prefixed_iff (hp : h.prefixed = true) :
    shiftAfter b h.shift = h.shift ↔ ¬ Misleads h b := by
  have hplain : h.prefixed ≠ false := by
    rw [hp]
    exact Bool.noConfusion
  by_cases hmake : b = 0x2A ∨ b = 0x36
  · rw [shiftAfter_make hmake]
    refine ⟨fun hs hm => ?_, fun hm => ?_⟩
    · cases hm with
      | fakePress _ _ hs' => exact Bool.false_ne_true (hs'.symm.trans hs.symm)
      | fakeRelease _ hb _ => rcases hmake with rfl | rfl <;> exact absurd hb (by decide)
      | releaseLeft hp' => exact hplain hp'
      | releaseRight hp' => exact hplain hp'
    · exact ((Bool.not_eq_false _).mp fun hs => hm (.fakePress hp hmake hs)).symm
  by_cases hbreak : b = 0xAA ∨ b = 0xB6
  · rw [shiftAfter_break hbreak]
    refine ⟨fun hs hm => ?_, fun hm => ?_⟩
    · cases hm with
      | fakePress _ hb _ => exact hmake hb
      | fakeRelease _ _ hs' => exact Bool.false_ne_true (hs.trans hs')
      | releaseLeft hp' => exact hplain hp'
      | releaseRight hp' => exact hplain hp'
    · exact ((Bool.not_eq_true _).mp fun hs => hm (.fakeRelease hp hbreak hs)).symm
  · obtain ⟨h₁, h₂⟩ := not_or.mp hmake
    obtain ⟨h₃, h₄⟩ := not_or.mp hbreak
    refine ⟨fun _ hm => ?_, fun _ => shiftAfter_other h₁ h₂ h₃ h₄ _⟩
    cases hm with
    | fakePress _ hb _ => exact hmake hb
    | fakeRelease _ hb _ => exact hbreak hb
    | releaseLeft hp' => exact hplain hp'
    | releaseRight hp' => exact hplain hp'

/-- A code without a prefix misleads if it ends one key while the other is held. -/
theorem misleads_plain_iff (hp : h.prefixed = false) :
    Misleads h b ↔ b = 0xAA ∧ h.right = true ∨ b = 0xB6 ∧ h.left = true := by
  have hplain : h.prefixed ≠ true := by
    rw [hp]
    exact Bool.noConfusion
  refine ⟨fun hm => ?_, fun hb => ?_⟩
  · cases hm with
    | fakePress hp' => exact absurd hp' hplain
    | fakeRelease hp' => exact absurd hp' hplain
    | releaseLeft _ hb hr => exact .inl ⟨hb, hr⟩
    | releaseRight _ hb hl => exact .inr ⟨hb, hl⟩
  · rcases hb with ⟨hb, hr⟩ | ⟨hb, hl⟩
    · exact .releaseLeft hp hb hr
    · exact .releaseRight hp hb hl

theorem plain_iff (hp : h.prefixed = false) (hb : b ≠ kbdScancodePrefix) :
    shiftAfter b h.shift = (h.next b).shift ↔ ¬ Misleads h b := by
  rw [misleads_plain_iff hp, Held.next, if_neg hb, if_neg (by rw [hp]; exact Bool.false_ne_true)]
  obtain ⟨left, right, p⟩ := h
  by_cases h₁ : b = 0x2A
  · subst h₁
    exact ⟨fun _ => by decide +revert, fun _ => rfl⟩
  by_cases h₂ : b = 0x36
  · subst h₂
    rw [if_neg (by decide), if_pos rfl]
    refine ⟨fun _ => by decide +revert, fun _ => (Bool.or_true left).symm⟩
  by_cases h₃ : b = 0xAA
  · subst h₃
    cases left <;> cases right <;> decide +revert
  by_cases h₄ : b = 0xB6
  · subst h₄
    cases left <;> cases right <;> decide +revert
  · rw [shiftAfter_other h₁ h₂ h₃ h₄, if_neg h₁, if_neg h₂, if_neg h₃, if_neg h₄]
    exact ⟨fun _ h => h.elim (fun h => h₃ h.1) fun h => h₄ h.1, fun _ => rfl⟩

theorem Tracks.step_iff (ht : Tracks k h) (b : UInt8) :
    (readKeyboard b k).2.shiftPressed = (h.next b).shift ↔ ¬ Misleads h b := by
  by_cases hb : b = kbdScancodePrefix
  · rw [readKeyboard_prefixed hb, Held.next, if_pos hb]
    refine ⟨fun _ hm => ?_, fun _ => ht.shift⟩
    subst hb
    cases hm with
    | fakePress _ hb _ => exact absurd hb (by decide)
    | fakeRelease _ hb _ => exact absurd hb (by decide)
    | releaseLeft _ hb _ => exact absurd hb (by decide)
    | releaseRight _ hb _ => exact absurd hb (by decide)
  · rw [(readKeyboard_other hb).1, ht.shift]
    cases hp : h.prefixed with
    | true => rw [next_shift_prefixed hb hp, prefixed_iff hp]
    | false => exact plain_iff hp hb

theorem extended_next (k : Keyboard) (h : Held) (b : UInt8) :
    (readKeyboard b k).2.extended = (h.next b).prefixed := by
  by_cases hb : b = kbdScancodePrefix
  · rw [readKeyboard_prefixed hb, Held.next, if_pos hb]
  · rw [(readKeyboard_other hb).2, next_prefixed hb]

theorem extended_readAll (he : k.extended = false) (bytes : List UInt8) :
    (readAll bytes k).extended = (held bytes).prefixed := by
  rcases List.eq_nil_or_concat' bytes with rfl | ⟨init, b, rfl⟩
  · exact he
  · rw [readAll_concat, held_concat]
    exact extended_next _ _ b

theorem tracks_readAll (hs : k.shiftPressed = false) (he : k.extended = false)
    (bytes : List UInt8) (hm : ∀ p b r, bytes = p ++ b :: r → ¬ Misleads (held p) b) :
    Tracks (readAll bytes k) (held bytes) := by
  induction bytes using List.reverseRecOn with
  | nil => exact ⟨he, hs⟩
  | append_singleton bytes b ih =>
    have ht := ih fun p c r hp => hm p c (r ++ [b]) (by rw [hp, List.append_assoc]; rfl)
    refine ⟨extended_readAll he _, ?_⟩
    rw [readAll_concat, held_concat]
    exact (ht.step_iff b).mpr (hm bytes b [] rfl)

/-- **The shift flag tracks the keys** through a stream exactly when no byte of it
misleads. -/
theorem shift_tracks_iff (k : Keyboard) (hs : k.shiftPressed = false) (he : k.extended = false)
    (bytes : List UInt8) :
    (∀ p b r, bytes = p ++ b :: r →
      (readKeyboard b (readAll p k)).1.shift = (held (p ++ [b])).shift) ↔
      ∀ p b r, bytes = p ++ b :: r → ¬ Misleads (held p) b := by
  refine ⟨fun hshift p b r hp => ?_, fun hm p b r hp => ?_⟩
  · have ht : Tracks (readAll p k) (held p) := by
      refine ⟨extended_readAll he p, ?_⟩
      rcases List.eq_nil_or_concat' p with rfl | ⟨q, c, rfl⟩
      · exact hs
      · rw [readAll_concat, ← readKeyboard_shift]
        exact hshift q c (b :: r) (by rw [hp, List.append_assoc]; rfl)
    have hflag := hshift p b r hp
    rw [readKeyboard_shift, held_concat] at hflag
    exact (ht.step_iff b).mp hflag
  · have ht := tracks_readAll hs he p fun q c r' hp' =>
      hm q c (r' ++ b :: r) (by rw [hp, hp', List.append_assoc]; rfl)
    rw [readKeyboard_shift, held_concat]
    exact (ht.step_iff b).mpr (hm p b r hp)

end

/-! ## Streams -/

/-- No key is held. -/
def released : Keyboard := ⟨false, false, false⟩

/-- The left shift key is pressed and released. -/
theorem shift_tracks_example : released.shiftPressed = false ∧
    ∀ p b r, [0x2A, 0xAA] = p ++ b :: r →
      (readKeyboard b (readAll p released)).1.shift = (held (p ++ [b])).shift := by
  refine ⟨rfl, (shift_tracks_iff released rfl rfl [0x2A, 0xAA]).mpr fun p b r hp => ?_⟩
  rcases List.cons_eq_append_iff.mp hp with ⟨rfl, hb⟩ | ⟨q, rfl, hq⟩
  · obtain ⟨rfl, -⟩ := List.cons.inj hb
    exact mt (misleads_plain_iff rfl).mp (by decide)
  rcases List.cons_eq_append_iff.mp hq with ⟨rfl, hb⟩ | ⟨q', rfl, hq'⟩
  · obtain ⟨rfl, -⟩ := List.cons.inj hb
    exact mt (misleads_plain_iff rfl).mp (by decide)
  · exact absurd hq' (List.append_ne_nil_of_right_ne_nil _ (List.cons_ne_nil _ _)).symm

/-- Both shift keys are pressed, and the left one is released: the flag is gone while the
right one is held. -/
theorem overlapping_shifts :
    ¬ ∀ p b r, [0x2A, 0x36, 0xAA] = p ++ b :: r →
      (readKeyboard b (readAll p released)).1.shift = (held (p ++ [b])).shift := fun h =>
  absurd (h [0x2A, 0x36] 0xAA [] rfl) (by decide)

end ContinuumOS.Keyboard.Shifts
