import Mathlib.Data.List.Basic
import Mathlib.Data.List.Induction
import Mathlib.Data.List.Infix
import Mathlib.Algebra.BigOperators.Group.List.Basic
import Mathlib.Algebra.Ring.Int.Defs
import ContinuumOS.Mouse.Deltas

/-! # The events account for the pointer

Whatever bytes come, the index stays in the packet and the pointer in the screen,
the movements of all events add up to the way of the pointer, and their changes to
that of the buttons. Only a sum that does not fit an `int32_t` breaks this. -/
namespace ContinuumOS.Mouse.Accounting
open ContinuumOS.Mouse.Model ContinuumOS.Mouse.Pointer
open ContinuumOS.Mouse.Packets

/-- The exclusive or of all `changed` fields. -/
def changes (events : List MouseEvent) : UInt8 :=
  events.foldl (fun changed event => changed ^^^ event.changed) 0

/-- What holds between bytes, of a mouse that was `m₀` before the events. -/
structure Accounts (fb : Framebuffer) (m₀ m : MouseState) (events : List MouseEvent) : Prop
    extends Inside fb m where
  index_lt : m.packetIndex < m.bytesExpected
  expected : m.bytesExpected = m₀.bytesExpected
  dx : (events.map (·.dx)).sum = m.x - m₀.x
  dy : (events.map (·.dy)).sum = m.y - m₀.y
  changed : changes events = m.buttons ^^^ m₀.buttons

/-- The byte completes a packet that would move the pointer behind the last
`int32_t`. -/
structure Overruns (m : MouseState) (data : UInt8) : Prop where
  completes : m.packetIndex + 1 = m.bytesExpected
  handled : ¬ overflows ((stored m data).packet 0)
  behind : 2 ^ 31 ≤ m.x + rightOf (stored m data).packet ∨
    2 ^ 31 ≤ m.y + downOf (stored m data).packet

/-- A mouse from which the events are counted. -/
structure Starts (fb : Framebuffer) (m : MouseState) : Prop extends Inside fb m where
  index_lt : m.packetIndex < m.bytesExpected
  expected : m.bytesExpected = 3 ∨ m.bytesExpected = 4

section

variable {fb : Framebuffer} {m₀ m m' : MouseState} {events : List MouseEvent} {data : UInt8}

theorem changes_concat (events : List MouseEvent) (event : MouseEvent) :
    changes (events ++ [event]) = changes events ^^^ event.changed := by
  rw [changes, List.foldl_append, List.foldl_cons, List.foldl_nil, changes]

theorem changed_twice (a b c : UInt8) : (b ^^^ c) ^^^ (a ^^^ b) = a ^^^ c := by
  rw [UInt8.xor_comm a b, UInt8.xor_comm b c, UInt8.xor_assoc, ← UInt8.xor_assoc b b a,
    UInt8.xor_self, UInt8.zero_xor, UInt8.xor_comm]

theorem Accounts.still (h : Accounts fb m₀ m events) (hx : m'.x = m.x) (hy : m'.y = m.y)
    (hb : m'.buttons = m.buttons) (he : m'.bytesExpected = m.bytesExpected)
    (hi : m'.packetIndex < m.bytesExpected) : Accounts fb m₀ m' events := by
  refine ⟨⟨?_, ?_, ?_, ?_⟩, ?_, ?_, ?_, ?_, ?_⟩
  · rw [hx]
    exact h.x_nonneg
  · rw [hx]
    exact h.x_lt
  · rw [hy]
    exact h.y_nonneg
  · rw [hy]
    exact h.y_lt
  · rwa [he]
  · rw [he, h.expected]
  · rw [hx, h.dx]
  · rw [hy, h.dy]
  · rw [hb, h.changed]

theorem Accounts.moved (h : Accounts fb m₀ m events) (hu : Usable fb)
    (hx : m.x + rightOf m.packet < 2 ^ 31) (hy : m.y + downOf m.packet < 2 ^ 31) :
    Accounts fb m₀ (afterPacket fb m) (events ++ [eventOf fb m]) := by
  obtain ⟨hr, hr'⟩ := deltaOf_bounds (m.packet 1)
  obtain ⟨hd, hd'⟩ := downOf_bounds m.packet
  have hxs := movedTo_eq hu.width_pos hu.width_lt h.x_nonneg hr hx
  have hys := movedTo_eq hu.height_pos hu.height_lt h.y_nonneg (Int.le_of_lt hd) hy
  obtain ⟨hxn, hxl⟩ := clamped_bounds hu.width_pos (m.x + rightOf m.packet)
  obtain ⟨hyn, hyl⟩ := clamped_bounds hu.height_pos (m.y + downOf m.packet)
  have hdx := reported_eq hu.width_pos hu.width_lt h.x_nonneg h.x_lt hr (Int.le_of_lt hr') hx
  have hdy := reported_eq hu.height_pos hu.height_lt h.y_nonneg h.y_lt (Int.le_of_lt hd) hd' hy
  refine ⟨⟨?_, ?_, ?_, ?_⟩, Nat.zero_lt_of_lt h.index_lt, h.expected, ?_, ?_, ?_⟩
  · show 0 ≤ movedTo fb.width m.x (deltaOf (m.packet 1))
    rw [hxs]
    exact hxn
  · show movedTo fb.width m.x (deltaOf (m.packet 1)) < fb.width
    rw [hxs]
    exact hxl
  · show 0 ≤ movedTo fb.height m.y (downOf m.packet)
    rw [hys]
    exact hyn
  · show movedTo fb.height m.y (downOf m.packet) < fb.height
    rw [hys]
    exact hyl
  · rw [List.map_append, List.sum_append, h.dx, List.map_singleton, List.sum_singleton]
    show m.x - m₀.x + reported fb.width m.x (deltaOf (m.packet 1)) =
      movedTo fb.width m.x (deltaOf (m.packet 1)) - m₀.x
    omega
  · rw [List.map_append, List.sum_append, h.dy, List.map_singleton, List.sum_singleton]
    show m.y - m₀.y + reported fb.height m.y (downOf m.packet) =
      movedTo fb.height m.y (downOf m.packet) - m₀.y
    omega
  · rw [changes_concat, h.changed]
    show (m.buttons ^^^ m₀.buttons) ^^^ ((m.packet 0 &&& 0x07) ^^^ m.buttons) =
      (m.packet 0 &&& 0x07) ^^^ m₀.buttons
    exact changed_twice _ _ _

theorem not_accounts_moved (h : Accounts fb m₀ m events) (hu : Usable fb)
    (hpast : 2 ^ 31 ≤ m.x + rightOf m.packet ∨ 2 ^ 31 ≤ m.y + downOf m.packet) :
    ¬ Accounts fb m₀ (afterPacket fb m) (events ++ [eventOf fb m]) := by
  obtain ⟨-, hr'⟩ := deltaOf_bounds (m.packet 1)
  obtain ⟨-, hd'⟩ := downOf_bounds m.packet
  have hxl := h.x_lt
  have hyl := h.y_lt
  have hw := hu.width_lt
  have hh := hu.height_lt
  intro h'
  rcases hpast with hpast | hpast
  · have hne : reported fb.width m.x (rightOf m.packet) ≠ _ :=
      reported_wrapped (by omega) (Int.le_of_lt hr') hpast
    have hsum := h'.dx
    rw [List.map_append, List.sum_append, h.dx, List.map_singleton, List.sum_singleton] at hsum
    have hsum : m.x - m₀.x + reported fb.width m.x (rightOf m.packet) =
      movedTo fb.width m.x (rightOf m.packet) - m₀.x := hsum
    have hnew : reported fb.width m.x (rightOf m.packet) =
      movedTo fb.width m.x (rightOf m.packet) - m.x := by omega
    exact hne hnew
  · have hne : reported fb.height m.y (downOf m.packet) ≠ _ :=
      reported_wrapped (by omega) hd' hpast
    have hsum := h'.dy
    rw [List.map_append, List.sum_append, h.dy, List.map_singleton, List.sum_singleton] at hsum
    have hsum : m.y - m₀.y + reported fb.height m.y (downOf m.packet) =
      movedTo fb.height m.y (downOf m.packet) - m₀.y := hsum
    have hnew : reported fb.height m.y (downOf m.packet) =
      movedTo fb.height m.y (downOf m.packet) - m.y := by omega
    exact hne hnew

/-! ## One byte -/

/-- The events still account for the pointer after a byte exactly if it does not
overrun. -/
theorem receive_accounts_iff (hu : Usable fb) (he : m.bytesExpected = 3 ∨ m.bytesExpected = 4)
    (h : Accounts fb m₀ m events) (data : UInt8) :
    (∃ m' more, receive (some fb) data m = some (m', more) ∧
      Accounts fb m₀ m' (events ++ more)) ↔ ¬ Overruns m data := by
  have hlt := h.index_lt
  have hsize : m.bytesExpected ≤ maxPacketSize := by
    rw [maxPacketSize]
    omega
  by_cases hs : m.packetIndex = 0 ∧ data &&& 0x08 = 0
  · have hkept : Accounts fb m₀ m (events ++ []) := (List.append_nil events).symm ▸ h
    have hnot : ¬ Overruns m data := fun ho => by
      have hcompletes := ho.completes
      omega
    exact ⟨fun _ => hnot, fun _ => ⟨m, [], receive_skipped hs.1 hs.2 (some fb), hkept⟩⟩
  by_cases hmore : m.packetIndex + 1 < m.bytesExpected
  · have hkept : Accounts fb m₀ (stored m data) (events ++ []) :=
      (List.append_nil events).symm ▸ h.still rfl rfl rfl rfl hmore
    exact ⟨fun _ ho => absurd ho.completes (Nat.ne_of_lt hmore),
      fun _ => ⟨_, [], receive_stored hs hmore hsize (some fb), hkept⟩⟩
  have hlast : m.packetIndex + 1 = m.bytesExpected := by omega
  -- the packet is handled with the index behind it, which the handling does not read
  have hfilled : Accounts fb m₀ { stored m data with packetIndex := 0 } events :=
    h.still rfl rfl rfl rfl (Nat.zero_lt_of_lt hlt)
  by_cases ho : overflows ((stored m data).packet 0)
  · have hkept : Accounts fb m₀ { stored m data with packetIndex := 0 } (events ++ []) :=
      (List.append_nil events).symm ▸ hfilled
    exact ⟨fun _ hover => hover.handled ho,
      fun _ => ⟨_, [], receive_dropped hs hlast hsize ho (some fb), hkept⟩⟩
  have hrun := receive_moved hu.width_pos hu.height_pos hs hlast hsize ho
  refine ⟨?_, fun hnot => ⟨_, _, hrun, ?_⟩⟩
  · rintro ⟨m', more, hm, h'⟩ hover
    rw [hrun] at hm
    cases hm
    exact not_accounts_moved hfilled hu hover.behind h'
  · have hfits : ¬ (2 ^ 31 ≤ m.x + rightOf (stored m data).packet ∨
        2 ^ 31 ≤ m.y + downOf (stored m data).packet) := fun hb => hnot ⟨hlast, ho, hb⟩
    rw [not_or, Int.not_le, Int.not_le] at hfits
    exact hfilled.moved hu hfits.1 hfits.2

/-! ## Any bytes -/

theorem Starts.accounts (h : Starts fb m) : Accounts fb m m [] :=
  ⟨h.toInside, h.index_lt, rfl, (Int.sub_self m.x).symm, (Int.sub_self m.y).symm,
    (UInt8.xor_self).symm⟩

/-- The events account for the pointer after all bytes if none of them overruns. -/
theorem accounts_of_fit (hu : Usable fb) (h : Starts fb m) : ∀ bytes : List UInt8,
    (∀ p b, p ++ [b] <+: bytes → ∀ m' events,
      mouseCallback (some fb) p m = some (m', events) → Inside fb m' → ¬ Overruns m' b) →
    ∃ m' events, mouseCallback (some fb) bytes m = some (m', events) ∧
      Accounts fb m m' events := by
  intro bytes
  induction bytes using List.reverseRecOn with
  | nil => exact fun _ => ⟨m, [], rfl, h.accounts⟩
  | append_singleton bytes b ih =>
    intro hfits
    obtain ⟨m', events, hrun, h'⟩ :=
      ih fun p b' hp => hfits p b' (hp.trans (List.prefix_append _ _))
    have he : m'.bytesExpected = 3 ∨ m'.bytesExpected = 4 := by
      rw [h'.expected]
      exact h.expected
    obtain ⟨m'', more, hbyte, h''⟩ := (receive_accounts_iff hu he h' b).mpr
      (hfits bytes b (List.prefix_refl _) m' events hrun h'.toInside)
    refine ⟨m'', events ++ more, ?_, h''⟩
    rw [mouseCallback_concat hrun, hbyte]
    rfl

/-- **The events account for the pointer between all bytes** of every stream, in
whatever interrupts they come, exactly if no packet of it would move the pointer
behind the last `int32_t`. -/
theorem accounts_iff (hu : Usable fb) (h : Starts fb m) (bytes : List UInt8) :
    (∀ before : List (List UInt8), before.flatten <+: bytes →
      ∃ m' events, interrupts (some fb) before m = some (m', events) ∧
        Accounts fb m m' events) ↔
    ∀ p b, p ++ [b] <+: bytes → ∀ m' events,
      mouseCallback (some fb) p m = some (m', events) → ¬ Overruns m' b := by
  refine ⟨fun hall p b hp m' events hrun => ?_, fun hfits before hb => ?_⟩
  · have hbefore : [p].flatten <+: bytes := by
      rw [List.flatten_singleton]
      exact (List.prefix_append p [b]).trans hp
    have hafter : [p ++ [b]].flatten <+: bytes := by
      rw [List.flatten_singleton]
      exact hp
    obtain ⟨m₁, events₁, hm₁, h₁⟩ := hall [p] hbefore
    obtain ⟨m₂, events₂, hm₂, h₂⟩ := hall [p ++ [b]] hafter
    rw [interrupts_eq, List.flatten_singleton, hrun] at hm₁
    cases hm₁
    have he : m'.bytesExpected = 3 ∨ m'.bytesExpected = 4 := by
      rw [h₁.expected]
      exact h.expected
    refine (receive_accounts_iff hu he h₁ b).mp ?_
    rw [interrupts_eq, List.flatten_singleton, mouseCallback_concat hrun] at hm₂
    obtain ⟨⟨m₃, more⟩, hbyte, heq⟩ := Option.map_eq_some_iff.mp hm₂
    cases heq
    exact ⟨_, _, hbyte, h₂⟩
  · rw [interrupts_eq]
    exact accounts_of_fit hu h before.flatten
      fun p b hp m' events hrun _ => hfits p b (hp.trans hb) m' events hrun

theorem not_overruns (hw : fb.width ≤ 2 ^ 31 - 128) (hh : fb.height ≤ 2 ^ 31 - 128)
    (h : Inside fb m) (data : UInt8) : ¬ Overruns m data := by
  obtain ⟨-, hr⟩ := deltaOf_bounds ((stored m data).packet 1)
  obtain ⟨-, hd⟩ := downOf_bounds (stored m data).packet
  have hx := h.x_lt
  have hy := h.y_lt
  intro ho
  rcases ho.behind with hb | hb
  · rw [rightOf] at hb
    omega
  · omega

theorem accounts_of_small (hu : Usable fb) (hw : fb.width ≤ 2 ^ 31 - 128)
    (hh : fb.height ≤ 2 ^ 31 - 128) (h : Starts fb m) (bytes : List UInt8) :
    ∃ m' events, mouseCallback (some fb) bytes m = some (m', events) ∧
      Accounts fb m m' events :=
  accounts_of_fit hu h bytes fun _ b _ _ _ _ hin => not_overruns hw hh hin b

/-! ## A very wide screen -/

theorem starts_of_placed (hu : Usable fb) (h : Deltas.Starts fb m) : Starts fb m := by
  have hindex := h.index
  have he := h.toReady.expected
  obtain ⟨hx, hx'⟩ := h.x.inside hu.width_lt
  obtain ⟨hy, hy'⟩ := h.y.inside hu.height_lt
  exact ⟨⟨hx, hx', hy, hy'⟩, by omega, he⟩

/-- 127 to the right. -/
def right : Packet := ⟨0x08, 0x7F, 0, 0, plain_synced, plain_fits⟩

theorem walk_right (hu : Usable fb) (h : Deltas.Starts fb m) : ∀ k : Nat,
    m.x + 127 * k < fb.width → ∃ m' events,
      mouseCallback (some fb) (stream m.bytesExpected (List.replicate k right)) m =
        some (m', events) ∧
      Deltas.Starts fb m' ∧ m'.bytesExpected = m.bytesExpected ∧ m'.x = m.x + 127 * k
  | 0, _ => ⟨m, [], rfl, h, rfl, by omega⟩
  | k + 1, hk => by
    obtain ⟨m', events, hrun, h', he, hx⟩ := walk_right hu h k (by omega)
    have hright : deltaOf right.x = 127 := by decide
    have hmoved : (afterPacket fb (loaded m' right)).x = m'.x + 127 := by
      have hw := hu.width_lt
      have hn := (h.x.inside hw).1
      rw [(Deltas.afterPacket_position fb h'.toReady right).1, hright,
        movedTo_eq hu.width_pos hw (by omega) (by omega) (by omega), clamped]
      omega
    rw [List.replicate_succ']
    refine ⟨_, _, Deltas.stream_concat hrun h' he right, h'.after right, ?_, ?_⟩
    · show (loaded m' right).bytesExpected = m.bytesExpected
      rw [loaded, stored_expected, he]
    · rw [hmoved, hx]
      omega

end

/-- Noise, and a movement with the left button. -/
theorem vga_accounts : Starts Deltas.vga Deltas.atStart ∧
    ∀ before : List (List UInt8), before.flatten <+: [0x00, 0x09, 0xFB, 0x03] →
      ∃ m' events, interrupts (some Deltas.vga) before Deltas.atStart = some (m', events) ∧
        Accounts Deltas.vga Deltas.atStart m' events := by
  have hu : Usable Deltas.vga := ⟨by decide, by decide, by decide, by decide⟩
  have h : Starts Deltas.vga Deltas.atStart := starts_of_placed hu Deltas.atStart_starts
  refine ⟨h, (accounts_iff hu h [0x00, 0x09, 0xFB, 0x03]).mpr fun p b _ m' events hrun => ?_⟩
  obtain ⟨m₁, events₁, hm₁, h₁⟩ := accounts_of_small hu (by decide) (by decide) h p
  rw [hrun] at hm₁
  cases hm₁
  exact not_overruns (by decide) (by decide) h₁.toInside b

def wide : Framebuffer := ⟨2 ^ 31 - 1, 1⟩
def onWide : MouseState := initialized wide false fun _ => 0

theorem wide_usable : Usable wide := ⟨by decide, by decide, by decide, by decide⟩

theorem onWide_placed : Deltas.Starts wide onWide :=
  Deltas.initialized_starts (by decide) (by decide) (by decide) (by decide) false _

/-- The pointer can go to the right for 8454660 packets, and the next one puts it to
the left side. -/
theorem wide_jumps : Usable wide ∧ Starts wide onWide ∧
    ¬ ∀ before : List (List UInt8),
      before.flatten <+: stream 3 (List.replicate 8454661 right) →
      ∃ m' events, interrupts (some wide) before onWide = some (m', events) ∧
        Accounts wide onWide m' events := by
  have hx : onWide.x = 1073741823 := by decide +kernel
  have he : onWide.bytesExpected = 3 := by decide +kernel
  have hwidth : (wide.width : Int) = 2147483647 := rfl
  obtain ⟨m', events, hrun, h', he', hx'⟩ :=
    walk_right wide_usable onWide_placed 8454660 (by omega)
  have hnext := Deltas.stream_concat hrun h' he' right
  rw [← List.replicate_succ'] at hnext
  refine ⟨wide_usable, starts_of_placed wide_usable onWide_placed, fun hall => ?_⟩
  have haccounts : ∀ {k m₁ events₁}, k ≤ 8454661 →
      mouseCallback (some wide) (stream onWide.bytesExpected (List.replicate k right)) onWide =
        some (m₁, events₁) → Accounts wide onWide m₁ events₁ := by
    intro k m₁ events₁ hk hrun₁
    have hsub : List.replicate k right <+: List.replicate 8454661 right :=
      List.prefix_replicate_iff.mpr
        ⟨by rw [List.length_replicate]; exact hk, by rw [List.length_replicate]⟩
    obtain ⟨m₂, events₂, hm₂, h₂⟩ := hall [stream 3 (List.replicate k right)] (by
      rw [List.flatten_singleton]
      exact List.IsPrefix.flatMap hsub _)
    rw [interrupts_eq, List.flatten_singleton, ← he, hrun₁] at hm₂
    cases hm₂
    exact h₂
  have hbefore := haccounts (by omega) hrun
  obtain ⟨hsx, hsy, hsb⟩ := Deltas.stored_still (right.bytes m'.bytesExpected) m'
  have hfilled : Accounts wide onWide { loaded m' right with packetIndex := 0 } events :=
    hbefore.still hsx hsy hsb (stored_expected _ _) (Nat.zero_lt_of_lt hbefore.index_lt)
  refine not_accounts_moved hfilled wide_usable (.inl ?_) (haccounts (by omega) hnext)
  show 2 ^ 31 ≤ (loaded m' right).x + rightOf (loaded m' right).packet
  have hdelta : deltaOf right.x = 127 := by decide
  have hxl : (loaded m' right).x = m'.x := hsx
  rw [hxl, (Deltas.right_of_loaded h'.toReady right).1, hdelta]
  omega

end ContinuumOS.Mouse.Accounting
