import ContinuumOS.Mouse.Model

/-! # The pointer

A coordinate after a packet, and what the event says about it. Both are right as
long as the sum fits an `int32_t` before it is clamped to the screen. -/
namespace ContinuumOS.Mouse.Pointer
open ContinuumOS.Lib.Terminated ContinuumOS.Mouse.Model

/-- The nearest coordinate in a screen of `size`. -/
def clamped (size : Nat) (v : Int) : Int := max 0 (min v (size - 1))

/-- A coordinate after a movement. -/
def movedTo (size : Nat) (v d : Int) : Int := clampTo size (toInt32 (v + d))

/-- What an event says of a movement. -/
def reported (size : Nat) (v d : Int) : Int := toInt16 (movedTo size v d - v)

/-- The screen has pixels, and its sides are `int32_t` values. -/
structure Usable (fb : Framebuffer) : Prop where
  width_pos : 0 < fb.width
  width_lt : fb.width < 2 ^ 31
  height_pos : 0 < fb.height
  height_lt : fb.height < 2 ^ 31

/-- The pointer is in the screen. -/
structure Inside (fb : Framebuffer) (m : MouseState) : Prop where
  x_nonneg : 0 ≤ m.x
  x_lt : m.x < fb.width
  y_nonneg : 0 ≤ m.y
  y_lt : m.y < fb.height

/-- How far a packet moves the pointer to the right, and down. -/
def rightOf (packet : Nat → UInt8) : Int := deltaOf (packet 1)
def downOf (packet : Nat → UInt8) : Int := -deltaOf (packet 2)

/-- The mouse with one more byte in its packet. -/
def stored (m : MouseState) (data : UInt8) : MouseState :=
  { m with
    packet := Function.update m.packet m.packetIndex data, packetIndex := m.packetIndex + 1 }

/-- The event of a packet. -/
def eventOf (fb : Framebuffer) (m : MouseState) : MouseEvent where
  x := movedTo fb.width m.x (rightOf m.packet)
  y := movedTo fb.height m.y (downOf m.packet)
  dx := reported fb.width m.x (rightOf m.packet)
  dy := reported fb.height m.y (downOf m.packet)
  scrollX := 0
  scrollY := if m.hasScrollWheel ∧ m.bytesExpected = 4 then deltaOf (m.packet 3) else 0
  buttons := m.packet 0 &&& 0x07
  changed := (m.packet 0 &&& 0x07) ^^^ m.buttons

/-- The mouse after a packet. -/
def afterPacket (fb : Framebuffer) (m : MouseState) : MouseState :=
  { m with
    x := movedTo fb.width m.x (rightOf m.packet), y := movedTo fb.height m.y (downOf m.packet)
    buttons := m.packet 0 &&& 0x07, packetIndex := 0 }

section

variable {fb : Framebuffer} {m : MouseState} {size : Nat} {v d : Int} {data : UInt8}

/-! ## One coordinate -/

theorem deltaOf_bounds (b : UInt8) : -128 ≤ deltaOf b ∧ deltaOf b < 128 := by
  have hle := Int.le_bmod (x := b.toNat) (m := 2 ^ 8) (by decide)
  have hlt := Int.bmod_lt (x := b.toNat) (m := 2 ^ 8) (by decide)
  rw [deltaOf, toInt8]
  exact ⟨by omega, by omega⟩

theorem toInt32_eq (h : -2 ^ 31 ≤ v) (h' : v < 2 ^ 31) : toInt32 v = v :=
  Int.bmod_eq_of_le_mul_two (by omega) (by omega)

theorem toInt16_eq (h : -2 ^ 15 ≤ v) (h' : v < 2 ^ 15) : toInt16 v = v :=
  Int.bmod_eq_of_le_mul_two (by omega) (by omega)

theorem clampTo_eq (hpos : 0 < size) (hlt : size < 2 ^ 31) (v : Int) :
    clampTo size v = clamped size v := by
  rw [clampTo, clamped, toInt32_eq (by omega) (by omega), toInt32_eq (by omega) (by omega)]
  split
  · omega
  split <;> omega

theorem clamped_bounds (hpos : 0 < size) (v : Int) : 0 ≤ clamped size v ∧ clamped size v < size := by
  rw [clamped]
  omega

theorem movedTo_eq (hpos : 0 < size) (hlt : size < 2 ^ 31) (hv : 0 ≤ v) (hd : -128 ≤ d)
    (hsum : v + d < 2 ^ 31) : movedTo size v d = clamped size (v + d) := by
  rw [movedTo, toInt32_eq (by omega) hsum, clampTo_eq hpos hlt]

theorem reported_eq (hpos : 0 < size) (hlt : size < 2 ^ 31) (hv : 0 ≤ v) (hvs : v < size)
    (hd : -128 ≤ d) (hd' : d ≤ 128) (hsum : v + d < 2 ^ 31) :
    reported size v d = movedTo size v d - v := by
  rw [reported, movedTo_eq hpos hlt hv hd hsum, clamped]
  exact toInt16_eq (by omega) (by omega)

/-- A sum that does not fit is negative, and leaves the pointer at the other side. -/
theorem movedTo_wrapped (hvs : v < 2 ^ 31) (hd : d ≤ 128) (hsum : 2 ^ 31 ≤ v + d) :
    movedTo size v d = 0 := by
  have hwrap : toInt32 (v + d) = v + d - 2 ^ 32 := by
    rw [toInt32, Int.bmod_def]
    omega
  rw [movedTo, clampTo, hwrap, if_pos (by omega)]

theorem reported_wrapped (hvs : v < 2 ^ 31) (hd : d ≤ 128) (hsum : 2 ^ 31 ≤ v + d) :
    reported size v d ≠ movedTo size v d - v := by
  have hle := Int.le_bmod (x := 0 - v) (m := 2 ^ 16) (by decide)
  rw [reported, movedTo_wrapped hvs hd hsum, toInt16]
  omega

/-! ## One byte -/

theorem downOf_bounds (packet : Nat → UInt8) : -128 < downOf packet ∧ downOf packet ≤ 128 := by
  have hb := deltaOf_bounds (packet 2)
  rw [downOf]
  omega

theorem handlePacket_moved (hw : 0 < fb.width) (hh : 0 < fb.height)
    (ho : ¬ overflows (m.packet 0)) : handlePacket (some fb) m =
      ({ afterPacket fb m with packetIndex := m.packetIndex }, some (eventOf fb m)) := by
  have hb := downOf_bounds m.packet
  have hdown : toInt16 (-deltaOf (m.packet 2)) = downOf m.packet :=
    toInt16_eq (by rw [downOf] at hb; omega) (by rw [downOf] at hb; omega)
  have hsize : ¬ (fb.width = 0 ∨ fb.height = 0) := by omega
  simp only [handlePacket, if_neg ho, clampPosition, if_neg hsize, hdown]
  rfl

theorem receive_skipped (hi : m.packetIndex = 0) (hb : data &&& 0x08 = 0)
    (fb : Option Framebuffer) : receive fb data m = some (m, []) := if_pos ⟨hi, hb⟩

theorem receive_stored (hs : ¬ (m.packetIndex = 0 ∧ data &&& 0x08 = 0))
    (hi : m.packetIndex + 1 < m.bytesExpected) (he : m.bytesExpected ≤ maxPacketSize)
    (fb : Option Framebuffer) : receive fb data m = some (stored m data, []) := by
  rw [receive, if_neg hs, write_eq (by omega)]
  simp only [Option.bind_eq_bind, Option.bind_some, if_neg (Nat.not_le.mpr hi)]
  rfl

theorem receive_completed (hs : ¬ (m.packetIndex = 0 ∧ data &&& 0x08 = 0))
    (hi : m.packetIndex + 1 = m.bytesExpected) (he : m.bytesExpected ≤ maxPacketSize)
    (fb : Option Framebuffer) : receive fb data m =
      some ({ (handlePacket fb (stored m data)).1 with packetIndex := 0 },
        (handlePacket fb (stored m data)).2.toList) := by
  rw [receive, if_neg hs, write_eq (by omega)]
  simp only [Option.bind_eq_bind, Option.bind_some, if_pos (Nat.le_of_eq hi.symm)]
  rfl

theorem receive_dropped (hs : ¬ (m.packetIndex = 0 ∧ data &&& 0x08 = 0))
    (hi : m.packetIndex + 1 = m.bytesExpected) (he : m.bytesExpected ≤ maxPacketSize)
    (ho : overflows ((stored m data).packet 0)) (fb : Option Framebuffer) :
    receive fb data m = some ({ stored m data with packetIndex := 0 }, []) := by
  have hdrop : handlePacket fb (stored m data) = ({ stored m data with packetIndex := 0 }, none) :=
    if_pos ho
  rw [receive_completed hs hi he, hdrop]
  rfl

theorem receive_moved (hw : 0 < fb.width) (hh : 0 < fb.height)
    (hs : ¬ (m.packetIndex = 0 ∧ data &&& 0x08 = 0))
    (hi : m.packetIndex + 1 = m.bytesExpected) (he : m.bytesExpected ≤ maxPacketSize)
    (ho : ¬ overflows ((stored m data).packet 0)) :
    receive (some fb) data m =
      some (afterPacket fb (stored m data), [eventOf fb (stored m data)]) := by
  rw [receive_completed hs hi he, handlePacket_moved hw hh ho]
  rfl

end

end ContinuumOS.Mouse.Pointer
