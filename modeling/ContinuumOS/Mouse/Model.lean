import Mathlib.Algebra.Group.Int.Defs
import Mathlib.Algebra.Group.Nat.Defs
import ContinuumOS.Lib.Terminated

/-! # The mouse

`src/kernel/mouse.cpp`: bytes of the mouse are collected to packets, and a packet
moves the pointer and becomes an event. A byte stored outside the packet gives no
result. What is done with an event is left out. -/
namespace ContinuumOS.Mouse.Model
open ContinuumOS.Lib.Terminated

def maxPacketSize : Nat := 4

/-- A number as an `int8_t`, an `int16_t`, an `int32_t`. -/
def toInt8 (n : Int) : Int := n.bmod (2 ^ 8)
def toInt16 (n : Int) : Int := n.bmod (2 ^ 16)
def toInt32 (n : Int) : Int := n.bmod (2 ^ 32)

/-- The size of the screen. -/
structure Framebuffer where
  width : Nat
  height : Nat
  deriving DecidableEq, Repr

/-- The static variables. -/
structure MouseState where
  x : Int
  y : Int
  buttons : UInt8
  packet : Nat → UInt8
  packetIndex : Nat
  bytesExpected : Nat
  hasScrollWheel : Bool

/-- `MouseEvent`, before it has a target. -/
structure MouseEvent where
  x : Int
  y : Int
  dx : Int
  dy : Int
  scrollX : Int
  scrollY : Int
  buttons : UInt8
  changed : UInt8
  deriving DecidableEq, Repr

/-- A coordinate in a screen of `size`. -/
def clampTo (size : Nat) (v : Int) : Int :=
  if v < 0 then 0 else if toInt32 size ≤ v then toInt32 (toInt32 size - 1) else v

/-- `fb` is `none` without a framebuffer. -/
def clampPosition (fb : Option Framebuffer) (m : MouseState) : MouseState :=
  match fb with
  | none => { m with x := if m.x < 0 then 0 else m.x, y := if m.y < 0 then 0 else m.y }
  | some fb =>
    if fb.width = 0 ∨ fb.height = 0 then { m with x := 0, y := 0 }
    else { m with x := clampTo fb.width m.x, y := clampTo fb.height m.y }

/-- The packet is dropped if one of its overflow bits is set. -/
def overflows (status : UInt8) : Prop := status &&& 0x40 ≠ 0 ∨ status &&& 0x80 ≠ 0

instance (status : UInt8) : Decidable (overflows status) :=
  inferInstanceAs (Decidable (_ ∨ _))

/-- The movement that a byte of a packet says. -/
def deltaOf (b : UInt8) : Int := toInt8 b.toNat

def handlePacket (fb : Option Framebuffer) (m : MouseState) : MouseState × Option MouseEvent :=
  let status := m.packet 0
  if overflows status then ({ m with packetIndex := 0 }, none)
  else
    let dx := deltaOf (m.packet 1)
    let dy := toInt16 (-deltaOf (m.packet 2))
    let moved := clampPosition fb { m with x := toInt32 (m.x + dx), y := toInt32 (m.y + dy) }
    let buttons := status &&& 0x07
    let event : MouseEvent := {
      x := moved.x, y := moved.y, dx := toInt16 (moved.x - m.x), dy := toInt16 (moved.y - m.y)
      scrollX := 0
      scrollY := if m.hasScrollWheel ∧ m.bytesExpected = 4 then deltaOf (m.packet 3) else 0
      buttons, changed := buttons ^^^ m.buttons }
    ({ moved with buttons }, some event)

/-- One byte of the mouse. -/
def receive (fb : Option Framebuffer) (data : UInt8) (m : MouseState) :
    Option (MouseState × List MouseEvent) :=
  if m.packetIndex = 0 ∧ data &&& 0x08 = 0 then some (m, [])
  else do
    let packet ← write maxPacketSize m.packet m.packetIndex data
    let m := { m with packet, packetIndex := m.packetIndex + 1 }
    if m.bytesExpected ≤ m.packetIndex then
      let handled := handlePacket fb m
      return ({ handled.1 with packetIndex := 0 }, handled.2.toList)
    else return (m, [])

/-- The bytes that one interrupt finds, and the events that come of them. -/
def mouseCallback (fb : Option Framebuffer) :
    List UInt8 → MouseState → Option (MouseState × List MouseEvent)
  | [], m => some (m, [])
  | data :: bytes, m => do
    let (m, events) ← receive fb data m
    let (m, more) ← mouseCallback fb bytes m
    return (m, events ++ more)

/-- Interrupt after interrupt. -/
def interrupts (fb : Option Framebuffer) :
    List (List UInt8) → MouseState → Option (MouseState × List MouseEvent)
  | [], m => some (m, [])
  | bytes :: rest, m => do
    let (m, events) ← mouseCallback fb bytes m
    let (m, more) ← interrupts fb rest m
    return (m, events ++ more)

/-- The end of `mouse_initialize`, for a mouse with or without a wheel. -/
def initialized (fb : Framebuffer) (wheel : Bool) (packet : Nat → UInt8) : MouseState :=
  clampPosition (some fb)
    { x := toInt32 (fb.width / 2 : Nat), y := toInt32 (fb.height / 2 : Nat), buttons := 0, packet
      packetIndex := 0, bytesExpected := if wheel then 4 else 3, hasScrollWheel := wheel }

section

variable {fb : Option Framebuffer} {m m' : MouseState} {events : List MouseEvent}
  {bytes : List UInt8}

/-! ## Streams -/

theorem mouseCallback_append : ∀ (bytes bytes' : List UInt8) (m : MouseState),
    mouseCallback fb (bytes ++ bytes') m = (do
      let (m, events) ← mouseCallback fb bytes m
      let (m, more) ← mouseCallback fb bytes' m
      return (m, events ++ more))
  | [], bytes', m => by
    rw [mouseCallback, List.nil_append]
    simp only [Option.bind_eq_bind, Option.bind_some, List.nil_append]
    cases mouseCallback fb bytes' m with
    | none => rfl
    | some q => rfl
  | data :: bytes, bytes', m => by
    rw [List.cons_append, mouseCallback, mouseCallback]
    cases receive fb data m with
    | none => rfl
    | some q =>
      simp only [Option.bind_eq_bind, Option.bind_some, mouseCallback_append bytes bytes']
      cases mouseCallback fb bytes q.1 with
      | none => rfl
      | some q' =>
        simp only [Option.bind_some, Option.pure_def]
        cases mouseCallback fb bytes' q'.1 with
        | none => rfl
        | some q'' => simp only [Option.bind_some, List.append_assoc]

theorem interrupts_eq : ∀ (rest : List (List UInt8)) (m : MouseState),
    interrupts fb rest m = mouseCallback fb rest.flatten m
  | [], _ => rfl
  | bytes :: rest, m => by
    rw [interrupts, List.flatten_cons, mouseCallback_append]
    cases mouseCallback fb bytes m with
    | none => rfl
    | some q =>
      simp only [Option.bind_eq_bind, Option.bind_some, interrupts_eq rest]

theorem mouseCallback_concat (h : mouseCallback fb bytes m = some (m', events)) (data : UInt8) :
    mouseCallback fb (bytes ++ [data]) m =
      (receive fb data m').map fun q => (q.1, events ++ q.2) := by
  rw [mouseCallback_append, h]
  simp only [Option.bind_eq_bind, Option.bind_some, mouseCallback]
  cases receive fb data m' with
  | none => rfl
  | some q =>
    simp only [Option.bind_some, Option.pure_def, List.append_nil, Option.map_some]

end

end ContinuumOS.Mouse.Model
