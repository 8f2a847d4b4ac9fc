import ContinuumOS.Mouse.Pointer

/-! # Complete packets

The stream of a mouse that loses no byte: every packet begins with a byte that has
bit 3 set, has no overflow bit, and comes to its last byte. -/
namespace ContinuumOS.Mouse.Packets
open ContinuumOS.Mouse.Model ContinuumOS.Mouse.Pointer

/-- A packet without overflow bits. The last byte is sent by a mouse with a wheel. -/
structure Packet where
  status : UInt8
  x : UInt8
  y : UInt8
  wheel : UInt8
  synced : status &&& 0x08 ≠ 0
  fits : ¬ overflows status

theorem plain_synced : (0x08 : UInt8) &&& 0x08 ≠ 0 := by decide

theorem plain_fits : ¬ overflows 0x08 := by decide

/-- What a mouse sends that has packets of `n` bytes. -/
def Packet.bytes (n : Nat) (p : Packet) : List UInt8 := [p.status, p.x, p.y, p.wheel].take n

def stream (n : Nat) (packets : List Packet) : List UInt8 := packets.flatMap (·.bytes n)

/-- The mouse is between two packets. -/
structure Ready (m : MouseState) : Prop where
  index : m.packetIndex = 0
  expected : m.bytesExpected = 3 ∨ m.bytesExpected = 4

/-- The mouse with all bytes of a packet. -/
def loaded (m : MouseState) (p : Packet) : MouseState := (p.bytes m.bytesExpected).foldl stored m

section

variable {fb : Framebuffer} {m m' : MouseState} {p : Packet} {data : UInt8} {bytes : List UInt8}
  {events : List MouseEvent}

theorem mouseCallback_cons {fb : Option Framebuffer} (bytes : List UInt8)
    (h : receive fb data m = some (m', events)) : mouseCallback fb (data :: bytes) m =
      (mouseCallback fb bytes m').map fun q => (q.1, events ++ q.2) := by
  rw [mouseCallback, h]
  simp only [Option.bind_eq_bind, Option.bind_some]
  cases mouseCallback fb bytes m' with
  | none => rfl
  | some q => rfl

theorem mouseCallback_stored (fb : Option Framebuffer) : ∀ {bytes : List UInt8} {m : MouseState},
    0 < m.packetIndex → m.packetIndex + bytes.length < m.bytesExpected →
    m.bytesExpected ≤ maxPacketSize →
    mouseCallback fb bytes m = some (bytes.foldl stored m, [])
  | [], _, _, _, _ => rfl
  | data :: bytes, m, hpos, hlt, he => by
    rw [List.length_cons] at hlt
    have hfirst : receive fb data m = some (stored m data, []) :=
      receive_stored (fun hs => Nat.ne_of_gt hpos hs.1) (by omega) he fb
    have hlt : (stored m data).packetIndex + bytes.length < (stored m data).bytesExpected := by
      show m.packetIndex + 1 + bytes.length < m.bytesExpected
      omega
    rw [mouseCallback_cons bytes hfirst, mouseCallback_stored fb (Nat.succ_pos _) hlt he]
    rfl

theorem stored_index : ∀ (bytes : List UInt8) (m : MouseState),
    (bytes.foldl stored m).packetIndex = m.packetIndex + bytes.length
  | [], _ => rfl
  | data :: bytes, m => by
    rw [List.foldl_cons, stored_index bytes, List.length_cons]
    show m.packetIndex + 1 + bytes.length = m.packetIndex + (bytes.length + 1)
    omega

theorem stored_expected : ∀ (bytes : List UInt8) (m : MouseState),
    (bytes.foldl stored m).bytesExpected = m.bytesExpected
  | [], _ => rfl
  | data :: bytes, m => stored_expected bytes (stored m data)

/-! ## One packet -/

theorem bytes_eq {n : Nat} (hn : n = 3 ∨ n = 4) (p : Packet) :
    ∃ mid last, p.bytes n = p.status :: (mid ++ [last]) ∧ mid.length + 2 = n := by
  rcases hn with rfl | rfl
  · exact ⟨[p.x], p.y, rfl, rfl⟩
  · exact ⟨[p.x, p.y], p.wheel, rfl, rfl⟩

theorem loaded_packet (h : Ready m) (p : Packet) : (loaded m p).packet 0 = p.status ∧
    (loaded m p).packet 1 = p.x ∧ (loaded m p).packet 2 = p.y := by
  rw [loaded]
  rcases h.expected with he | he
  · simp [he, Packet.bytes, stored, h.index]
  · simp [he, Packet.bytes, stored, h.index]

theorem mouseCallback_packet (hw : 0 < fb.width) (hh : 0 < fb.height) (h : Ready m)
    (p : Packet) : mouseCallback (some fb) (p.bytes m.bytesExpected) m =
      some (afterPacket fb (loaded m p), [eventOf fb (loaded m p)]) := by
  obtain ⟨mid, last, hbytes, hlen⟩ := bytes_eq h.expected p
  have hsize : m.bytesExpected ≤ maxPacketSize := by
    have he := h.expected
    rw [maxPacketSize]
    omega
  have hindex := h.index
  have hfirst : receive (some fb) p.status m = some (stored m p.status, []) :=
    receive_stored (fun hs => p.synced hs.2) (by omega) hsize (some fb)
  have hbefore : (stored m p.status).packetIndex + mid.length < m.bytesExpected := by
    show m.packetIndex + 1 + mid.length < m.bytesExpected
    omega
  have hmid := mouseCallback_stored (some fb) (Nat.succ_pos _) hbefore hsize
  have hloaded : stored (mid.foldl stored (stored m p.status)) last = loaded m p := by
    rw [loaded, hbytes, List.foldl_cons, List.foldl_append, List.foldl_cons, List.foldl_nil]
  have hindex' : (mid.foldl stored (stored m p.status)).packetIndex =
      m.packetIndex + 1 + mid.length :=
    stored_index mid (stored m p.status)
  have hexpected : (mid.foldl stored (stored m p.status)).bytesExpected = m.bytesExpected :=
    stored_expected mid (stored m p.status)
  have hlast : receive (some fb) last (mid.foldl stored (stored m p.status)) =
      some (afterPacket fb (loaded m p), [eventOf fb (loaded m p)]) := by
    rw [← hloaded]
    refine receive_moved hw hh (fun hs => ?_) (by omega) (by omega) ?_
    · rw [hindex'] at hs
      omega
    · rw [hloaded, (loaded_packet h p).1]
      exact p.fits
  rw [hbytes, mouseCallback_cons _ hfirst, mouseCallback_concat hmid, hlast]
  rfl

theorem Ready.after (h : Ready m) (p : Packet) : Ready (afterPacket fb (loaded m p)) :=
  ⟨rfl, by
    show (loaded m p).bytesExpected = 3 ∨ (loaded m p).bytesExpected = 4
    rw [loaded, stored_expected]
    exact h.expected⟩

end

end ContinuumOS.Mouse.Packets
