import Mathlib.Data.List.Induction
import ContinuumOS.Mouse.Packets

/-! # The deltas of the protocol

A PS/2 movement has nine bits: eight in its own byte, and the sign in the status
byte. The code reads the sign from the byte itself. This is another movement for
half of all deltas, and the pointer is then right only where the side of the screen
stops both. -/
namespace ContinuumOS.Mouse.Deltas
open ContinuumOS.Mouse.Model ContinuumOS.Mouse.Pointer ContinuumOS.Mouse.Packets

/-- A byte with a sign bit in front. -/
def nineBits (sign : Bool) (b : UInt8) : Int := b.toNat - if sign then 256 else 0

/-- The movement to the right, and up. -/
def dx (p : Packet) : Int := nineBits (p.status &&& 0x10 ≠ 0) p.x
def dy (p : Packet) : Int := nineBits (p.status &&& 0x20 ≠ 0) p.y

/-- The pointer goes where the protocol says. -/
structure Follows (fb : Framebuffer) (p : Packet) (m m' : MouseState) : Prop where
  x : m'.x = clamped fb.width (m.x + dx p)
  y : m'.y = clamped fb.height (m.y - dy p)

/-- A coordinate that the clamp can leave: it is in the screen if the size is an
`int32_t` value. -/
structure Placed (size : Nat) (v : Int) : Prop where
  ge : -2 ^ 31 ≤ v
  lt : v < 2 ^ 31
  inside : size < 2 ^ 31 → 0 ≤ v ∧ v < size

/-- Both movements end at the same side, or are one. -/
def SameEnd (size : Nat) (v d d' : Int) : Prop :=
  d = d' ∨ size = 1 ∨ v + d ≤ 0 ∧ v + d' ≤ 0 ∨ size ≤ v + d + 1 ∧ size ≤ v + d' + 1

/-- A size that is no `int32_t` value is a negative one: a coordinate that is not
negative is always too large, and only 2^31 has a last coordinate to put it at. -/
def SameFarEnd (size : Nat) (v d d' : Int) : Prop :=
  -2 ^ 31 ≤ v + d ∧ v + d < 0 ∧ v + d' ≤ 0 ∨ size = 2 ^ 31 ∧ 0 ≤ v + d ∧ size ≤ v + d' + 1

/-- A movement of `d` ends where one of `d'` ends. -/
def Agrees (size : Nat) (v d d' : Int) : Prop :=
  v + d < 2 ^ 31 ∧
    (size < 2 ^ 31 ∧ SameEnd size v d d' ∨ 2 ^ 31 ≤ size ∧ SameFarEnd size v d d')

/-- What the code reads of a packet ends where the protocol says. -/
structure ReadsRight (fb : Framebuffer) (m : MouseState) (p : Packet) : Prop where
  x : Agrees fb.width m.x (deltaOf p.x) (dx p)
  y : Agrees fb.height m.y (-deltaOf p.y) (-dy p)

/-- A framebuffer with pixels, and a mouse between two packets. -/
structure Starts (fb : Framebuffer) (m : MouseState) : Prop extends Ready m where
  width_pos : 0 < fb.width
  width_lt : fb.width < 2 ^ 32
  height_pos : 0 < fb.height
  height_lt : fb.height < 2 ^ 32
  x : Placed fb.width m.x
  y : Placed fb.height m.y

section

variable {fb : Framebuffer} {m m' : MouseState} {size : Nat} {v d d' : Int} {p : Packet}

/-! ## One coordinate -/

theorem nineBits_bounds (sign : Bool) (b : UInt8) :
    -256 ≤ nineBits sign b ∧ nineBits sign b < 256 := by
  have hb := b.toNat_lt
  rw [nineBits]
  split <;> omega

theorem toInt32_bounds (v : Int) : -2 ^ 31 ≤ toInt32 v ∧ toInt32 v < 2 ^ 31 := by
  have hle := Int.le_bmod (x := v) (m := 2 ^ 32) (by decide)
  have hlt := Int.bmod_lt (x := v) (m := 2 ^ 32) (by decide)
  rw [toInt32]
  omega

theorem toInt32_wide (hge : 2 ^ 31 ≤ size) (hlt : size < 2 ^ 32) :
    toInt32 size = size - 2 ^ 32 := by
  rw [toInt32, Int.bmod_def]
  omega

theorem clampTo_wide (hge : 2 ^ 31 ≤ size) (hlt : size < 2 ^ 32) (v : Int) (hv : -2 ^ 31 ≤ v) :
    clampTo size v =
      if v < 0 then 0 else if size = 2 ^ 31 then 2 ^ 31 - 1 else (size : Int) - 2 ^ 32 - 1 := by
  rw [clampTo, toInt32_wide hge hlt]
  by_cases hn : v < 0
  · rw [if_pos hn, if_pos hn]
  rw [if_neg hn, if_neg hn, if_pos (by omega), toInt32, Int.bmod_def]
  split <;> split <;> omega

theorem clampTo_placed (hpos : 0 < size) (hlt : size < 2 ^ 32) (hv : -2 ^ 31 ≤ v) :
    Placed size (clampTo size v) := by
  by_cases hsize : size < 2 ^ 31
  · have hb := clamped_bounds hpos v
    rw [clampTo_eq hpos hsize]
    exact ⟨by omega, by omega, fun _ => hb⟩
  · have heq := clampTo_wide (by omega) hlt v hv
    refine ⟨?_, ?_, fun h => absurd h hsize⟩
    · rw [heq]
      split
      · omega
      split <;> omega
    · rw [heq]
      split
      · omega
      split <;> omega

theorem movedTo_placed (hpos : 0 < size) (hlt : size < 2 ^ 32) (v d : Int) :
    Placed size (movedTo size v d) := clampTo_placed hpos hlt (toInt32_bounds (v + d)).1

theorem clamped_eq_iff (hpos : 0 < size) :
    clamped size (v + d) = clamped size (v + d') ↔ SameEnd size v d d' := by
  rw [clamped, clamped, SameEnd]
  omega

/-- **A movement of the code ends where another should** exactly if they agree. -/
theorem movedTo_eq_iff (hpos : 0 < size) (hlt : size < 2 ^ 32) (hv : Placed size v)
    (hd : -128 ≤ d) (hd' : d ≤ 128) (he : -256 ≤ d') (he' : d' ≤ 256) :
    movedTo size v d = clamped size (v + d') ↔ Agrees size v d d' := by
  obtain ⟨hge, hvlt, hin⟩ := hv
  rw [Agrees]
  by_cases hover : 2 ^ 31 ≤ v + d
  · have hzero : movedTo size v d = 0 := movedTo_wrapped hvlt hd' hover
    rw [hzero, clamped]
    have hsize : size = 1 → False := fun h => by
      have hlast := (hin (by omega)).2
      omega
    omega
  by_cases hsize : size < 2 ^ 31
  · rw [movedTo_eq hpos hsize (hin hsize).1 hd (by omega), clamped_eq_iff hpos]
    have hnot : ¬ 2 ^ 31 ≤ size := by omega
    simp only [hsize, hnot, Int.not_le.mp hover, true_and, false_and, or_false]
  rw [movedTo, SameFarEnd]
  have hwide := clampTo_wide (Nat.le_of_not_lt hsize) hlt _ (toInt32_bounds (v + d)).1
  rw [hwide, clamped]
  by_cases hunder : v + d < -2 ^ 31
  · have hwrap : toInt32 (v + d) = v + d + 2 ^ 32 := by
      rw [toInt32, Int.bmod_def]
      omega
    rw [hwrap, if_neg (by omega)]
    split <;> omega
  · rw [toInt32_eq (by omega) (by omega)]
    split
    · omega
    split <;> omega

/-! ## Streams -/

theorem right_of_loaded (h : Ready m) (p : Packet) :
    rightOf (loaded m p).packet = deltaOf p.x ∧ downOf (loaded m p).packet = -deltaOf p.y := by
  obtain ⟨-, hx, hy⟩ := loaded_packet h p
  rw [rightOf, downOf, hx, hy]
  exact ⟨rfl, rfl⟩

theorem stored_still : ∀ (bytes : List UInt8) (m : MouseState), (bytes.foldl stored m).x = m.x ∧
    (bytes.foldl stored m).y = m.y ∧ (bytes.foldl stored m).buttons = m.buttons
  | [], _ => ⟨rfl, rfl, rfl⟩
  | data :: bytes, m => stored_still bytes (stored m data)

theorem afterPacket_position (fb : Framebuffer) (h : Ready m) (p : Packet) :
    (afterPacket fb (loaded m p)).x = movedTo fb.width m.x (deltaOf p.x) ∧
      (afterPacket fb (loaded m p)).y = movedTo fb.height m.y (-deltaOf p.y) := by
  obtain ⟨hright, hdown⟩ := right_of_loaded h p
  obtain ⟨hx, hy, -⟩ := stored_still (p.bytes m.bytesExpected) m
  rw [afterPacket, hright, hdown]
  refine ⟨congrArg (fun x => movedTo fb.width x (deltaOf p.x)) hx,
    congrArg (fun y => movedTo fb.height y (-deltaOf p.y)) hy⟩

theorem Starts.after (h : Starts fb m) (p : Packet) : Starts fb (afterPacket fb (loaded m p)) := by
  obtain ⟨hx, hy⟩ := afterPacket_position fb h.toReady p
  refine { h.toReady.after p, h with x := ?_, y := ?_ }
  · rw [hx]
    exact movedTo_placed h.width_pos h.width_lt _ _
  · rw [hy]
    exact movedTo_placed h.height_pos h.height_lt _ _

theorem follows_iff (h : Starts fb m) (p : Packet) :
    Follows fb p m (afterPacket fb (loaded m p)) ↔ ReadsRight fb m p := by
  obtain ⟨hx, hy⟩ := afterPacket_position fb h.toReady p
  obtain ⟨hr, hr'⟩ := deltaOf_bounds p.x
  obtain ⟨hd, hd'⟩ := deltaOf_bounds p.y
  obtain ⟨hnx, hnx'⟩ : -256 ≤ dx p ∧ dx p < 256 := nineBits_bounds _ _
  obtain ⟨hny, hny'⟩ : -256 ≤ dy p ∧ dy p < 256 := nineBits_bounds _ _
  have hxiff : movedTo fb.width m.x (deltaOf p.x) = clamped fb.width (m.x + dx p) ↔ _ :=
    movedTo_eq_iff h.width_pos h.width_lt h.x hr (by omega) hnx (by omega)
  have hyiff : movedTo fb.height m.y (-deltaOf p.y) = clamped fb.height (m.y + -dy p) ↔ _ :=
    movedTo_eq_iff h.height_pos h.height_lt h.y (by omega) (by omega) (by omega) (by omega)
  rw [← Int.sub_eq_add_neg] at hyiff
  refine ⟨fun hf => ⟨hxiff.mp ?_, hyiff.mp ?_⟩, fun hr => ⟨?_, ?_⟩⟩
  · rw [← hx, hf.x]
  · rw [← hy, hf.y]
  · rw [hx, hxiff.mpr hr.x]
  · rw [hy, hyiff.mpr hr.y]

theorem stream_concat {ps : List Packet} {events : List MouseEvent}
    (hrun : mouseCallback (some fb) (stream m.bytesExpected ps) m = some (m', events))
    (h : Starts fb m') (he : m'.bytesExpected = m.bytesExpected) (p : Packet) :
    mouseCallback (some fb) (stream m.bytesExpected (ps ++ [p])) m =
      some (afterPacket fb (loaded m' p), events ++ [eventOf fb (loaded m' p)]) := by
  have hpacket := mouseCallback_packet h.width_pos h.height_pos h.toReady p
  rw [he] at hpacket
  rw [stream, List.flatMap_append, List.flatMap_singleton, mouseCallback_append]
  show (mouseCallback (some fb) (stream m.bytesExpected ps) m >>= _) = _
  rw [hrun]
  simp only [Option.bind_eq_bind, Option.bind_some, hpacket, Option.pure_def]

theorem stream_starts (h : Starts fb m) (ps : List Packet) : ∃ m' events,
    mouseCallback (some fb) (stream m.bytesExpected ps) m = some (m', events) ∧ Starts fb m' ∧
      m'.bytesExpected = m.bytesExpected := by
  induction ps using List.reverseRecOn with
  | nil => exact ⟨m, [], rfl, h, rfl⟩
  | append_singleton ps p ih =>
    obtain ⟨m', events, hrun, h', he⟩ := ih
    refine ⟨_, _, stream_concat hrun h' he p, h'.after p, ?_⟩
    show (loaded m' p).bytesExpected = m.bytesExpected
    rw [loaded, stored_expected, he]

/-- **The pointer follows the deltas of the protocol** after every packet of a
stream, in whatever interrupts its bytes come, exactly if every packet is read
right where the pointer then is. -/
theorem pointer_follows_iff (h : Starts fb m) (packets : List Packet) :
    (∀ ps p, ps ++ [p] <+: packets → ∀ before after,
      before.flatten = stream m.bytesExpected ps →
      after.flatten = stream m.bytesExpected (ps ++ [p]) →
      ∃ m₁ m₂ events events', interrupts (some fb) before m = some (m₁, events) ∧
        interrupts (some fb) after m = some (m₂, events') ∧ Follows fb p m₁ m₂) ↔
    ∀ ps p, ps ++ [p] <+: packets → ∀ m₁ events,
      mouseCallback (some fb) (stream m.bytesExpected ps) m = some (m₁, events) →
      ReadsRight fb m₁ p := by
  refine ⟨fun hall ps p hp m₁ events hrun => ?_, fun hall ps p hp before after hb ha => ?_⟩
  · obtain ⟨m', events', hrun', h', he⟩ := stream_starts h ps
    obtain ⟨rfl, rfl⟩ : m₁ = m' ∧ events = events' := by
      rw [hrun, Option.some.injEq, Prod.mk.injEq] at hrun'
      exact hrun'
    obtain ⟨m₂, m₃, e, e', hbefore, hafter, hfollows⟩ :=
      hall ps p hp [stream m.bytesExpected ps] [stream m.bytesExpected (ps ++ [p])]
        (List.flatten_singleton ..) (List.flatten_singleton ..)
    rw [interrupts_eq, List.flatten_singleton, hrun] at hbefore
    rw [interrupts_eq, List.flatten_singleton, stream_concat hrun h' he p] at hafter
    cases hbefore
    cases hafter
    exact (follows_iff h' p).mp hfollows
  · obtain ⟨m', events, hrun, h', he⟩ := stream_starts h ps
    have hrun' := stream_concat hrun h' he p
    have hreads := hall ps p hp m' events hrun
    rw [← hb, ← interrupts_eq] at hrun
    rw [← ha, ← interrupts_eq] at hrun'
    exact ⟨m', _, events, _, hrun, hrun', (follows_iff h' p).mpr hreads⟩

end

/-! ## From the first packet -/

theorem initialized_starts {fb : Framebuffer} (hw : 0 < fb.width) (hw' : fb.width < 2 ^ 32)
    (hh : 0 < fb.height) (hh' : fb.height < 2 ^ 32) (wheel : Bool) (packet : Nat → UInt8) :
    Starts fb (initialized fb wheel packet) := by
  have hsize : ¬ (fb.width = 0 ∨ fb.height = 0) := by omega
  have hx : (initialized fb wheel packet).x =
      clampTo fb.width (toInt32 (fb.width / 2 : Nat)) := by
    simp only [initialized, clampPosition, if_neg hsize]
  have hy : (initialized fb wheel packet).y =
      clampTo fb.height (toInt32 (fb.height / 2 : Nat)) := by
    simp only [initialized, clampPosition, if_neg hsize]
  have hindex : (initialized fb wheel packet).packetIndex = 0 := by
    simp only [initialized, clampPosition, if_neg hsize]
  have hexpected : (initialized fb wheel packet).bytesExpected = if wheel then 4 else 3 := by
    simp only [initialized, clampPosition, if_neg hsize]
  refine ⟨⟨hindex, ?_⟩, hw, hw', hh, hh', ?_, ?_⟩
  · rw [hexpected]
    cases wheel with
    | false => exact .inl rfl
    | true => exact .inr rfl
  · rw [hx]
    exact clampTo_placed hw hw' (toInt32_bounds _).1
  · rw [hy]
    exact clampTo_placed hh hh' (toInt32_bounds _).1

/-- A screen, and a mouse without a wheel on it. -/
def vga : Framebuffer := ⟨640, 480⟩
def atStart : MouseState := initialized vga false fun _ => 0

def slow : Packet := ⟨0x08, 5, 3, 0, plain_synced, plain_fits⟩

/-- 200 to the right. -/
def fast : Packet := ⟨0x08, 0xC8, 0, 0, plain_synced, plain_fits⟩

theorem atStart_starts : Starts vga atStart :=
  initialized_starts (by decide) (by decide) (by decide) (by decide) false _

theorem slow_follows : Starts vga atStart ∧ ∀ ps p, ps ++ [p] <+: [slow] → ∀ before after,
    before.flatten = stream atStart.bytesExpected ps →
    after.flatten = stream atStart.bytesExpected (ps ++ [p]) →
    ∃ m₁ m₂ events events', interrupts (some vga) before atStart = some (m₁, events) ∧
      interrupts (some vga) after atStart = some (m₂, events') ∧ Follows vga p m₁ m₂ := by
  refine ⟨atStart_starts, (pointer_follows_iff atStart_starts [slow]).mpr
    fun ps p hp m₁ events hrun => ?_⟩
  rcases List.prefix_cons_iff.mp hp with hnil | ⟨rest, hcons, hrest⟩
  · exact absurd hnil (List.append_ne_nil_of_right_ne_nil _ (List.cons_ne_nil _ _))
  obtain rfl : rest = [] := List.prefix_nil.mp hrest
  obtain ⟨rfl, rfl⟩ : ps = [] ∧ p = slow := List.append_eq_singleton_iff.mp hcons |>.elim
    (fun h => ⟨h.1, (List.cons.inj h.2).1⟩) (fun h => absurd h.2 (List.cons_ne_nil _ _))
  rw [stream, List.flatMap_nil, mouseCallback, Option.some.injEq, Prod.mk.injEq] at hrun
  obtain rfl := hrun.1
  exact ⟨⟨by decide +kernel, .inl ⟨by decide, .inl (by decide +kernel)⟩⟩,
    ⟨by decide +kernel, .inl ⟨by decide, .inl (by decide +kernel)⟩⟩⟩

/-- The pointer goes 56 to the left. -/
theorem fast_goes_back : atStart.x = 320 ∧ dx fast = 200 ∧
    (interrupts (some vga) [fast.bytes 3] atStart).map (·.1.x) = some 264 ∧
    ¬ ∀ m₁ m₂ events events', interrupts (some vga) [] atStart = some (m₁, events) →
      interrupts (some vga) [fast.bytes 3] atStart = some (m₂, events') →
      Follows vga fast m₁ m₂ := by
  have hrun : interrupts (some vga) [fast.bytes 3] atStart =
      some (afterPacket vga (loaded atStart fast), [eventOf vga (loaded atStart fast)]) := by
    rw [interrupts_eq, List.flatten_singleton]
    exact mouseCallback_packet (by decide) (by decide) atStart_starts.toReady fast
  refine ⟨by decide +kernel, by decide +kernel, by decide +kernel, fun hall => ?_⟩
  have hx := (hall _ _ _ _ rfl hrun).x
  exact absurd hx (by decide +kernel)

end ContinuumOS.Mouse.Deltas
