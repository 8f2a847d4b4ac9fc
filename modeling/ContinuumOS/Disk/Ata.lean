import ContinuumOS.Disk.Ide

/-! # What the driver takes a drive to do

The two channels as the ATA command set describes them: a task file, the phase
of the command under way, and the contents of the drives. `Follows` says that
the ports of a machine behave like such channels, with any delays and any errors;
`Prompt` adds that the drives answer within the driver's patience. -/
namespace ContinuumOS.Disk.Ata
open ContinuumOS.Disk.Ide

abbrev Busy (v : UInt8) : Prop := v &&& ideStatusBsy ≠ 0
abbrev Ready (v : UInt8) : Prop := v &&& ideStatusRdy ≠ 0
abbrev Drq (v : UInt8) : Prop := v &&& ideStatusDrq ≠ 0
abbrev Failed (v : UInt8) : Prop := v &&& ideStatusErr ≠ 0

def IsBase (base : UInt16) : Prop := base = idePrimaryBase ∨ base = ideSecondaryBase

/-- A drive: its sectors, their words, and what `IDENTIFY` sends. -/
structure Drive where
  size : Nat
  words : Words
  identity : Words

/-- The words with the `len` words from `a` on replaced. -/
def storeWords (m : Words) (a len : Nat) (f : Words) : Words :=
  fun x => if a ≤ x ∧ x < a + len then f (x - a) else m x

/-- The command under way: the sector and how many are left with it; a block
that is open carries its words so far. -/
inductive Phase where
  | idle
  | toHost (lba left : Nat) (sent : Option Nat)
  | fromHost (lba left : Nat) (got : Option (Nat × Words))
  | storing (lba left : Nat) (block : Words)
  | identify (sent : Option Nat)

structure Channel where
  count : UInt8
  low : UInt8
  mid : UInt8
  high : UInt8
  head : UInt8
  phase : Phase
  present : Bool → Bool
  drives : Bool → Drive

namespace Channel

variable (c : Channel)

/-- Bit 4 of the drive register selects the second drive. -/
def slave : Bool := c.head &&& 0x10 != 0

def drive : Drive := c.drives c.slave

/-- The 28-bit sector number in the task file. -/
def address : Nat :=
  c.low.toNat + 2 ^ 8 * c.mid.toNat + 2 ^ 16 * c.high.toNat + 2 ^ 24 * (c.head &&& 0x0F).toNat

/-- A count of 0 means 256. -/
def sectors : Nat := if c.count = 0 then 256 else c.count.toNat

/-- What a command sets going. -/
def started (command : UInt8) : Phase :=
  if c.present c.slave = false then .idle
  else if command = ideCmdReadSectors then .toHost c.address c.sectors none
  else if command = ideCmdWriteSectors then .fromHost c.address c.sectors none
  else if command = ideCmdIdentify then .identify none
  else .idle

/-- A write to a register while no command is under way. -/
def outb (reg : UInt16) (v : UInt8) : Channel :=
  if reg = ideRegSectorCount then { c with count := v }
  else if reg = ideRegLbaLow then { c with low := v }
  else if reg = ideRegLbaMid then { c with mid := v }
  else if reg = ideRegLbaHigh then { c with high := v }
  else if reg = ideRegDrive then { c with head := v }
  else if reg = ideRegCommand then { c with phase := c.started v }
  else c

/-- The selected drive with other words. -/
def setWords (m : Words) : Channel :=
  { c with drives := Function.update c.drives c.slave { c.drive with words := m } }

/-- The block the drive was storing is on the disk. -/
def settled : Channel :=
  match c.phase with
  | .storing lba left block =>
    { c.setWords (storeWords c.drive.words (lba * sectorWords) sectorWords block) with
      phase := if left ≤ 1 then .idle else .fromHost (lba + 1) (left - 1) none }
  | _ => c

/-- The next block is ready to go over the data port. -/
def opened : Channel :=
  match c.phase with
  | .toHost lba left none => { c with phase := .toHost lba left (some 0) }
  | .fromHost lba left none => { c with phase := .fromHost lba left (some (0, fun _ => 0)) }
  | .identify none => { c with phase := .identify (some 0) }
  | _ => c

def aborted : Channel := { c with phase := .idle }

/-- What a status byte tells of the channel. No other bit means anything
beside `BSY`; an error ends the command. -/
def polled (v : UInt8) : Channel :=
  if Busy v then c
  else if Failed v then c.aborted
  else if Drq v then c.settled.opened
  else c.settled

/-- A block of a sector on the disk, or of the identity, is open. -/
def Transfers : Prop :=
  match c.phase with
  | .toHost lba _ (some _) => lba < c.drive.size
  | .fromHost lba _ (some _) => lba < c.drive.size
  | .identify (some _) => True
  | _ => False

/-- The word the data port shows. -/
def word : UInt16 :=
  match c.phase with
  | .toHost lba _ (some i) => c.drive.words (lba * sectorWords + i)
  | .identify (some i) => c.drive.identity i
  | _ => 0

/-- One word has gone to the host. -/
def fetched : Channel :=
  match c.phase with
  | .toHost lba left (some i) =>
    { c with phase :=
        if i + 1 < sectorWords then .toHost lba left (some (i + 1))
        else if left ≤ 1 then .idle else .toHost (lba + 1) (left - 1) none }
  | .identify (some i) =>
    { c with phase := if i + 1 < sectorWords then .identify (some (i + 1)) else .idle }
  | _ => c

/-- One word has come from the host. -/
def given (w : UInt16) : Channel :=
  match c.phase with
  | .fromHost lba left (some (i, block)) =>
    { c with phase :=
        if i + 1 < sectorWords then .fromHost lba left (some (i + 1, Function.update block i w))
        else .storing lba left (Function.update block i w) }
  | _ => c

/-- What a drive shows in time: that it is ready, or for a command under way
the next block or an error. -/
def Answers (v : UInt8) : Prop :=
  ¬ Busy v ∧ match c.phase with
    | .idle => Ready v
    | .storing _ left _ => if left ≤ 1 then Ready v else Drq v ∨ Failed v
    | _ => Drq v ∨ Failed v

end Channel

variable {σ : Type}

/-- The status byte after `k` more polls. -/
def statusAt (p : Ports σ) (base : UInt16) (s : σ) (k : Nat) : UInt8 :=
  (p.inb (base + ideRegStatus) ((glance p base)^[k] s)).1

/-- The ports of a machine follow the ATA command set, `view` being the
channels as they stand. -/
structure Follows (p : Ports σ) (view : σ → UInt16 → Channel) : Prop where
  outb : ∀ {s base reg} (v : UInt8), IsBase base → 1 ≤ reg → reg ≤ 7 → (view s base).phase = .idle →
    view (p.outb (base + reg) v s) = Function.update (view s) base ((view s base).outb reg v)
  status : ∀ {s base}, IsBase base →
    view (glance p base s) = Function.update (view s) base ((view s base).polled (statusAt p base s 0))
  /-- `DRQ` stands for a block of a sector the drive has, and for no error. -/
  drq : ∀ {s base}, IsBase base → ¬ Busy (statusAt p base s 0) → Drq (statusAt p base s 0) →
    ¬ Failed (statusAt p base s 0) ∧ (view s base).settled.opened.Transfers
  inw : ∀ {s base}, IsBase base → (view s base).Transfers →
    (p.inw (base + ideRegData) s).1 = (view s base).word ∧
      view (p.inw (base + ideRegData) s).2 = Function.update (view s) base (view s base).fetched
  outw : ∀ {s base} (w : UInt16), IsBase base → (view s base).Transfers →
    view (p.outw (base + ideRegData) w s) = Function.update (view s) base ((view s base).given w)
  /-- Where there is no drive, nothing gets ready. -/
  absent : ∀ {s base}, IsBase base → (view s base).present (view s base).slave = false →
    Busy (statusAt p base s 0) ∨ ¬ Ready (statusAt p base s 0)
  /-- Words 60 and 61 count the sectors a 28-bit command can reach. -/
  identity : ∀ {s base} (d : Bool), IsBase base →
    (((view s base).drives d).identity 60).toNat +
        2 ^ 16 * (((view s base).drives d).identity 61).toNat = ((view s base).drives d).size ∧
      ((view s base).drives d).size ≤ 2 ^ 28

/-- The drives answer before the driver gives up, show no error while they are
busy, store what they have taken, and never show an empty status. -/
structure Prompt (p : Ports σ) (view : σ → UInt16 → Channel) : Prop where
  quiet : ∀ {s base}, IsBase base → Busy (statusAt p base s 0) → ¬ Failed (statusAt p base s 0)
  answers : ∀ {s base}, IsBase base → (view s base).present (view s base).slave = true →
    ∃ k < ideTimeout, (view s base).Answers (statusAt p base s k)
  stores : ∀ {s base lba left block}, IsBase base → (view s base).phase = .storing lba left block →
    ¬ Busy (statusAt p base s 0) → ¬ Failed (statusAt p base s 0)
  shows : ∀ {s base}, IsBase base → (view s base).present (view s base).slave = true →
    statusAt p base s 0 ≠ 0

/-! ## A controller that behaves so

Two channels whose drives are busy for a while with each block: ports that meet
the assumptions. -/

/-- The drives tell their true sizes. -/
def Sound (c : Channel) : Prop :=
  ∀ d, ((c.drives d).identity 60).toNat + 2 ^ 16 * ((c.drives d).identity 61).toNat = (c.drives d).size ∧
    (c.drives d).size ≤ 2 ^ 28

/-- A channel without drives. -/
def emptyChannel : Channel :=
  ⟨0, 0, 0, 0, 0, .idle, fun _ => false, fun _ => ⟨0, fun _ => 0, fun _ => 0⟩⟩

/-- A channel, and the polls that will still find it busy. -/
structure Side where
  channel : Channel
  busy : Fin 999999
  sound : Sound channel

structure State where
  primary : Side
  secondary : Side

namespace State

variable (s : State)

def side (base : UInt16) : Side :=
  if base = idePrimaryBase then s.primary else s.secondary

/-- The channels by their base ports. -/
def channels (base : UInt16) : Channel :=
  if base = idePrimaryBase then s.primary.channel
  else if base = ideSecondaryBase then s.secondary.channel
  else emptyChannel

/-- One channel replaced. -/
def put (base : UInt16) (x : Side) : State :=
  if base = idePrimaryBase then { s with primary := x } else { s with secondary := x }

end State

/-- The channel and the register of a port. -/
def decodePort (port : UInt16) : Option (UInt16 × UInt16) :=
  if idePrimaryBase ≤ port ∧ port ≤ idePrimaryBase + 7 then some (idePrimaryBase, port - idePrimaryBase)
  else if ideSecondaryBase ≤ port ∧ port ≤ ideSecondaryBase + 7 then
    some (ideSecondaryBase, port - ideSecondaryBase)
  else none

/-- What a drive that is not busy shows. -/
def statusOf (c : Channel) : UInt8 :=
  if c.present c.slave = false then 0
  else
    match c.phase with
    | .idle => ideStatusRdy
    | .toHost lba _ _ =>
      ideStatusRdy ||| if lba < c.drive.size then ideStatusDrq else ideStatusErr
    | .fromHost lba _ _ =>
      ideStatusRdy ||| if lba < c.drive.size then ideStatusDrq else ideStatusErr
    | .storing lba left _ =>
      ideStatusRdy ||| if ¬ left ≤ 1 ∧ lba + 1 < c.drive.size then ideStatusDrq else 0
    | .identify _ => ideStatusRdy ||| ideStatusDrq

/-! ## Sizes and identities stay -/

theorem sound_setWords {c : Channel} (h : Sound c) (m : Words) : Sound (c.setWords m) := by
  intro d
  simp only [Channel.setWords, Channel.drive]
  by_cases hd : d = c.slave
  · rw [hd, Function.update_self]
    exact h c.slave
  · rw [Function.update_of_ne hd]
    exact h d

theorem sound_settled {c : Channel} (h : Sound c) : Sound c.settled := by
  unfold Channel.settled
  split
  · exact sound_setWords h _
  · exact h

theorem drives_opened (c : Channel) : c.opened.drives = c.drives := by
  unfold Channel.opened
  split <;> rfl

theorem sound_polled {c : Channel} (h : Sound c) (v : UInt8) : Sound (c.polled v) := by
  unfold Channel.polled
  split
  · exact h
  split
  · exact h
  split
  · rw [Sound, drives_opened]
    exact sound_settled h
  · exact sound_settled h

theorem sound_outb {c : Channel} (h : Sound c) (reg : UInt16) (v : UInt8) : Sound (c.outb reg v) := by
  unfold Channel.outb
  repeat' split
  all_goals exact h

theorem sound_fetched {c : Channel} (h : Sound c) : Sound c.fetched := by
  unfold Channel.fetched
  split <;> exact h

theorem sound_given {c : Channel} (h : Sound c) (w : UInt16) : Sound (c.given w) := by
  unfold Channel.given
  split <;> exact h

/-! ## The ports -/

/-- Ports of drives that take `lag` polls for each command and block. -/
def ports (lag : Fin 999999) : Ports State where
  inb port s :=
    match decodePort port with
    | some (base, reg) =>
      let x := s.side base
      if reg = ideRegStatus then
        if x.busy = 0 then
          (statusOf x.channel, s.put base ⟨x.channel.polled (statusOf x.channel), 0, sound_polled x.sound _⟩)
        else (ideStatusBsy, s.put base { x with busy := x.busy - 1 })
      else (0, s)
    | none => (0, s)
  inw port s :=
    match decodePort port with
    | some (base, _) =>
      let x := s.side base
      (x.channel.word, s.put base ⟨x.channel.fetched, lag, sound_fetched x.sound⟩)
    | none => (0, s)
  outb port v s :=
    match decodePort port with
    | some (base, reg) =>
      let x := s.side base
      s.put base ⟨x.channel.outb reg v, lag, sound_outb x.sound reg v⟩
    | none => s
  outw port w s :=
    match decodePort port with
    | some (base, _) =>
      let x := s.side base
      s.put base ⟨x.channel.given w, lag, sound_given x.sound w⟩
    | none => s

theorem channels_put {base : UInt16} (hb : IsBase base) (s : State) (x : Side) :
    (s.put base x).channels = Function.update s.channels base x.channel := by
  funext b
  obtain rfl | rfl := hb
  · by_cases h : b = idePrimaryBase
    · rw [h, Function.update_self]
      rfl
    · rw [Function.update_of_ne h, State.channels, State.channels, if_neg h, if_neg h]
      rfl
  · by_cases h : b = ideSecondaryBase
    · rw [h, Function.update_self]
      rfl
    · rw [Function.update_of_ne h, State.channels, State.channels, if_neg h, if_neg h]
      rfl

theorem side_put {base : UInt16} (hb : IsBase base) (s : State) (x : Side) : (s.put base x).side base = x := by
  obtain rfl | rfl := hb <;> rfl

theorem put_side {base : UInt16} (hb : IsBase base) (s : State) : s.put base (s.side base) = s := by
  obtain rfl | rfl := hb <;> rfl

theorem put_put {base : UInt16} (hb : IsBase base) (s : State) (x y : Side) :
    (s.put base x).put base y = s.put base y := by
  obtain rfl | rfl := hb <;> rfl

theorem channels_base {base : UInt16} (hb : IsBase base) (s : State) :
    s.channels base = (s.side base).channel := by
  obtain rfl | rfl := hb <;> rfl

theorem register_cases {reg : UInt16} (h : reg ≤ 7) : reg = 0 ∨ reg = 1 ∨ reg = 2 ∨ reg = 3 ∨ reg = 4 ∨
    reg = 5 ∨ reg = 6 ∨ reg = 7 := by
  have hle := UInt16.le_iff_toNat_le.mp h
  simp only [← UInt16.toNat_inj]
  change reg.toNat ≤ 7 at hle
  change reg.toNat = 0 ∨ reg.toNat = 1 ∨ reg.toNat = 2 ∨ reg.toNat = 3 ∨ reg.toNat = 4 ∨ reg.toNat = 5 ∨
    reg.toNat = 6 ∨ reg.toNat = 7
  omega

theorem decodePort_register {base reg : UInt16} (hb : IsBase base) (hr : reg ≤ 7) :
    decodePort (base + reg) = some (base, reg) := by
  obtain rfl | rfl := hb <;>
    obtain rfl | rfl | rfl | rfl | rfl | rfl | rfl | rfl := register_cases hr <;> decide

/-! ## The assumptions are met -/

variable {lag : Fin 999999} {s : State} {base : UInt16}

theorem inb_idle (hb : IsBase base) (h : (s.side base).busy = 0) :
    (ports lag).inb (base + ideRegStatus) s = (statusOf (s.channels base),
      s.put base ⟨(s.side base).channel.polled (statusOf (s.side base).channel), 0,
        sound_polled (s.side base).sound _⟩) := by
  simp only [ports, decodePort_register hb (show ideRegStatus ≤ 7 by decide), if_true, if_pos h,
    channels_base hb]

theorem inb_busy (hb : IsBase base) (h : (s.side base).busy ≠ 0) :
    (ports lag).inb (base + ideRegStatus) s =
      (ideStatusBsy, s.put base { s.side base with busy := (s.side base).busy - 1 }) := by
  simp only [ports, decodePort_register hb (show ideRegStatus ≤ 7 by decide), if_true, if_neg h]

theorem statusAt_idle (hb : IsBase base) (h : (s.side base).busy = 0) :
    statusAt (ports lag) base s 0 = statusOf (s.channels base) :=
  congrArg Prod.fst (inb_idle hb h)

theorem statusAt_busy (hb : IsBase base) (h : (s.side base).busy ≠ 0) :
    statusAt (ports lag) base s 0 = ideStatusBsy := congrArg Prod.fst (inb_busy hb h)

theorem statusOf_cases (c : Channel) :
    ¬ Busy (statusOf c) ∧ (Drq (statusOf c) → ¬ Failed (statusOf c) ∧ c.settled.opened.Transfers) := by
  by_cases hp : c.present c.slave = false
  · rw [statusOf, if_pos hp]
    exact ⟨by decide, fun h => absurd h (by decide)⟩
  rw [statusOf, if_neg hp]
  have hsize : c.settled.drive.size = c.drive.size ∧ c.settled.slave = c.slave := by
    unfold Channel.settled
    split
    · exact ⟨by simp only [Channel.drive, Channel.setWords, Channel.slave, Function.update_self], rfl⟩
    · exact ⟨rfl, rfl⟩
  cases hc : c.phase with
  | idle =>
    dsimp only
    exact ⟨by decide, fun h => absurd h (by decide)⟩
  | toHost lba left sent =>
    by_cases hin : lba < c.drive.size
    · simp only [if_pos hin]
      refine ⟨by decide, fun _ => ⟨by decide, ?_⟩⟩
      cases sent <;> (simp only [Channel.settled, Channel.opened, Channel.Transfers, hc]; exact hin)
    · simp only [if_neg hin]
      exact ⟨by decide, fun h => absurd h (by decide)⟩
  | fromHost lba left got =>
    by_cases hin : lba < c.drive.size
    · simp only [if_pos hin]
      refine ⟨by decide, fun _ => ⟨by decide, ?_⟩⟩
      cases got <;> (simp only [Channel.settled, Channel.opened, Channel.Transfers, hc]; exact hin)
    · simp only [if_neg hin]
      exact ⟨by decide, fun h => absurd h (by decide)⟩
  | storing lba left block =>
    by_cases hin : ¬ left ≤ 1 ∧ lba + 1 < c.drive.size
    · simp only [if_pos hin]
      refine ⟨by decide, fun _ => ⟨by decide, ?_⟩⟩
      have hphase : c.settled.phase = .fromHost (lba + 1) (left - 1) none := by
        simp only [Channel.settled, hc, if_neg hin.1]
      simp only [Channel.opened, hphase, Channel.Transfers]
      exact hsize.1.symm ▸ hin.2
    · simp only [if_neg hin]
      exact ⟨by decide, fun h => absurd h (by decide)⟩
  | identify sent =>
    dsimp only
    refine ⟨by decide, fun _ => ⟨by decide, ?_⟩⟩
    cases sent <;> simp only [Channel.settled, Channel.opened, Channel.Transfers, hc]

/-- **The controller follows the command set.** -/
theorem ports_follow (lag : Fin 999999) : Follows (ports lag) State.channels := by
  refine ⟨?_, ?_, ?_, ?_, ?_, ?_, ?_⟩
  · intro s base reg v hb _ hr _
    simp only [ports, decodePort_register hb hr]
    rw [channels_put hb, channels_base hb]
  · intro s base hb
    by_cases h : (s.side base).busy = 0
    · rw [statusAt_idle hb h, glance, inb_idle hb h, channels_put hb, channels_base hb]
    · rw [statusAt_busy hb h, glance, inb_busy hb h, channels_put hb, channels_base hb]
      exact congrArg _ (show (s.side base).channel.polled ideStatusBsy = _ from if_pos (by decide)).symm
  · intro s base hb hbusy hdrq
    have h : (s.side base).busy = 0 := by
      by_contra h
      exact hbusy (by rw [statusAt_busy hb h]; decide)
    rw [statusAt_idle hb h] at hdrq ⊢
    exact (statusOf_cases _).2 hdrq
  · intro s base hb _
    simp only [ports, decodePort_register hb (show ideRegData ≤ 7 by decide)]
    rw [channels_put hb, channels_base hb]
    exact ⟨rfl, rfl⟩
  · intro s base w hb _
    simp only [ports, decodePort_register hb (show ideRegData ≤ 7 by decide)]
    rw [channels_put hb, channels_base hb]
  · intro s base hb hp
    by_cases h : (s.side base).busy = 0
    · rw [statusAt_idle hb h, statusOf, if_pos hp]
      exact .inr (by decide)
    · rw [statusAt_busy hb h]
      exact .inl (by decide)
  · intro s base d hb
    rw [channels_base hb]
    exact (s.side base).sound d

theorem statusAt_after (hb : IsBase base) : ∀ (n : Nat) {s : State}, (s.side base).busy.val = n →
    statusAt (ports lag) base s n = statusOf (s.channels base) ∧
      (glance (ports lag) base)^[n] s = s.put base { s.side base with busy := 0 }
  | 0, s, h => by
    have h0 : (s.side base).busy = 0 := Fin.ext h
    refine ⟨statusAt_idle hb h0, ?_⟩
    have hself : ({ s.side base with busy := 0 } : Side) = s.side base := by rw [← h0]
    rw [hself, put_side hb]
    rfl
  | n + 1, s, h => by
    have h0 : (s.side base).busy ≠ 0 := fun h0 => by simp [h0] at h
    have hstep : glance (ports lag) base s =
        s.put base { s.side base with busy := (s.side base).busy - 1 } := by rw [glance, inb_busy hb h0]
    have hbusy : ((glance (ports lag) base s).side base).busy.val = n := by
      rw [hstep, side_put hb, Fin.val_sub_one_of_ne_zero h0]
      omega
    have hchan : (glance (ports lag) base s).channels base = s.channels base := by
      rw [hstep, channels_base hb, side_put hb, channels_base hb]
    obtain ⟨hstatus, hend⟩ := statusAt_after hb n hbusy
    refine ⟨hstatus.trans (by rw [hchan]), hend.trans ?_⟩
    rw [hstep, side_put hb, put_put hb]

theorem statusOf_answers {c : Channel} (hp : c.present c.slave = true)
    (hgood : ∀ lba left block, c.phase = .storing lba left block → left ≤ 1 ∨ lba + 1 < c.drive.size) :
    c.Answers (statusOf c) := by
  refine ⟨(statusOf_cases c).1, ?_⟩
  rw [statusOf, if_neg (by simp [hp])]
  cases hc : c.phase with
  | idle =>
    dsimp only
    decide
  | toHost lba left sent =>
    by_cases hin : lba < c.drive.size
    · simp only [if_pos hin]
      exact .inl (by decide)
    · simp only [if_neg hin]
      exact .inr (by decide)
  | fromHost lba left got =>
    by_cases hin : lba < c.drive.size
    · simp only [if_pos hin]
      exact .inl (by decide)
    · simp only [if_neg hin]
      exact .inr (by decide)
  | storing lba left block =>
    by_cases hl : left ≤ 1
    · simp only [hl, not_true, false_and, if_false]
      decide
    · have hin : lba + 1 < c.drive.size := (hgood lba left block hc).resolve_left hl
      simp only [if_neg hl, if_pos (show ¬ left ≤ 1 ∧ lba + 1 < c.drive.size from ⟨hl, hin⟩)]
      exact .inl (by decide)
  | identify sent =>
    dsimp only
    exact .inl (by decide)

/-- A write that runs off the end of the drive: the last block is stored, then an
error is shown. -/
theorem statusOf_end {c : Channel} (hp : c.present c.slave = true) {lba left : Nat} {block : Words}
    (hc : c.phase = .storing lba left block) (hl : ¬ left ≤ 1) (hend : ¬ lba + 1 < c.drive.size) :
    statusOf c = ideStatusRdy ∧ statusOf (c.polled ideStatusRdy) = ideStatusRdy ||| ideStatusErr := by
  refine ⟨?_, ?_⟩
  · rw [statusOf, if_neg (by simp [hp]), hc]
    dsimp only
    rw [if_neg fun h => hend h.2]
    decide
  · have hsettled : c.polled ideStatusRdy = c.settled :=
      (if_neg (by decide)).trans ((if_neg (by decide)).trans (if_neg (by decide)))
    have hnext : c.settled = { c.setWords (storeWords c.drive.words (lba * sectorWords) sectorWords block)
        with phase := .fromHost (lba + 1) (left - 1) none } := by
      simp only [Channel.settled, hc, if_neg hl]
    rw [hsettled, statusOf, hnext]
    dsimp only
    rw [if_neg (by simpa [Channel.setWords, Channel.slave] using hp), if_neg]
    simpa only [Channel.setWords, Channel.drive, Channel.slave, Function.update_self] using hend

/-- **Its drives answer in time.** -/
theorem ports_prompt (lag : Fin 999999) : Prompt (ports lag) State.channels := by
  refine ⟨?_, ?_, ?_, ?_⟩
  · intro s base hb hbusy
    by_cases h : (s.side base).busy = 0
    · rw [statusAt_idle hb h] at hbusy
      exact absurd hbusy (statusOf_cases _).1
    · rw [statusAt_busy hb h]
      decide
  · intro s base hb hp
    obtain ⟨hstatus, hend⟩ := @statusAt_after lag base hb _ s rfl
    have hlt := (s.side base).busy.isLt
    by_cases hgood : ∀ lba left block, (s.channels base).phase = .storing lba left block →
        left ≤ 1 ∨ lba + 1 < (s.channels base).drive.size
    · refine ⟨(s.side base).busy.val, by rw [ideTimeout]; omega, ?_⟩
      rw [hstatus]
      exact statusOf_answers hp hgood
    · -- one poll more, behind the block that is stored
      push Not at hgood
      obtain ⟨lba, left, block, hc, hl, hout⟩ := hgood
      obtain ⟨hrdy, herr⟩ := statusOf_end hp hc (by omega) (by omega)
      refine ⟨(s.side base).busy.val + 1, by rw [ideTimeout]; omega, ?_⟩
      have hnext : statusAt (ports lag) base s ((s.side base).busy.val + 1) =
          ideStatusRdy ||| ideStatusErr := by
        generalize hs₁ : s.put base { s.side base with busy := 0 } = s₁ at hend
        have hchan : (s₁.side base).channel = s.channels base := by
          rw [← hs₁, side_put hb, channels_base hb]
        have hbusy : (s₁.side base).busy = 0 := by rw [← hs₁, side_put hb]
        have hlast : statusAt (ports lag) base s ((s.side base).busy.val + 1) =
            statusAt (ports lag) base (glance (ports lag) base s₁) 0 := by
          rw [statusAt, Function.iterate_succ_apply', hend]
          rfl
        rw [hlast, glance, inb_idle hb hbusy, statusAt_idle hb (by rw [side_put hb]), channels_base hb,
          side_put hb]
        dsimp only
        rw [hchan, hrdy, herr]
      rw [hnext]
      simp only [Channel.Answers, hc, if_neg (show ¬ left ≤ 1 by omega)]
      exact ⟨by decide, .inr (by decide)⟩
  · intro s base lba left block hb hc hbusy
    have h : (s.side base).busy = 0 := by
      by_contra h
      exact hbusy (by rw [statusAt_busy hb h]; decide)
    rw [statusAt_idle hb h, statusOf]
    split
    · decide
    · rw [hc]
      dsimp only
      split <;> decide
  · intro s base hb hp
    by_cases h : (s.side base).busy = 0
    · rw [statusAt_idle hb h, statusOf, if_neg (by simp [hp])]
      split
      · decide
      · split <;> decide
      · split <;> decide
      · split <;> decide
      · decide
    · rw [statusAt_busy hb h]
      decide

/-! ## A machine with one drive -/

/-- A drive of eight sectors, word `i` of which is `i`. -/
def smallDrive : Drive := ⟨8, fun i => UInt16.ofNat i, fun i => if i = 60 then 8 else 0⟩

/-- The drive as the master of the primary channel, and no other. -/
def oneDrive : State where
  primary :=
    { channel := { emptyChannel with
        present := fun d => !d
        drives := Function.update emptyChannel.drives false smallDrive }
      busy := 0
      sound := by
        intro d
        cases d
        · exact ⟨rfl, by decide⟩
        · exact ⟨rfl, by decide⟩ }
  secondary := ⟨emptyChannel, 0, fun _ => ⟨rfl, Nat.zero_le _⟩⟩

/-- The table that holds it. -/
def oneDriveTable : Table := ⟨fun _ => ⟨idePrimaryBase, 0, true, 8, 0, 0, 0⟩, 1⟩

end ContinuumOS.Disk.Ata
