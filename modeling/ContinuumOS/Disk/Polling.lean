import ContinuumOS.Disk.Ata
import ContinuumOS.Lib.Memory

/-! # Waiting for a drive

What the polling loops of the driver leave behind: which channels they can end
in, and with which result. -/
namespace ContinuumOS.Disk.Polling
open ContinuumOS.Disk.Ide ContinuumOS.Disk.Ata ContinuumOS.Lib.Memory

variable {σ : Type} {p : Ports σ} {base : UInt16}

/-- A status byte after which the loop polls again. -/
def GoesOn (want v : UInt8) : Prop := ¬ (¬ Busy v ∧ v &&& want ≠ 0) ∧ ¬ Failed v

/-- How a polling loop ends: with a byte that shows what it waits for, with an
error, or after all its polls. -/
theorem waitStatus_cases (want : UInt8) : ∀ (n : Nat) (s : σ),
    (∃ k < n, (∀ j < k, GoesOn want (statusAt p base s j)) ∧
      (waitStatus p base want n s).2 = (glance p base)^[k + 1] s ∧
      ((waitStatus p base want n s).1 = true ∧ ¬ Busy (statusAt p base s k) ∧
          statusAt p base s k &&& want ≠ 0 ∨
        (waitStatus p base want n s).1 = false ∧
          ¬ (¬ Busy (statusAt p base s k) ∧ statusAt p base s k &&& want ≠ 0) ∧
          Failed (statusAt p base s k))) ∨
    (waitStatus p base want n s).1 = false ∧
      (waitStatus p base want n s).2 = (glance p base)^[n] s ∧
      ∀ j < n, GoesOn want (statusAt p base s j)
  | 0, s => .inr ⟨rfl, rfl, fun _ hj => absurd hj (by omega)⟩
  | n + 1, s => by
    by_cases hgood : ¬ Busy (statusAt p base s 0) ∧ statusAt p base s 0 &&& want ≠ 0
    · have hrun : waitStatus p base want (n + 1) s = (true, glance p base s) :=
        if_pos ⟨not_not.mp hgood.1, hgood.2⟩
      exact .inl ⟨0, by omega, fun _ hj => absurd hj (by omega), by rw [hrun]; rfl,
        .inl ⟨by rw [hrun], hgood⟩⟩
    have hbad : ¬ (statusAt p base s 0 &&& ideStatusBsy = 0 ∧ statusAt p base s 0 &&& want ≠ 0) :=
      fun h => hgood ⟨not_not.mpr h.1, h.2⟩
    by_cases herr : Failed (statusAt p base s 0)
    · have hrun : waitStatus p base want (n + 1) s = (false, glance p base s) :=
        (if_neg hbad).trans (if_pos herr)
      exact .inl ⟨0, by omega, fun _ hj => absurd hj (by omega), by rw [hrun]; rfl,
        .inr ⟨by rw [hrun], hgood, herr⟩⟩
    have hrun : waitStatus p base want (n + 1) s = waitStatus p base want n (glance p base s) :=
      (if_neg hbad).trans (if_neg herr)
    rw [hrun]
    -- the polls of the rest are the polls from the second one on
    have hall : ∀ k, (∀ j < k, GoesOn want (statusAt p base (glance p base s) j)) →
        ∀ j < k + 1, GoesOn want (statusAt p base s j) := by
      intro k hk j hj
      cases j with
      | zero => exact ⟨hgood, herr⟩
      | succ j => exact hk j (by omega)
    obtain ⟨k, hk, hgo, hend, hres⟩ | ⟨hres, hend, hgo⟩ := waitStatus_cases want n (glance p base s)
    · exact .inl ⟨k + 1, by omega, hall k hgo, hend, hres⟩
    · exact .inr ⟨hres, hend, hall n hgo⟩

/-! ## Channels under polls -/

theorem Channel.aborted_of_idle {c : Channel} (h : c.phase = .idle) : c.aborted = c := by
  cases c
  cases h
  rfl

theorem Channel.settled_of_idle {c : Channel} (h : c.phase = .idle) : c.settled = c := by
  simp only [Channel.settled, h]

theorem Channel.opened_of_idle {c : Channel} (h : c.phase = .idle) : c.opened = c := by
  simp only [Channel.opened, h]

theorem Channel.settled_settled (c : Channel) : c.settled.settled = c.settled := by
  cases hc : c.phase with
  | storing lba left block =>
    by_cases hl : left ≤ 1 <;> simp only [Channel.settled, hc, hl, if_true, if_false]
  | _ => simp only [Channel.settled, hc]

theorem Channel.settled_or (c : Channel) :
    (∃ lba left block, c.phase = .storing lba left block) ∨ c.settled = c := by
  cases hc : c.phase with
  | storing lba left block => exact .inl ⟨lba, left, block, rfl⟩
  | _ => exact .inr (by simp only [Channel.settled, hc])

theorem Channel.polled_of_idle {c : Channel} (h : c.phase = .idle) (v : UInt8) : c.polled v = c := by
  simp only [Channel.polled, Channel.aborted_of_idle h, Channel.settled_of_idle h,
    Channel.opened_of_idle h, ite_self]

/-! ## The machine under polls -/

variable {view : σ → UInt16 → Channel} {v : UInt16 → Channel} {c : Channel} {s : σ}

theorem view_glance (hp : Follows p view) (hb : IsBase base) (h : view s = Function.update v base c) :
    view (glance p base s) = Function.update v base (c.polled (statusAt p base s 0)) := by
  rw [hp.status hb, h, Function.update_self, Function.update_idem]

theorem view_glances_idle (hp : Follows p view) (hb : IsBase base) (hc : c.phase = .idle) (k : Nat) :
    ∀ {s : σ}, view s = Function.update v base c →
      view ((glance p base)^[k] s) = Function.update v base c := by
  induction k with
  | zero => exact fun h => h
  | succ k ih =>
    intro s h
    refine ih ?_
    rw [view_glance hp hb h, Channel.polled_of_idle hc]

/-- Polls that show neither an error nor an open block leave the channel as it
was, but for a block that has been stored meanwhile. -/
theorem view_glances (hp : Follows p view) (hb : IsBase base) (k : Nat) : ∀ {s : σ} {c : Channel},
    view s = Function.update v base c →
    (∀ j < k, ¬ Failed (statusAt p base s j) ∧ (Busy (statusAt p base s j) ∨
      ¬ Drq (statusAt p base s j) ∨ c.settled.opened = c.settled)) →
    view ((glance p base)^[k] s) = Function.update v base c ∨
      view ((glance p base)^[k] s) = Function.update v base c.settled := by
  induction k with
  | zero => exact fun h _ => .inl h
  | succ k ih =>
    intro s c h hpolls
    obtain ⟨herr, hrest⟩ := hpolls 0 (by omega)
    have hnext := view_glance hp hb h
    by_cases hbusy : Busy (statusAt p base s 0)
    · rw [show c.polled (statusAt p base s 0) = c from if_pos hbusy] at hnext
      exact ih hnext fun j hj => hpolls (j + 1) (by omega)
    have hpolled : c.polled (statusAt p base s 0) = c.settled := by
      by_cases hdrq : Drq (statusAt p base s 0)
      · obtain hb' | hd | hopen := hrest
        · exact absurd hb' hbusy
        · exact absurd hdrq hd
        · simp only [Channel.polled, if_neg hbusy, if_neg herr, if_pos hdrq, hopen]
      · simp only [Channel.polled, if_neg hbusy, if_neg herr, if_neg hdrq]
    rw [hpolled] at hnext
    have hlater := ih hnext fun j hj => by
      rw [Channel.settled_settled]
      exact hpolls (j + 1) (by omega)
    rw [Channel.settled_settled] at hlater
    exact .inr (hlater.elim id id)

/-! ## The two waits -/

theorem view_glances_drq (hp : Follows p view) (hb : IsBase base)
    (h : view s = Function.update v base c) {k : Nat}
    (hgo : ∀ j < k, GoesOn ideStatusDrq (statusAt p base s j)) :
    view ((glance p base)^[k] s) = Function.update v base c ∨
      view ((glance p base)^[k] s) = Function.update v base c.settled := by
  refine view_glances hp hb k h fun j hj => ⟨(hgo j hj).2, ?_⟩
  by_cases hbusy : Busy (statusAt p base s j)
  · exact .inl hbusy
  · exact .inr (.inl fun hdrq => (hgo j hj).1 ⟨hbusy, hdrq⟩)

/-- The channels a wait that gave up can leave. -/
def Left (c c' : Channel) : Prop :=
  c' = c ∨ c' = c.settled ∨ c' = c.aborted ∨ c' = c.settled.aborted

/-- **A wait for data that succeeds has the next block open; one that fails has
moved no data.** -/
theorem waitDrq_cases (hp : Follows p view) (hb : IsBase base) (h : view s = Function.update v base c) :
    (ideWaitDrq p base s).1 = true ∧
        view (ideWaitDrq p base s).2 = Function.update v base c.settled.opened ∧
        c.settled.opened.Transfers ∨
      (ideWaitDrq p base s).1 = false ∧
        ∃ c', view (ideWaitDrq p base s).2 = Function.update v base c' ∧ Left c c' := by
  obtain ⟨k, -, hgo, hend, ⟨hres, hbusy, hdrq⟩ | ⟨hres, -, herr⟩⟩ | ⟨hres, hend, hgo⟩ :=
    @waitStatus_cases _ p base ideStatusDrq ideTimeout s
  · refine .inl ⟨hres, ?_⟩
    -- the last poll opens the block, stored or not when it came
    have hlast : ∀ c', c'.settled = c.settled → view ((glance p base)^[k] s) = Function.update v base c' →
        view ((glance p base)^[k + 1] s) = Function.update v base c.settled.opened ∧
          c.settled.opened.Transfers := by
      intro c' hc' hk
      obtain ⟨herr, hopen⟩ := hp.drq (s := (glance p base)^[k] s) hb hbusy hdrq
      rw [hk, Function.update_self, hc'] at hopen
      refine ⟨?_, hopen⟩
      rw [Function.iterate_succ_apply', view_glance hp hb hk]
      have hpolled : c'.polled (statusAt p base s k) = c'.settled.opened := by
        simp only [Channel.polled, if_neg hbusy, if_pos hdrq]
        exact if_neg herr
      exact congrArg _ (hpolled.trans (by rw [hc']))
    rw [show (ideWaitDrq p base s).2 = _ from hend]
    exact (view_glances_drq hp hb h hgo).elim (hlast c rfl) (hlast c.settled (Channel.settled_settled c))
  · refine .inr ⟨hres, ?_⟩
    have hlast : ∀ c', view ((glance p base)^[k] s) = Function.update v base c' →
        ∃ c'', view ((glance p base)^[k + 1] s) = Function.update v base c'' ∧
          (c'' = c' ∨ c'' = c'.aborted) := by
      intro c' hk
      refine ⟨_, by rw [Function.iterate_succ_apply', view_glance hp hb hk], ?_⟩
      by_cases hbusy : Busy (statusAt p base s k)
      · exact .inl (if_pos hbusy)
      · exact .inr ((if_neg hbusy).trans (if_pos herr))
    rw [show (ideWaitDrq p base s).2 = _ from hend]
    obtain hk | hk := view_glances_drq hp hb h hgo
    · obtain ⟨c'', hc'', h' | h'⟩ := hlast c hk
      · exact ⟨c'', hc'', .inl h'⟩
      · exact ⟨c'', hc'', .inr (.inr (.inl h'))⟩
    · obtain ⟨c'', hc'', h' | h'⟩ := hlast c.settled hk
      · exact ⟨c'', hc'', .inr (.inl h')⟩
      · exact ⟨c'', hc'', .inr (.inr (.inr h'))⟩
  · refine .inr ⟨hres, ?_⟩
    rw [show (ideWaitDrq p base s).2 = _ from hend]
    obtain hk | hk := view_glances_drq hp hb h hgo
    · exact ⟨c, hk, .inl rfl⟩
    · exact ⟨c.settled, hk, .inr (.inl rfl)⟩

/-- Polls that wait for `RDY` on a channel that has at most a block to store. -/
theorem view_glances_ready (hp : Follows p view) (hb : IsBase base)
    (h : view s = Function.update v base c) (hidle : c.settled.phase = .idle) {k : Nat}
    (hgo : ∀ j < k, GoesOn ideStatusRdy (statusAt p base s j)) :
    view ((glance p base)^[k] s) = Function.update v base c ∨
      view ((glance p base)^[k] s) = Function.update v base c.settled :=
  view_glances hp hb k h fun j hj =>
    ⟨(hgo j hj).2, .inr (.inr (Channel.opened_of_idle hidle))⟩

/-- A byte without `BSY` on a channel that has at most a block to store: stored,
or lost to an error. -/
theorem polled_ready {st : UInt8} (hidle : c.settled.phase = .idle) (hbusy : ¬ Busy st) :
    c.polled st = c.settled ∧ ¬ Failed st ∨ c.polled st = c.aborted ∧ Failed st := by
  by_cases herr : Failed st
  · exact .inr ⟨(if_neg hbusy).trans (if_pos herr), herr⟩
  · refine .inl ⟨?_, herr⟩
    simp only [Channel.polled, if_neg hbusy, if_neg herr, Channel.opened_of_idle hidle, ite_self]

theorem polled_settled (hidle : c.settled.phase = .idle) (st : UInt8) :
    c.settled.polled st = c.settled := Channel.polled_of_idle hidle st

/-- **A wait for `RDY` that succeeds has seen the block stored, or an error
that it takes for readiness.** -/
theorem waitReady_cases (hp : Follows p view) (hb : IsBase base) (h : view s = Function.update v base c)
    (hidle : c.settled.phase = .idle) :
    ∃ c', view (ideWaitReady p base s).2 = Function.update v base c' ∧
      (c' = c ∨ c' = c.settled ∨ c' = c.aborted) ∧
      ((ideWaitReady p base s).1 = true →
        c' = c.settled ∨ c' = c.aborted ∧ ∃ k, Failed (statusAt p base s k) ∧
          (ideWaitReady p base s).2 = (glance p base)^[k + 1] s) := by
  obtain ⟨k, -, hgo, hend, hres⟩ | ⟨hres, hend, hgo⟩ :=
    @waitStatus_cases _ p base ideStatusRdy ideTimeout s
  · rw [show (ideWaitReady p base s).2 = _ from hend, Function.iterate_succ_apply']
    obtain hk | hk := view_glances_ready hp hb h hidle hgo
    · refine ⟨_, view_glance hp hb hk, ?_⟩
      by_cases hbusy : Busy ((statusAt p base ((glance p base)^[k] s) 0))
      · refine ⟨.inl (if_pos hbusy), fun htrue => ?_⟩
        obtain ⟨-, hnot, -⟩ | ⟨hfalse, -⟩ := hres
        · exact absurd hbusy hnot
        · cases htrue.symm.trans hfalse
      · obtain ⟨hc', -⟩ | ⟨hc', herr⟩ := polled_ready hidle hbusy
        · exact ⟨.inr (.inl hc'), fun _ => .inl hc'⟩
        · exact ⟨.inr (.inr hc'), fun _ =>
            .inr ⟨hc', k, herr, (Function.iterate_succ_apply' _ _ _).symm⟩⟩
    · refine ⟨_, view_glance hp hb hk, ?_, fun _ => .inl (polled_settled hidle _)⟩
      exact .inr (.inl (polled_settled hidle _))
  · rw [show (ideWaitReady p base s).2 = _ from hend]
    have hno : (ideWaitReady p base s).1 ≠ true := by
      rw [show (ideWaitReady p base s).1 = _ from hres]
      simp
    obtain hk | hk := view_glances_ready hp hb h hidle hgo
    · exact ⟨c, hk, .inl rfl, fun ht => absurd ht hno⟩
    · exact ⟨c.settled, hk, .inr (.inl rfl), fun ht => absurd ht hno⟩

theorem waitReady_idle (hp : Follows p view) (hb : IsBase base) (h : view s = Function.update v base c)
    (hc : c.phase = .idle) : view (ideWaitReady p base s).2 = Function.update v base c := by
  have hsettled := Channel.settled_of_idle hc
  obtain ⟨c', hview, rfl | rfl | rfl, -⟩ := waitReady_cases hp hb h (by rw [hsettled]; exact hc)
  · exact hview
  · rwa [hsettled] at hview
  · rwa [Channel.aborted_of_idle hc] at hview

theorem waitDrq_idle (hp : Follows p view) (hb : IsBase base) (h : view s = Function.update v base c)
    (hc : c.phase = .idle) :
    (ideWaitDrq p base s).1 = false ∧ view (ideWaitDrq p base s).2 = Function.update v base c := by
  have hsettled := Channel.settled_of_idle hc
  obtain ⟨-, -, hopen⟩ | ⟨hres, c', hview, hleft⟩ := waitDrq_cases hp hb h
  · rw [hsettled, Channel.opened_of_idle hc, Channel.Transfers, hc] at hopen
    exact hopen.elim
  · refine ⟨hres, ?_⟩
    rw [Left, hsettled, Channel.aborted_of_idle hc, or_self, or_self, or_self] at hleft
    rwa [hleft] at hview

theorem waitReady_present (hp : Follows p view) (hb : IsBase base) (h : view s = Function.update v base c)
    (hc : c.phase = .idle) (hready : (ideWaitReady p base s).1 = true) :
    c.present c.slave = true := by
  obtain ⟨k, -, -, -, ⟨-, hbusy, hrdy⟩ | ⟨hfalse, -⟩⟩ | ⟨hfalse, -⟩ :=
    @waitStatus_cases _ p base ideStatusRdy ideTimeout s
  · by_contra habsent
    have hk := view_glances_idle hp hb hc k h
    obtain hb' | hr := hp.absent (s := (glance p base)^[k] s) hb
      (by rw [hk, Function.update_self]; exact Bool.eq_false_iff.mpr habsent)
    · exact hbusy hb'
    · exact hr hrdy
  · cases hready.symm.trans hfalse
  · cases hready.symm.trans hfalse

/-! ## Drives that answer in time -/

/-- A wait for data on a drive that answers in time ends with the block, or with
the command over. -/
theorem waitDrq_prompt (hp : Follows p view) (hq : Prompt p view) (hb : IsBase base)
    (h : view s = Function.update v base c) (hc : c.present c.slave = true)
    (hanswers : ∀ st, c.Answers st → ¬ Busy st ∧ (Drq st ∨ Failed st))
    (hfail : (ideWaitDrq p base s).1 = false) :
    view (ideWaitDrq p base s).2 = Function.update v base c.settled.aborted := by
  obtain ⟨k, -, hgo, hend, ⟨hres, -⟩ | ⟨-, -, herr⟩⟩ | ⟨-, -, hgo⟩ :=
    @waitStatus_cases _ p base ideStatusDrq ideTimeout s
  · cases hfail.symm.trans hres
  · rw [show (ideWaitDrq p base s).2 = _ from hend, Function.iterate_succ_apply']
    have hbusy : ¬ Busy (statusAt p base ((glance p base)^[k] s) 0) := fun hb' =>
      hq.quiet hb hb' herr
    have hpolled : ∀ c' : Channel, c'.polled (statusAt p base ((glance p base)^[k] s) 0) = c'.aborted :=
      fun c' => (if_neg hbusy).trans (if_pos herr)
    obtain hk | hk := view_glances_drq hp hb h hgo
    · rw [view_glance hp hb hk, hpolled]
      obtain ⟨lba, left, block, hstore⟩ | hsame := Channel.settled_or c
      · exact absurd herr (hq.stores hb (by rw [hk, Function.update_self]; exact hstore) hbusy)
      · rw [hsame]
    · rw [view_glance hp hb hk, hpolled]
  · obtain ⟨k, hk, hanswer⟩ := hq.answers hb (s := s) (by rw [h, Function.update_self]; exact hc)
    rw [h, Function.update_self] at hanswer
    obtain ⟨hbusy, hdrq | herr⟩ := hanswers _ hanswer
    · exact absurd ⟨hbusy, hdrq⟩ (hgo k hk).1
    · exact absurd herr (hgo k hk).2

/-- A wait for `RDY` on a drive that answers in time leaves the block stored,
whether the wait succeeds or not. -/
theorem waitReady_prompt (hp : Follows p view) (hq : Prompt p view) (hb : IsBase base)
    (h : view s = Function.update v base c) (hc : c.present c.slave = true)
    (hidle : c.settled.phase = .idle) (hanswers : ∀ st, c.Answers st → ¬ Busy st ∧ Ready st) :
    view (ideWaitReady p base s).2 = Function.update v base c.settled := by
  obtain ⟨k, -, hgo, hend, hres⟩ | ⟨-, -, hgo⟩ := @waitStatus_cases _ p base ideStatusRdy ideTimeout s
  · rw [show (ideWaitReady p base s).2 = _ from hend, Function.iterate_succ_apply']
    have hbusy : ¬ Busy (statusAt p base ((glance p base)^[k] s) 0) := by
      obtain ⟨-, hnot, -⟩ | ⟨-, -, herr⟩ := hres
      · exact hnot
      · exact fun hb' => hq.quiet hb hb' herr
    obtain hk | hk := view_glances_ready hp hb h hidle hgo
    · rw [view_glance hp hb hk]
      obtain ⟨hc', -⟩ | ⟨hc', herr⟩ := polled_ready hidle hbusy
      · rw [hc']
      · obtain ⟨lba, left, block, hstore⟩ | hsame := Channel.settled_or c
        · exact absurd herr (hq.stores hb (by rw [hk, Function.update_self]; exact hstore) hbusy)
        · rw [hc', hsame, Channel.aborted_of_idle (by rwa [hsame] at hidle)]
    · rw [view_glance hp hb hk, polled_settled hidle]
  · obtain ⟨k, hk, hanswer⟩ := hq.answers hb (s := s) (by rw [h, Function.update_self]; exact hc)
    rw [h, Function.update_self] at hanswer
    exact absurd (hanswers _ hanswer) (hgo k hk).1

/-! ## The task file of a transfer

The registers the driver writes before a command, and the drive and the sector
they name to the channel. -/

/-- The drive that bit 0 of its number selects. -/
def isSlave (driveNum : UInt8) : Bool := driveNum &&& 1 != 0

/-- The channel after `ide_select_drive`. -/
def selected (c : Channel) (driveNum : UInt8) : Channel :=
  { c with head := (0xE0 : UInt8) ||| ((driveNum &&& 1) <<< 4) }

/-- The task file of a transfer, before its command. -/
def addressed (c : Channel) (driveNum : UInt8) (lba : UInt32) (count : UInt8) : Channel :=
  { c with
    count := count
    low := (lba &&& 0xFF).toUInt8
    mid := ((lba >>> 8) &&& 0xFF).toUInt8
    high := ((lba >>> 16) &&& 0xFF).toUInt8
    head := (0xE0 : UInt8) ||| ((driveNum &&& 1) <<< 4) ||| ((lba >>> 24) &&& 0x0F).toUInt8 }

theorem bit_cases (d : UInt8) : d &&& 1 = 0 ∨ d &&& 1 = 1 := by
  revert d
  exact forall_byte (by decide +kernel)

theorem head_slave (d n : UInt8) : isSlave d =
    (((0xE0 : UInt8) ||| ((d &&& 1) <<< 4) ||| (n &&& 0x0F)) &&& 0x10 != 0) := by
  obtain h | h := bit_cases d
  · rw [isSlave, h]
    revert n
    exact forall_byte (by decide +kernel)
  · rw [isSlave, h]
    revert n
    exact forall_byte (by decide +kernel)

theorem head_nibble (d n : UInt8) :
    ((0xE0 : UInt8) ||| ((d &&& 1) <<< 4) ||| (n &&& 0x0F)) &&& 0x0F = n &&& 0x0F := by
  obtain h | h := bit_cases d
  · rw [h]
    revert n
    exact forall_byte (by decide +kernel)
  · rw [h]
    revert n
    exact forall_byte (by decide +kernel)

theorem top_eq (lba : UInt32) :
    ((lba >>> 24) &&& 0x0F).toUInt8 = ((lba >>> 24) &&& 0x0F).toUInt8 &&& 0x0F := by
  rw [← UInt8.toNat_inj]
  simp [Nat.and_two_pow_sub_one_eq_mod _ 4]

theorem toNat_byte (x : UInt32) : (x &&& 0xFF).toUInt8.toNat = x.toNat % 2 ^ 8 := by
  simp [Nat.and_two_pow_sub_one_eq_mod _ 8]

@[simp] theorem selected_slave (c : Channel) (d : UInt8) : (selected c d).slave = isSlave d := by
  have h := head_slave d 0
  simpa [Channel.slave, selected] using h.symm

@[simp] theorem addressed_slave (c : Channel) (d : UInt8) (lba : UInt32) (n : UInt8) :
    (addressed c d lba n).slave = isSlave d := by
  simp only [Channel.slave, addressed]
  rw [top_eq]
  exact (head_slave d _).symm

/-- **The task file names the sector modulo `2 ^ 28`.** -/
theorem addressed_address (c : Channel) (d : UInt8) (lba : UInt32) (n : UInt8) :
    (addressed c d lba n).address = lba.toNat % 2 ^ 28 := by
  have hlt := lba.toNat_lt
  simp only [Channel.address, addressed, toNat_byte]
  rw [top_eq, head_nibble, ← top_eq]
  simp [Nat.and_two_pow_sub_one_eq_mod _ 4, Nat.shiftRight_eq_div_pow]
  omega

theorem addressed_sectors (c : Channel) (d : UInt8) (lba : UInt32) {n : UInt8} (hn : n ≠ 0) :
    (addressed c d lba n).sectors = n.toNat := if_neg hn

theorem view_outb (hp : Follows p view) (hb : IsBase base) (reg : UInt16) (h₁ : 1 ≤ reg) (h₂ : reg ≤ 7)
    (h : view s = Function.update v base c) (hc : c.phase = .idle) (x : UInt8) :
    view (p.outb (base + reg) x s) = Function.update v base (c.outb reg x) := by
  rw [hp.outb x hb h₁ h₂ (by rw [h, Function.update_self]; exact hc), h, Function.update_self,
    Function.update_idem]

theorem view_select (hp : Follows p view) (hb : IsBase base) (h : view s = Function.update v base c)
    (hc : c.phase = .idle) (d : UInt8) :
    view (ideSelectDrive p base d s) = Function.update v base (selected c d) :=
  view_glances_idle hp hb (c := selected c d) hc 4 (view_outb hp hb ideRegDrive (by decide) (by decide) h hc _)

theorem view_start (hp : Follows p view) (hb : IsBase base) (h : view s = Function.update v base c)
    (hc : c.phase = .idle) (d : UInt8) (lba : UInt32) (n command : UInt8) :
    view (startTransfer p base d lba n command s) = Function.update v base
      { addressed c d lba n with phase := (addressed c d lba n).started command } := by
  have h := view_outb hp hb ideRegFeatures (by decide) (by decide) h hc 0x00
  have h := view_outb hp hb ideRegSectorCount (by decide) (by decide) h hc n
  have h := view_outb hp hb ideRegLbaLow (by decide) (by decide) h hc (lba &&& 0xFF).toUInt8
  have h := view_outb hp hb ideRegLbaMid (by decide) (by decide) h hc
    ((lba >>> 8) &&& 0xFF).toUInt8
  have h := view_outb hp hb ideRegLbaHigh (by decide) (by decide) h hc
    ((lba >>> 16) &&& 0xFF).toUInt8
  have h := view_outb hp hb ideRegDrive (by decide) (by decide) h hc
    ((0xE0 : UInt8) ||| ((d &&& 1) <<< 4) ||| ((lba >>> 24) &&& 0x0F).toUInt8)
  exact view_outb hp hb ideRegCommand (by decide) (by decide) h hc command

end ContinuumOS.Disk.Polling
