import Mathlib.Data.Nat.Prime.Defs
import Mathlib.Tactic.NormNum.Prime
import ContinuumOS.Lib.XorVector
import ContinuumOS.Sched.Lottery

/-! # The generator starves no process

`xorshift32` is additive for the exclusive or and a root of a polynomial of degree
32. That its powers come back to the identity after `2 ^ 32 - 1` steps, and after
no fraction of them, is a computation with such polynomials. So the generator
passes through all states but zero, and every ticket is drawn. -/
namespace ContinuumOS.Sched.Starvation
open ContinuumOS.Lib.BitPolynomial ContinuumOS.Lib.FullPeriod ContinuumOS.Lib.XorVector
open ContinuumOS.Lib.Lottery ContinuumOS.Sched.Scheduler ContinuumOS.Sched.Lottery

/-- The seed of `xorshift32_state`. -/
def seed : UInt32 := 2463534242

/-- The runnable processes have tickets, and their number fits an `int`. -/
structure RunnableSet (s : SchedState) : Prop where
  count : s.processCount = (List.range maxProcesses).countP fun i => s.processTable i != 0
  tickets : EntrantsPriced s runnable (List.range maxProcesses)
  total : totalTickets s runnable < 2 ^ 31

/-- The state after `k` calls of `scheduler_next_process`. -/
def afterCalls (k : Nat) : SchedState → SchedState := (fun s => (schedulerNextProcess s).2)^[k]

/-! ## The period of the generator -/

theorem xorshift32_xor (x y : UInt32) : xorshift32 (x ^^^ y) = xorshift32 x ^^^ xorshift32 y := by
  have hpair : ∀ a b c d : UInt32, (a ^^^ b) ^^^ (c ^^^ d) = (a ^^^ c) ^^^ (b ^^^ d) := by
    intro a b c d
    ac_rfl
  simp only [xorshift32, UInt32.shiftLeft_xor, UInt32.shiftRight_xor, hpair]

/-- The generator as a map of words. -/
def generator : AddMonoid.End (XorVector 32) where
  toFun v := (xorshift32 ⟨v⟩).toBitVec
  map_zero' := rfl
  map_add' v w := congrArg UInt32.toBitVec (xorshift32_xor ⟨v⟩ ⟨w⟩)

/-- The polynomial of degree 32 that the generator is a root of. -/
def modulusCode : Nat := 0x1003ec241

theorem modulus_generator : Modulus generator 32 modulusCode :=
  ⟨end_add_self, by decide, by decide, value_eq_zero (by decide +kernel)⟩

theorem power_generator {m e : Nat} (hm : m < 2 ^ 32) (he : e < 2 ^ 32)
    (h : power 32 modulusCode 32 m ^^^ 1 = power 32 modulusCode 32 e) :
    generator ^ m + 1 = generator ^ e := by
  rw [← value_power modulus_generator (by decide) hm, ← value_power modulus_generator (by decide) he,
    ← h, value_xor end_add_self, value_one]

/-- **The generator has full period**; the logarithms were computed beforehand. -/
theorem fullPeriod_generator : FullPeriod generator (2 ^ 32 - 1) where
  two := add_self
  pos := by decide
  power := by
    have h : power 32 modulusCode 32 (2 ^ 32 - 1) = 1 := by decide +kernel
    rw [← value_power modulus_generator (by decide) (by decide : 2 ^ 32 - 1 < 2 ^ 32), h, value_one]
  logs p hp hdvd := by
    have hfactors : p ∣ 3 * (5 * (17 * (257 * 65537))) := hdvd
    rw [hp.dvd_mul, hp.dvd_mul, hp.dvd_mul, hp.dvd_mul,
      Nat.prime_dvd_prime_iff_eq hp (by norm_num), Nat.prime_dvd_prime_iff_eq hp (by norm_num),
      Nat.prime_dvd_prime_iff_eq hp (by norm_num), Nat.prime_dvd_prime_iff_eq hp (by norm_num),
      Nat.prime_dvd_prime_iff_eq hp (by norm_num)] at hfactors
    rcases hfactors with rfl | rfl | rfl | rfl | rfl
    · exact ⟨2863311530, power_generator (by decide) (by decide) (by decide +kernel)⟩
    · exact ⟨1145324612, power_generator (by decide) (by decide) (by decide +kernel)⟩
    · exact ⟨3991793133, power_generator (by decide) (by decide) (by decide +kernel)⟩
    · exact ⟨2812716966, power_generator (by decide) (by decide) (by decide +kernel)⟩
    · exact ⟨3034363099, power_generator (by decide) (by decide) (by decide +kernel)⟩

theorem toBitVec_iterate (k : Nat) (x : UInt32) :
    (xorshift32^[k] x).toBitVec = generator^[k] x.toBitVec := by
  have hstep : Function.Semiconj UInt32.toBitVec xorshift32 generator := fun _ => rfl
  exact hstep.iterate_right k x

theorem toBitVec_ne_zero {x : UInt32} (h : x ≠ 0) : (x.toBitVec : XorVector 32) ≠ 0 :=
  fun hz => h (UInt32.toBitVec_inj.mp hz)

/-- From any state but zero the generator comes to any other, and never to zero. -/
theorem xorshift32_visits {x y : UInt32} (hx : x ≠ 0) (hy : y ≠ 0) :
    ∃ k < 2 ^ 32 - 1, xorshift32^[k] x = y := by
  obtain ⟨k, hk, h⟩ := fullPeriod_generator.exists_iterate (card_eq 32) (toBitVec_ne_zero hx)
    (toBitVec_ne_zero hy)
  exact ⟨k, hk, UInt32.toBitVec_inj.mp ((toBitVec_iterate k x).trans h)⟩

theorem iterate_ne_zero {x : UInt32} (hx : x ≠ 0) (k : Nat) : xorshift32^[k] x ≠ 0 := by
  intro hz
  refine fullPeriod_generator.iterate_ne_zero (toBitVec_ne_zero hx) k ?_
  rw [← toBitVec_iterate, hz]
  rfl

theorem minimalPeriod_xorshift32 {x : UInt32} (hx : x ≠ 0) :
    Function.minimalPeriod xorshift32 x = 2 ^ 32 - 1 := by
  refine Eq.trans ?_ (fullPeriod_generator.minimalPeriod_eq (toBitVec_ne_zero hx))
  have hsame : ∀ n, Function.IsPeriodicPt xorshift32 n x ↔
      Function.IsPeriodicPt generator n x.toBitVec := by
    intro n
    constructor
    · intro h
      exact (toBitVec_iterate n x).symm.trans (congrArg UInt32.toBitVec h)
    · intro h
      exact UInt32.toBitVec_inj.mp ((toBitVec_iterate n x).trans h)
  exact Nat.dvd_antisymm ((hsame _).mpr (Function.isPeriodicPt_minimalPeriod _ _)).minimalPeriod_dvd
    ((hsame _).mp (Function.isPeriodicPt_minimalPeriod _ _)).minimalPeriod_dvd

/-! ## Calls of the scheduler -/

section

variable {s : SchedState}

theorem RunnableSet.seeded (h : RunnableSet s) (x : UInt32) (idx : Int) :
    RunnableSet { s with xorshift32State := x, currentProcessIdx := idx } :=
  ⟨h.count, h.tickets, h.total⟩

theorem nextProcess_picks (h : RunnableSet s) {i : Nat} (hi : i < maxProcesses)
    (hpart : takesPart s runnable i = true) : ∃ j,
    pick (ticketsAt s) (entrants s runnable)
      ((xorshift32 s.xorshift32State).toNat % ticketTotal s runnable) = some j ∧
    schedulerNextProcess s = (s.processTable j, { s with
      xorshift32State := xorshift32 s.xorshift32State, currentProcessIdx := (j : Int) }) := by
  have hmem : i ∈ entrants s runnable := mem_entrants.mpr ⟨hi, hpart⟩
  have hcount : s.processCount ≠ 0 := by
    rw [h.count, Ne, List.countP_eq_zero]
    intro hnone
    exact hnone i (List.mem_range.mpr hi) (bne_iff_ne.mpr (present_of_takesPart hpart))
  rw [schedulerNextProcess, if_neg hcount]
  obtain ⟨hnone, -⟩ | ⟨j, -, hj, hl⟩ := @lottery_picks s runnable h.tickets
  · rw [hnone] at hmem
    cases hmem
  · exact ⟨j, hj, hl⟩

theorem afterCalls_eq (h : RunnableSet s) {i : Nat} (hi : i < maxProcesses)
    (hpart : takesPart s runnable i = true) : ∀ k, ∃ idx, afterCalls k s = { s with
      xorshift32State := xorshift32^[k] s.xorshift32State, currentProcessIdx := idx }
  | 0 => ⟨s.currentProcessIdx, rfl⟩
  | k + 1 => by
    obtain ⟨idx, hk⟩ := afterCalls_eq h hi hpart k
    obtain ⟨j, -, hj⟩ := nextProcess_picks (h.seeded (xorshift32^[k] s.xorshift32State) idx) hi hpart
    refine ⟨j, ?_⟩
    rw [afterCalls, Function.iterate_succ_apply', ← afterCalls, hk, hj, Function.iterate_succ_apply']

theorem exists_pick (h : RunnableSet s) {i : Nat} (hi : i < maxProcesses)
    (hpart : takesPart s runnable i = true) : ∃ n < ticketTotal s runnable,
    pick (ticketsAt s) (entrants s runnable) n = some i := by
  have hpos := (ticketsAt_cast h.tickets (List.mem_range.mpr hi) hpart).2
  have hshare : share (ticketsAt s) (entrants s runnable) i = ticketsAt s i :=
    share_eq entrants_nodup (mem_entrants.mpr ⟨hi, hpart⟩)
  rw [← hshare, share, List.countP_pos_iff] at hpos
  obtain ⟨n, hn, hpick⟩ := hpos
  exact ⟨n, List.mem_range.mp hn, beq_iff_eq.mp hpick⟩

theorem ticketTotal_lt (h : RunnableSet s) : ticketTotal s runnable < 2 ^ 31 := by
  have hlt := h.total
  rw [totalTickets_eq h.tickets] at hlt
  omega

theorem exists_state {r t : Nat} (hr : r < t) (ht : t < 2 ^ 31) :
    ∃ y : UInt32, y ≠ 0 ∧ y.toNat % t = r := by
  obtain rfl | hpos := Nat.eq_zero_or_pos r
  · refine ⟨UInt32.ofNat t, ?_, ?_⟩
    · intro h
      have hzero := congrArg UInt32.toNat h
      rw [UInt32.toNat_ofNat_of_lt' (show t < 2 ^ 32 by omega), UInt32.toNat_zero] at hzero
      omega
    · rw [UInt32.toNat_ofNat_of_lt' (show t < 2 ^ 32 by omega), Nat.mod_self]
  · refine ⟨UInt32.ofNat r, ?_, ?_⟩
    · intro h
      have hzero := congrArg UInt32.toNat h
      rw [UInt32.toNat_ofNat_of_lt' (show r < 2 ^ 32 by omega), UInt32.toNat_zero] at hzero
      omega
    · rw [UInt32.toNat_ofNat_of_lt' (show r < 2 ^ 32 by omega), Nat.mod_eq_of_lt hr]

theorem exists_selected (h : RunnableSet s) (hs : s.xorshift32State ≠ 0) {i : Nat}
    (hi : i < maxProcesses) (hpart : takesPart s runnable i = true) : ∃ k < 2 ^ 32 - 1,
    (schedulerNextProcess (afterCalls k s)).1 = s.processTable i := by
  obtain ⟨r, hr, hpick⟩ := exists_pick h hi hpart
  obtain ⟨y, hy, hyr⟩ := exists_state hr (ticketTotal_lt h)
  obtain ⟨k, hk, hvisit⟩ := xorshift32_visits (iterate_ne_zero hs 1) hy
  obtain ⟨idx, hafter⟩ := afterCalls_eq h hi hpart k
  obtain ⟨j, hj, hnext⟩ :=
    nextProcess_picks (h.seeded (xorshift32^[k] s.xorshift32State) idx) hi hpart
  refine ⟨k, hk, ?_⟩
  -- the draw of that call is the state looked for
  have hdraw : xorshift32 (xorshift32^[k] s.xorshift32State) = y := by
    rw [← hvisit, Function.iterate_one, ← Function.iterate_succ_apply xorshift32,
      Function.iterate_succ_apply' xorshift32]
  rw [hafter, hnext]
  rw [hdraw] at hj
  have hsel : some j = some i := by
    rw [← hj, ← hpick, ← hyr]
    rfl
  cases hsel
  rfl

/-- **The generator starves no process.** It passes through all states but zero
before one comes again, and is never zero; and after any number of draws every
process of a fixed set of runnable ones is selected by one of the next
`2 ^ 32 - 1` calls. -/
theorem no_process_starved (h : RunnableSet s) (n : Nat) :
    (∀ x : UInt32, x ≠ 0 → Function.minimalPeriod xorshift32 x = 2 ^ 32 - 1 ∧
      (∀ y ≠ 0, ∃ k < 2 ^ 32 - 1, xorshift32^[k] x = y) ∧ ∀ k, xorshift32^[k] x ≠ 0) ∧
    ∀ i, i < maxProcesses → takesPart s runnable i = true → ∃ k < 2 ^ 32 - 1,
      (schedulerNextProcess (afterCalls k { s with xorshift32State := xorshift32^[n] seed })).1 =
        s.processTable i := by
  refine ⟨fun x hx => ⟨minimalPeriod_xorshift32 hx, fun y => xorshift32_visits hx,
    iterate_ne_zero hx⟩, fun i hi hpart => ?_⟩
  have hseed : xorshift32^[n] seed ≠ 0 := iterate_ne_zero (by decide) n
  exact exists_selected (h.seeded (xorshift32^[n] seed) s.currentProcessIdx) hseed hi hpart

/-- `twoProcesses` when neither waits. -/
def twoRunnable : SchedState :=
  { twoProcesses with procs := fun q => { twoProcesses.procs q with hooks := [] } }

/-- Each of two runnable processes is selected, after five draws as at any time. -/
theorem no_process_starved_twoRunnable :
    (∃ k < 2 ^ 32 - 1, (schedulerNextProcess
        (afterCalls k { twoRunnable with xorshift32State := xorshift32^[5] seed })).1 = 4) ∧
      ∃ k < 2 ^ 32 - 1, (schedulerNextProcess
        (afterCalls k { twoRunnable with xorshift32State := xorshift32^[5] seed })).1 = 8 := by
  have htable : ProcessTable twoRunnable := ⟨by decide, by decide, by decide⟩
  have hset : RunnableSet twoRunnable := ⟨by decide, htable.priced.entrants, by decide⟩
  have hselected := (no_process_starved hset 5).2
  exact ⟨hselected 0 (by decide) (by decide), hselected 5 (by decide) (by decide)⟩

end

end ContinuumOS.Sched.Starvation
