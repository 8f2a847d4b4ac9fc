import ContinuumOS.Lib.Lottery
import ContinuumOS.Sched.Scheduler

/-! # The lottery is exact

Three functions of `src/kernel/scheduler.cpp` draw a process: each adds up the
tickets of the entries that pass its test, draws a number below the sum and runs
through the table until the running count passes it. That is `pick` on the
entries that take part, so none of them is left out or preferred. -/
namespace ContinuumOS.Sched.Lottery
open ContinuumOS.Lib.Lottery ContinuumOS.Lib.Stack ContinuumOS.Sched.Scheduler

def processIsEligible (p : Process) (eventType : HookType) (eventValue : UInt64) : Bool :=
  p.alive && (p.hooks.length == 0 || processHasMatchingHook p eventType eventValue)

/-- The test of `scheduler_next_eligible_process`, which asks twice whether the
process is alive. -/
def eligibleFor (eventType : HookType) (eventValue : UInt64) (p : Process) : Bool :=
  p.alive && processIsEligible p eventType eventValue

def schedulerNextEligibleProcess (eventType : HookType) (eventValue : UInt64) (s : SchedState) :
    UInt32 × SchedState :=
  if s.processCount = 0 then (0, s) else lottery s (eligibleFor eventType eventValue)

/-- `process_count` is the number of entries, every process has a ticket, and
the number of all tickets fits an `int`. -/
structure ProcessTable (s : SchedState) : Prop where
  count : s.processCount = (List.range maxProcesses).countP fun i => s.processTable i != 0
  tickets : ∀ i, i < maxProcesses → s.processTable i ≠ 0 →
    1 ≤ (s.procs (s.processTable i)).tickets
  total : totalTickets s (fun _ => true) < 2 ^ 31

/-- The tickets of an entry. -/
def ticketsAt (s : SchedState) (i : Nat) : Nat := (s.procs (s.processTable i)).tickets.toNat

/-- The entries that pass the test, in the order of the table. -/
def entrants (s : SchedState) (ok : Process → Bool) : List Nat :=
  (List.range maxProcesses).filter (takesPart s ok)

/-- The sum of their tickets. -/
def ticketTotal (s : SchedState) (ok : Process → Bool) : Nat :=
  total (ticketsAt s) (entrants s ok)

/-- The process that was returned, and `current_process_idx`. -/
def chosen (r : UInt32 × SchedState) : Option (UInt32 × Int) :=
  if r.1 = 0 then none else some (r.1, r.2.currentProcessIdx)

/-- The process that is jumped to, and `current_process_idx`. -/
def chosenOnExit : Outcome → Option (UInt32 × Int)
  | .jumpTrampoline s _ => some (s.gNextContext, s.currentProcessIdx)
  | .ret _ _ => none
  | .panic => none

/-- The function `select` draws exactly among the entries that pass the test. -/
structure Exact (s : SchedState) (ok : Process → Bool) (select : SchedState → Option (UInt32 × Int)) :
    Prop where
  /-- It fails exactly when there is none. -/
  fails : select s = none ↔ ∀ i, i < maxProcesses → takesPart s ok i = false
  /-- It selects one of them and makes its entry current. -/
  selects : ∀ p idx, select s = some (p, idx) → ∃ i, i < maxProcesses ∧ takesPart s ok i = true ∧
    p = s.processTable i ∧ idx = i
  /-- The draw modulo the ticket total decides which, and each has as many of
  the values as it has tickets. -/
  shares : ∃ slot : Nat → Nat,
    (∀ x, 0 < ticketTotal s ok →
      select { s with xorshift32State := x } =
        some (s.processTable (slot ((xorshift32 x).toNat % ticketTotal s ok)),
          (slot ((xorshift32 x).toNat % ticketTotal s ok) : Int))) ∧
    (∀ i, i < maxProcesses → takesPart s ok i = true →
      (List.range (ticketTotal s ok)).countP (fun w => slot w == i) = ticketsAt s i) ∧
    ∀ i, i < maxProcesses → takesPart s ok i = true →
      (∀ j, j < maxProcesses → s.processTable j = s.processTable i → j = i) →
      (List.range (ticketTotal s ok)).countP
        (fun w => s.processTable (slot w) == s.processTable i) = ticketsAt s i

/-! ## The loops of the functions are a `pick` -/

section Loops

variable {s : SchedState} {ok : Process → Bool}

/-- The entries with tickets that take part. -/
def Priced (s : SchedState) (is : List Nat) : Prop :=
  ∀ i ∈ is, s.processTable i ≠ 0 → 1 ≤ (s.procs (s.processTable i)).tickets

/-- The entries that take part have tickets. -/
def EntrantsPriced (s : SchedState) (ok : Process → Bool) (is : List Nat) : Prop :=
  ∀ i ∈ is, takesPart s ok i = true → 1 ≤ (s.procs (s.processTable i)).tickets

theorem ProcessTable.priced (h : ProcessTable s) : Priced s (List.range maxProcesses) :=
  fun i hi => h.tickets i (List.mem_range.mp hi)

theorem present_of_takesPart {i : Nat} (h : takesPart s ok i = true) : s.processTable i ≠ 0 :=
  bne_iff_ne.mp (Bool.and_eq_true_iff.mp h).1

theorem Priced.entrants {is : List Nat} (h : Priced s is) : EntrantsPriced s ok is :=
  fun i hi hpart => h i hi (present_of_takesPart hpart)

theorem ticketsAt_cast {is : List Nat} (h : EntrantsPriced s ok is) {i : Nat} (hi : i ∈ is)
    (hpart : takesPart s ok i = true) :
    (s.procs (s.processTable i)).tickets = (ticketsAt s i : Int) ∧ 0 < ticketsAt s i := by
  have hone := h i hi hpart
  unfold ticketsAt
  omega

theorem sum_eq {is : List Nat} (h : EntrantsPriced s ok is) : ∀ t : Int,
    is.foldl (fun t i => if takesPart s ok i then t + (s.procs (s.processTable i)).tickets else t) t =
      t + (total (ticketsAt s) (is.filter (takesPart s ok)) : Nat) := by
  induction is with
  | nil => intro t; simp [total]
  | cons i is ih =>
    intro t
    rw [List.foldl_cons, ih fun j hj => h j (.tail _ hj), List.filter_cons]
    by_cases hpart : takesPart s ok i = true
    · rw [if_pos hpart, if_pos hpart, total_cons, (ticketsAt_cast h (.head _) hpart).1]
      omega
    · rw [if_neg hpart, if_neg hpart]

theorem totalTickets_eq (h : EntrantsPriced s ok (List.range maxProcesses)) :
    totalTickets s ok = (ticketTotal s ok : Nat) := by
  rw [totalTickets, sum_eq h, Int.zero_add]
  rfl

theorem drawEntry_eq {is : List Nat} (h : EntrantsPriced s ok is) (w : Nat) : ∀ count : Nat,
    drawEntry s ok ((count + w : Nat) : Int) is count =
      pick (ticketsAt s) (is.filter (takesPart s ok)) w := by
  induction is generalizing w with
  | nil => exact fun _ => rfl
  | cons i is ih =>
    intro count
    have ih := ih fun j hj => h j (.tail _ hj)
    rw [List.filter_cons]
    by_cases hpart : takesPart s ok i = true
    · rw [drawEntry, if_pos hpart, if_pos hpart, (ticketsAt_cast h (.head _) hpart).1, pick]
      by_cases hw : w < ticketsAt s i
      · rw [if_pos hw]
        exact if_pos (by omega)
      · rw [if_neg hw, ← ih (w - ticketsAt s i) (count + ticketsAt s i),
          show count + ticketsAt s i + (w - ticketsAt s i) = count + w by omega]
        exact if_neg (by omega)
    · rw [drawEntry, if_neg hpart, if_neg hpart]
      exact ih w count

theorem mem_entrants {i : Nat} :
    i ∈ entrants s ok ↔ i < maxProcesses ∧ takesPart s ok i = true := by
  rw [entrants, List.mem_filter, List.mem_range]

theorem entrants_nodup : (entrants s ok).Nodup := List.nodup_range.filter _

theorem entrants_eq_nil_iff :
    entrants s ok = [] ↔ ∀ i, i < maxProcesses → takesPart s ok i = false := by
  simp [entrants]

theorem ticketTotal_pos_iff (h : EntrantsPriced s ok (List.range maxProcesses)) :
    0 < ticketTotal s ok ↔ entrants s ok ≠ [] := by
  have hpos : ∀ i ∈ entrants s ok, 0 < ticketsAt s i := fun i hi => by
    obtain ⟨hlt, hpart⟩ := mem_entrants.mp hi
    exact (ticketsAt_cast h (List.mem_range.mpr hlt) hpart).2
  exact Nat.pos_iff_ne_zero.trans (total_eq_zero_iff hpos).not

/-- **What the lottery does**: nothing without entrants, else it picks the entry
that covers the draw. -/
theorem lottery_picks (h : EntrantsPriced s ok (List.range maxProcesses)) :
    (entrants s ok = [] ∧ lottery s ok = (0, s)) ∨
    ∃ i, 0 < ticketTotal s ok ∧ pick (ticketsAt s) (entrants s ok)
        ((xorshift32 s.xorshift32State).toNat % ticketTotal s ok) = some i ∧
      lottery s ok = (s.processTable i, { s with
        xorshift32State := xorshift32 s.xorshift32State, currentProcessIdx := (i : Int) }) := by
  have htotal := @totalTickets_eq s ok h
  by_cases hnone : entrants s ok = []
  · left
    have hzero : ticketTotal s ok = 0 := Nat.eq_zero_of_not_pos fun hp =>
      (ticketTotal_pos_iff h).mp hp hnone
    refine ⟨hnone, ?_⟩
    simp only [lottery]
    rw [if_pos (by rw [htotal, hzero]; rfl)]
  · right
    have hpos := (ticketTotal_pos_iff h).mpr hnone
    obtain ⟨i, hi⟩ := pick_isSome (Nat.mod_lt (xorshift32 s.xorshift32State).toNat hpos)
    refine ⟨i, hpos, hi, ?_⟩
    -- the second pass runs after the generator has moved on
    let t : SchedState := { s with xorshift32State := xorshift32 s.xorshift32State }
    have hdraw : drawEntry t ok (((xorshift32 s.xorshift32State).toNat : Int) %
        (ticketTotal s ok : Nat)) (List.range maxProcesses) 0 = some i := by
      have hcover := @drawEntry_eq t ok _ h
        ((xorshift32 s.xorshift32State).toNat % ticketTotal s ok) 0
      rw [Nat.zero_add, Int.natCast_mod] at hcover
      exact hcover.trans hi
    simp only [lottery]
    rw [htotal, if_neg (by omega), hdraw]

end Loops

/-! ## The three selections -/

section Selections

variable {s : SchedState} {ok : Process → Bool} {select : SchedState → Option (UInt32 × Int)}

theorem exact_of_lottery (h : EntrantsPriced s ok (List.range maxProcesses))
    (hselect : ∀ x, select { s with xorshift32State := x } =
      chosen (lottery { s with xorshift32State := x } ok)) : Exact s ok select := by
  have hself := hselect s.xorshift32State
  have hsame : ({ s with xorshift32State := s.xorshift32State } : SchedState) = s := rfl
  rw [hsame] at hself
  refine ⟨?_, ?_, ?_⟩
  · rw [hself, ← entrants_eq_nil_iff]
    obtain ⟨hnone, hl⟩ | ⟨i, -, hi, hl⟩ := @lottery_picks s ok h
    · rw [hl]
      exact iff_of_true rfl hnone
    · have hmem := mem_of_pick hi
      have hpart := present_of_takesPart (mem_entrants.mp hmem).2
      rw [hl, chosen, if_neg hpart]
      exact iff_of_false (Option.some_ne_none _) (List.ne_nil_of_mem hmem)
  · intro p idx hp
    rw [hself] at hp
    obtain ⟨hnone, hl⟩ | ⟨i, -, hi, hl⟩ := @lottery_picks s ok h
    · rw [hl] at hp
      cases hp
    · obtain ⟨hlt, hpart⟩ := mem_entrants.mp (mem_of_pick hi)
      rw [hl, chosen, if_neg (present_of_takesPart hpart)] at hp
      cases hp
      exact ⟨i, hlt, hpart, rfl, rfl⟩
  · let slot : Nat → Nat := fun w => (pick (ticketsAt s) (entrants s ok) w).getD 0
    have hslot : ∀ w, w < ticketTotal s ok →
        pick (ticketsAt s) (entrants s ok) w = some (slot w) := by
      intro w hw
      obtain ⟨i, hi⟩ := pick_isSome hw
      rw [hi, show slot w = i by simp only [slot, hi, Option.getD_some]]
    have hcount : ∀ i, i < maxProcesses → takesPart s ok i = true →
        (List.range (ticketTotal s ok)).countP (fun w => slot w == i) = ticketsAt s i := by
      intro i hlt hpart
      refine Eq.trans ?_ (share_eq entrants_nodup (mem_entrants.mpr ⟨hlt, hpart⟩))
      refine List.countP_congr fun w hw => ?_
      rw [hslot w (List.mem_range.mp hw), beq_iff_eq, beq_iff_eq, Option.some.injEq]
    refine ⟨slot, fun x hpos => ?_, hcount, fun i hlt hpart honce => ?_⟩
    · rw [hselect]
      obtain ⟨hnone, -⟩ | ⟨i, -, hi, hl⟩ :=
        @lottery_picks { s with xorshift32State := x } ok h
      · exact absurd hnone ((ticketTotal_pos_iff h).mp hpos)
      · have hpicked : pick (ticketsAt s) (entrants s ok)
            ((xorshift32 x).toNat % ticketTotal s ok) = some i := hi
        have hi' := Option.some.inj (hpicked.symm.trans (hslot _ (Nat.mod_lt _ hpos)))
        have hpart := present_of_takesPart (mem_entrants.mp (mem_of_pick hpicked)).2
        rw [hl, chosen, if_neg hpart, ← hi']
    · rw [← hcount i hlt hpart]
      refine List.countP_congr fun w hw => ?_
      have hmem := mem_of_pick (hslot w (List.mem_range.mp hw))
      rw [beq_iff_eq, beq_iff_eq]
      exact ⟨honce _ (mem_entrants.mp hmem).1, fun he => by rw [he]⟩

theorem exact_guarded (h : ProcessTable s) (hselect : ∀ x, select { s with xorshift32State := x } =
      if s.processCount = 0 then none else chosen (lottery { s with xorshift32State := x } ok)) :
    Exact s ok select := by
  refine exact_of_lottery h.priced.entrants fun x => (hselect x).trans ?_
  split
  · rename_i hcount
    -- an empty table has no entrants
    rw [h.count, List.countP_eq_zero] at hcount
    have hnone : entrants s ok = [] := entrants_eq_nil_iff.mpr fun i hi => by
      rw [takesPart, Bool.eq_false_iff.mpr (hcount i (List.mem_range.mpr hi)), Bool.false_and]
    obtain ⟨-, hl⟩ | ⟨i, -, hi, -⟩ :=
      @lottery_picks { s with xorshift32State := x } ok h.priced.entrants
    · rw [hl]
      rfl
    · have hmem : i ∈ entrants s ok := mem_of_pick hi
      rw [hnone] at hmem
      cases hmem
  · rfl

theorem chosen_of_exit (s : SchedState) (m : Ram) :
    chosenOnExit (schedulerExitCurrentAndSwitch s m) = chosen (lottery s fun p => p.alive) := by
  rw [schedulerExitCurrentAndSwitch, chosen]
  generalize lottery s (fun p => p.alive) = r
  by_cases h : r.1 = 0
  · simp [h, chosenOnExit]
  · simp [h, chosenOnExit]

/-- **The lottery is exact**, in all three functions and for every process
table: they fail exactly when no process passes their test, else they select one
that does and make its entry current, and over the values of the draw modulo the
ticket total every process has as many as it has tickets. -/
theorem lottery_exact (h : ProcessTable s) (eventType : HookType) (eventValue : UInt64) (m : Ram) :
    Exact s runnable (fun s => chosen (schedulerNextProcess s)) ∧
    Exact s (eligibleFor eventType eventValue)
      (fun s => chosen (schedulerNextEligibleProcess eventType eventValue s)) ∧
    Exact s (fun p => p.alive) (fun s => chosenOnExit (schedulerExitCurrentAndSwitch s m)) := by
  refine ⟨exact_guarded h fun x => ?_, exact_guarded h fun x => ?_,
    exact_of_lottery h.priced.entrants fun x => chosen_of_exit _ m⟩
  · rw [schedulerNextProcess]
    split
    · rfl
    · rfl
  · rw [schedulerNextEligibleProcess]
    split
    · rfl
    · rfl

/-- A table with a runnable process of one ticket and a waiting one of two. -/
def twoProcesses : SchedState where
  procs := fun q =>
    if q = 4 then ⟨1, ⟨0, 0, 0, 0, 0, 0, 0, 0, 0, 0⟩, true, [], 1⟩
    else ⟨2, ⟨0, 0, 0, 0, 0, 0, 0, 0, 0, 0⟩, true, [⟨.signal, 2⟩], 2⟩
  processTable := fun i => if i = 0 then 4 else if i = 5 then 8 else 0
  processCount := 2
  currentProcessIdx := 0
  xorshift32State := 2463534242
  quantumCounter := 0
  lastRegs := 0
  gNextContext := 0
  timerTicks := 0
  nextPid := 3

theorem lottery_exact_twoProcesses :
    Exact twoProcesses runnable (fun s => chosen (schedulerNextProcess s)) ∧
    Exact twoProcesses (eligibleFor .signal 2)
      (fun s => chosen (schedulerNextEligibleProcess .signal 2 s)) ∧
    Exact twoProcesses (fun p => p.alive)
      (fun s => chosenOnExit (schedulerExitCurrentAndSwitch s fun _ => 0)) :=
  lottery_exact ⟨by decide, by decide, by decide⟩ .signal 2 _

end Selections

end ContinuumOS.Sched.Lottery
