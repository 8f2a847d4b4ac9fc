import ContinuumOS.Lib.Runs
import ContinuumOS.Sched.Foreground

/-! # Places in the process table

`scheduler_add_process` gives a new process a free entry of the table and
refuses when 32 processes were entered; no exit ever clears an entry. So a new
process gets a place exactly while fewer than 32 were started since boot,
however many of them are dead. -/
namespace ContinuumOS.Sched.Slots
open ContinuumOS.Lib.Runs ContinuumOS.Sched.Events ContinuumOS.Sched.Scheduler
open ContinuumOS.Sched.RoundTrip ContinuumOS.Sched.Foreground
open ContinuumOS.Sched.Delivery hiding step visited

/-- The kernel and the processes started so far, the first one first. -/
structure Sys where
  kernel : Kernel
  started : List UInt32

def booted (devices : List PciDevice) : Sys := ⟨Delivery.booted devices, []⟩

/-- What may happen: `k_start_process` with heap memory that is not in use, a
live process is killed, the process that runs exits. -/
def allowed (s : Sys) : Act → Bool
  | .start _ _ procPtr stackPtr => procPtr != 0 && stackPtr != 0 && !s.started.contains procPtr
  | .kill proc => (s.kernel.sched.procs proc).alive
  | .exit => (s.kernel.sched.procs s.kernel.sched.current).alive
  | _ => false

def startedBy : Act → List UInt32
  | .start _ _ procPtr _ => [procPtr]
  | _ => []

def step (s : Sys) (act : Act) : Option Sys :=
  if allowed s act then
    (Delivery.step s.kernel act).map fun k => ⟨k, s.started ++ startedBy act⟩
  else none

/-- How many of the processes started so far are alive. -/
def liveCount (s : Sys) : Nat := s.started.countP fun p => (s.kernel.sched.procs p).alive

/-- In the table, and drawn by `scheduler_next_process` at some state of the
generator. -/
def Entered (s : SchedState) (proc : UInt32) : Prop :=
  InTable s proc ∧ ∃ x, x ≠ 0 ∧ (schedulerNextProcess { s with xorshift32State := x }).1 = proc

/-! ## The draw reaches everybody -/

/-- Every taking part costs one ticket. -/
def OneTicket (s : SchedState) : Prop :=
  ∀ i < maxProcesses, s.processTable i ≠ 0 → (s.procs (s.processTable i)).tickets = 1

section

variable {s : SchedState} {ok : Process → Bool}

theorem total_count (is : List Nat) (hone : ∀ i ∈ is, takesPart s ok i = true →
    (s.procs (s.processTable i)).tickets = 1) : ∀ t : Int,
    is.foldl (fun t i => if takesPart s ok i then t + (s.procs (s.processTable i)).tickets else t) t =
      t + is.countP (takesPart s ok) := by
  induction is with
  | nil => intro t; simp
  | cons i is ih =>
    intro t
    rw [List.foldl_cons, ih (fun j hj => hone j (.tail _ hj)), List.countP_cons]
    by_cases h : takesPart s ok i = true
    · simp only [h, hone i (.head _) h, if_true]
      omega
    · simp [h]

theorem drawEntry_reaches {i : Nat} (hi : takesPart s ok i = true) (is : List Nat)
    (hone : ∀ i ∈ is, takesPart s ok i = true → (s.procs (s.processTable i)).tickets = 1)
    (hmem : i ∈ is) : ∀ count : Int,
    ∃ w : Nat, w < is.countP (takesPart s ok) ∧ drawEntry s ok (count + w) is count = some i := by
  induction is with
  | nil => cases hmem
  | cons j is ih =>
    intro count
    have hrest := ih fun j hj => hone j (.tail _ hj)
    simp only [drawEntry, List.countP_cons]
    by_cases hj : takesPart s ok j = true
    · simp only [hj, hone j (.head _) hj, if_true]
      by_cases hij : i = j
      · exact ⟨0, by omega, by rw [hij, if_pos (by omega)]⟩
      · obtain ⟨w, hw, hdraw⟩ := hrest ((List.mem_cons.mp hmem).resolve_left hij) (count + 1)
        refine ⟨w + 1, by omega, ?_⟩
        rw [if_neg (by omega), ← hdraw]
        congr 1
        omega
    · have hij : i ≠ j := fun h => hj (h ▸ hi)
      obtain ⟨w, hw, hdraw⟩ := hrest ((List.mem_cons.mp hmem).resolve_left hij) count
      simp only [hj, Bool.false_eq_true, if_false]
      exact ⟨w, by omega, hdraw⟩

@[simp] theorem takesPart_generator (s : SchedState) (x : UInt32) (i : Nat) :
    takesPart { s with xorshift32State := x } ok i = takesPart s ok i := rfl

@[simp] theorem totalTickets_generator (s : SchedState) (x : UInt32) :
    totalTickets { s with xorshift32State := x } ok = totalTickets s ok := rfl

@[simp] theorem drawEntry_generator (s : SchedState) (x : UInt32) (w : Int) (is : List Nat) :
    ∀ count : Int,
    drawEntry { s with xorshift32State := x } ok w is count = drawEntry s ok w is count := by
  induction is with
  | nil => exact fun _ => rfl
  | cons i is ih => intro count; simp only [drawEntry, takesPart_generator, ih]

end

/-- The state of the generator before it gives `x`. -/
def unXorshift32 (x : UInt32) : UInt32 :=
  let x := x ^^^ (x <<< 5) ^^^ (x <<< 10) ^^^ (x <<< 15) ^^^ (x <<< 20) ^^^ (x <<< 25) ^^^ (x <<< 30)
  let x := x ^^^ (x >>> 17)
  x ^^^ (x <<< 13) ^^^ (x <<< 26)

theorem xorshift32_unXorshift32 : ∀ n < 64, n ≠ 0 → unXorshift32 (UInt32.ofNat n) ≠ 0 ∧
    (xorshift32 (unXorshift32 (UInt32.ofNat n))).toNat = n := by decide +kernel

theorem next_reaches {s : SchedState} (hcount : s.processCount ≠ 0) (hone : OneTicket s) {i : Nat}
    (hi : i < maxProcesses) (hpart : takesPart s runnable i = true) :
    ∃ x, x ≠ 0 ∧ (schedulerNextProcess { s with xorshift32State := x }).1 = s.processTable i := by
  have hone' : ∀ i ∈ List.range maxProcesses, takesPart s runnable i = true →
      (s.procs (s.processTable i)).tickets = 1 := by
    intro j hj hp
    simp only [takesPart, Bool.and_eq_true, bne_iff_ne] at hp
    exact hone j (List.mem_range.mp hj) hp.1
  obtain ⟨w, hw, hdraw⟩ := drawEntry_reaches hpart _ hone' (List.mem_range.mpr hi) 0
  have htotal := total_count _ hone' 0
  have hle : (List.range maxProcesses).countP (takesPart s runnable) ≤ 32 :=
    List.countP_le_length.trans (by simp [maxProcesses])
  generalize (List.range maxProcesses).countP (takesPart s runnable) = total at *
  -- the generator gives `w + total`, which is not 0
  obtain ⟨hne, hx⟩ := xorshift32_unXorshift32 (w + total) (by omega) (by omega)
  refine ⟨_, hne, ?_⟩
  have hwin : (((w + total : Nat) : Int) % (total : Int)) = 0 + (w : Int) := by
    rw [← Int.natCast_mod, Nat.add_mod_right, Nat.mod_eq_of_lt hw, Int.zero_add]
  have hsum : totalTickets s runnable = (total : Int) := by
    rw [totalTickets, htotal, Int.zero_add]
  rw [schedulerNextProcess, if_neg hcount, lottery]
  simp only [totalTickets_generator, drawEntry_generator, hsum, hx, hwin, hdraw]
  rw [if_neg (by omega)]

/-! ## What a start does -/

/-- The table holds the first 32 processes started, in that order. -/
structure Inv (s : Sys) : Prop where
  table : ∀ i < maxProcesses, s.kernel.sched.processTable i = s.started.getD i 0
  count : s.kernel.sched.processCount = min s.started.length maxProcesses
  null : 0 ∉ s.started
  tickets : ∀ p ∈ s.started, (s.kernel.sched.procs p).tickets = 1
  foreground : s.kernel.foregroundProc = 0

theorem inv_booted (devices : List PciDevice) : Inv (booted devices) :=
  ⟨fun _ _ => rfl, rfl, by simp [booted], by simp [booted], rfl⟩

theorem Inv.entry {s : Sys} (h : Inv s) {i : Nat} (hi : i < maxProcesses)
    (hlen : i < s.started.length) :
    s.kernel.sched.processTable i ∈ s.started ∧ s.kernel.sched.processTable i ≠ 0 := by
  rw [h.table i hi, List.getD_eq_getElem?_getD, List.getElem?_eq_getElem hlen, Option.getD_some]
  exact ⟨List.getElem_mem hlen, fun h0 => h.null (h0 ▸ List.getElem_mem hlen)⟩

/-- While fewer than 32 processes were started, the first free entry is behind
theirs. -/
theorem Inv.freeEntry_eq {s : Sys} (h : Inv s) (t : SchedState)
    (ht : t.processTable = s.kernel.sched.processTable)
    (hlen : s.started.length < maxProcesses) : freeEntry t = some s.started.length := by
  rw [freeEntry, List.find?_range_eq_some, ht]
  refine ⟨?_, List.mem_range.mpr hlen, fun j hj => ?_⟩
  · rw [h.table _ hlen]
    simp
  · simpa using (h.entry (by omega) hj).2

/-- The struct that `k_start_process` fills in. -/
def newProcess (entry stackSize stackPtr : UInt32) (s : SchedState) : Process :=
  ⟨s.nextPid, ⟨entry, stackPtr + stackSize, stackPtr + stackSize, 0, 0, 0, 0, 0, 0, 0x202⟩, true, [], 1⟩

section

variable {s : Sys} {entry stackSize procPtr stackPtr : UInt32}

/-- The scheduler before the new process is entered. -/
def prepared (entry stackSize procPtr stackPtr : UInt32) (s : SchedState) : SchedState :=
  (SchedState.setProc { s with nextPid := s.nextPid + 1 } procPtr
    ⟨s.nextPid, ⟨0, 0, 0, 0, 0, 0, 0, 0, 0, 0⟩, true, [], 1⟩).setProc procPtr
      (newProcess entry stackSize stackPtr s)

theorem kStartProcess_eq (s : SchedState) (h0 : procPtr ≠ 0) (hstack : stackPtr ≠ 0) :
    (kStartProcess entry stackSize procPtr stackPtr s).2 =
      schedulerAddProcess (prepared entry stackSize procPtr stackPtr s) procPtr := by
  rw [kStartProcess, if_neg h0]
  simp only [if_neg hstack]
  rfl

theorem prepared_count (s : SchedState) :
    (prepared entry stackSize procPtr stackPtr s).processCount = s.processCount := rfl

theorem prepared_self (s : SchedState) :
    (prepared entry stackSize procPtr stackPtr s).procs procPtr =
      newProcess entry stackSize stackPtr s := by
  simp [prepared, SchedState.setProc]

theorem prepared_other (s : SchedState) {p : UInt32} (hp : p ≠ procPtr) :
    (prepared entry stackSize procPtr stackPtr s).procs p = s.procs p := by
  simp [prepared, SchedState.setProc, hp]

/-- **Starting with a free place**: the process is behind those started before. -/
theorem Inv.start_room (h : Inv s) (entry stackSize : UInt32) (h0 : procPtr ≠ 0) (hstack : stackPtr ≠ 0)
    (hlen : s.started.length < maxProcesses) :
    let t := (kStartProcess entry stackSize procPtr stackPtr s.kernel.sched).2
    t.processTable = (fun j => if j = s.started.length then procPtr
      else s.kernel.sched.processTable j) ∧
    t.processCount = s.kernel.sched.processCount + 1 ∧
    t.procs procPtr = newProcess entry stackSize stackPtr s.kernel.sched ∧
    ∀ p, p ≠ procPtr → t.procs p = s.kernel.sched.procs p := by
  have hcount : ¬ maxProcesses ≤
      (prepared entry stackSize procPtr stackPtr s.kernel.sched).processCount := by
    rw [prepared_count, h.count]
    omega
  have hfree := h.freeEntry_eq (prepared entry stackSize procPtr stackPtr s.kernel.sched) rfl hlen
  rw [kStartProcess_eq _ h0 hstack, schedulerAddProcess, if_neg hcount, hfree]
  refine ⟨rfl, rfl, ?_, fun p hp => ?_⟩
  · simp only [SchedState.setProc, prepared_self, newProcess]
    rfl
  · simp only [SchedState.setProc, if_neg hp, prepared_other _ hp]

/-- **Starting with 32 processes behind us**: the table stays as it is. -/
theorem Inv.start_full (h : Inv s) (entry stackSize : UInt32) (h0 : procPtr ≠ 0) (hstack : stackPtr ≠ 0)
    (hlen : maxProcesses ≤ s.started.length) :
    (kStartProcess entry stackSize procPtr stackPtr s.kernel.sched).2 =
      prepared entry stackSize procPtr stackPtr s.kernel.sched := by
  have hcount : maxProcesses ≤
      (prepared entry stackSize procPtr stackPtr s.kernel.sched).processCount := by
    rw [prepared_count, h.count]
    omega
  rw [kStartProcess_eq _ h0 hstack, schedulerAddProcess, if_pos hcount]

end

theorem getD_snoc {l : List UInt32} {p : UInt32} (i : Nat) :
    (l ++ [p]).getD i 0 = if i = l.length then p else l.getD i 0 := by
  simp only [List.getD_eq_getElem?_getD, List.getElem?_append]
  split
  · rw [if_neg (by omega)]
  · by_cases h : i = l.length
    · simp [h]
    · have hlen : l.length ≤ i := by omega
      have hone : ¬ i - l.length < 1 := by omega
      simp [h, hlen, hone]

theorem Inv.start {s : Sys} {procPtr stackPtr : UInt32} (h : Inv s) (entry stackSize : UInt32)
    (h0 : procPtr ≠ 0) (hstack : stackPtr ≠ 0) (hfresh : procPtr ∉ s.started)
    (events : UInt32 → QueueOwner IOEvent) :
    Inv ⟨{ s.kernel with
        sched := (kStartProcess entry stackSize procPtr stackPtr s.kernel.sched).2, events },
      s.started ++ [procPtr]⟩ := by
  have hne : ∀ p ∈ s.started, p ≠ procPtr := fun p hp he => hfresh (he ▸ hp)
  by_cases hlen : s.started.length < maxProcesses
  · obtain ⟨htable, hcount, hself, hother⟩ := h.start_room entry stackSize h0 hstack hlen
    refine ⟨fun i hi => ?_, ?_, by simp [h.null, Ne.symm h0], fun p hp => ?_, h.foreground⟩
    · rw [getD_snoc]
      simp only [htable]
      split
      · rfl
      · exact h.table i hi
    · simp only [hcount, h.count, List.length_append, List.length_singleton]
      omega
    · rcases List.mem_append.mp hp with hp | hp
      · simp only [hother p (hne p hp)]
        exact h.tickets p hp
      · obtain rfl := List.mem_singleton.mp hp
        simp only [hself, newProcess]
  · have hfull := h.start_full entry stackSize h0 hstack (Nat.not_lt.mp hlen)
    rw [hfull]
    refine ⟨fun i hi => ?_, ?_, by simp [h.null, Ne.symm h0], fun p hp => ?_, h.foreground⟩
    · rw [getD_snoc, if_neg (by omega)]
      exact h.table i hi
    · simp only [prepared_count, h.count, List.length_append, List.length_singleton]
      omega
    · rcases List.mem_append.mp hp with hp | hp
      · simp only [prepared_other _ (hne p hp)]
        exact h.tickets p hp
      · obtain rfl := List.mem_singleton.mp hp
        simp only [prepared_self, newProcess]

/-! ## Exits -/

theorem Inv.of_exit {s : Sys} {k : Kernel} (h : Inv s)
    (htable : k.sched.processTable = s.kernel.sched.processTable)
    (hcount : k.sched.processCount = s.kernel.sched.processCount)
    (htickets : ∀ p, (k.sched.procs p).tickets = (s.kernel.sched.procs p).tickets)
    (hfg : k.foregroundProc = 0) : Inv ⟨k, s.started⟩ :=
  ⟨fun i hi => (congrFun htable i).trans (h.table i hi), hcount.trans h.count, h.null,
    fun p hp => (htickets p).trans (h.tickets p hp), hfg⟩

theorem Inv.kill {s : Sys} (h : Inv s) (proc : UInt32) :
    Inv ⟨killProcess s.kernel proc, s.started⟩ := by
  unfold killProcess
  split
  · exact h
  · rename_i hvalid
    have h0 : proc ≠ 0 := fun h0 => hvalid (.inl h0)
    -- nobody has the foreground, so none is given back
    unfold schedulerRestoreForeground
    rw [if_pos ⟨h0, by rw [h.foreground]; exact h0⟩]
    refine h.of_exit rfl rfl (fun p => ?_) h.foreground
    simp only [SchedState.setProc]
    split
    · rename_i hp; rw [hp]
    · rfl

theorem lottery_count (s : SchedState) (ok : Process → Bool) :
    (lottery s ok).2.processCount = s.processCount := by
  simp only [lottery]
  split
  · rfl
  split <;> rfl

theorem Inv.exitSwitch {s : Sys} {k' : Kernel} (h : Inv s)
    (he : s.kernel.ended (schedulerExitCurrentAndSwitch s.kernel.sched fun _ => 0) = some k') :
    Inv ⟨k', s.started⟩ := by
  obtain ⟨hprocs, htable, -⟩ := lottery_spec s.kernel.sched fun p => p.alive
  have hcount := lottery_count s.kernel.sched fun p => p.alive
  simp only [schedulerExitCurrentAndSwitch] at he
  generalize lottery s.kernel.sched (fun p => p.alive) = r at *
  split at he
  · cases he
  · obtain rfl := Option.some.inj he
    exact h.of_exit htable hcount (fun p => by rw [hprocs]) h.foreground

/-- **What one step preserves.** -/
theorem Inv.next {s t : Sys} {act : Act} (h : Inv s) (hs : step s act = some t) : Inv t := by
  rw [step] at hs
  split at hs
  case isFalse => cases hs
  rename_i hallowed
  obtain ⟨k, hk, rfl⟩ := Option.map_eq_some_iff.mp hs
  cases act with
  | start entry stackSize procPtr stackPtr =>
    simp only [allowed, Bool.and_eq_true, bne_iff_ne, Bool.not_eq_true', List.contains_eq_mem,
      decide_eq_false_iff_not] at hallowed
    obtain ⟨⟨h0, hstack⟩, hfresh⟩ := hallowed
    obtain rfl := Option.some.inj hk
    simp only [if_neg h0]
    exact h.start entry stackSize h0 hstack hfresh _
  | kill proc =>
    obtain rfl := Option.some.inj hk
    simpa only [startedBy, List.append_nil] using h.kill proc
  | exit =>
    simpa only [startedBy, List.append_nil] using (h.kill s.kernel.sched.current).exitSwitch hk
  | _ => cases hallowed

/-! ## Who gets a place -/

theorem Inv.entered_iff {s t : Sys} {entry stackSize procPtr stackPtr : UInt32} (h : Inv s)
    (ht : step s (.start entry stackSize procPtr stackPtr) = some t) :
    Entered t.kernel.sched procPtr ↔ s.started.length < maxProcesses := by
  rw [step] at ht
  split at ht
  case isFalse => cases ht
  rename_i hallowed
  simp only [allowed, Bool.and_eq_true, bne_iff_ne, Bool.not_eq_true', List.contains_eq_mem,
    decide_eq_false_iff_not] at hallowed
  obtain ⟨⟨h0, hstack⟩, hfresh⟩ := hallowed
  obtain ⟨k, hk, rfl⟩ := Option.map_eq_some_iff.mp ht
  obtain rfl := Option.some.inj hk
  simp only [if_neg h0]
  have hafter := h.start entry stackSize h0 hstack hfresh
    (Function.update s.kernel.events procPtr startedProcess)
  constructor
  · rintro ⟨⟨i, hi, htable⟩, -⟩
    by_contra hlen
    rw [h.start_full entry stackSize h0 hstack (Nat.not_lt.mp hlen)] at htable
    have hentry := h.entry hi (by omega)
    exact hfresh (htable ▸ hentry.1)
  · intro hlen
    obtain ⟨htable, hcount, hself, -⟩ := h.start_room entry stackSize h0 hstack hlen
    generalize (kStartProcess entry stackSize procPtr stackPtr s.kernel.sched).2 = u at *
    have hplace : u.processTable s.started.length = procPtr := by rw [htable]; simp
    refine ⟨⟨s.started.length, hlen, hplace⟩, ?_⟩
    have hone : OneTicket u := by
      intro i hi hne
      have hlen' : i < (s.started ++ [procPtr]).length := by
        by_contra hge
        refine hne ((hafter.table i hi).trans ?_)
        rw [List.getD_eq_getElem?_getD, List.getElem?_eq_none (Nat.not_lt.mp hge)]
        rfl
      exact hafter.tickets _ (hafter.entry hi hlen').1
    have hpart : takesPart u runnable s.started.length = true := by
      simp only [takesPart, hplace, hself]
      simp [h0, runnable, newProcess]
    obtain ⟨x, hx, hnext⟩ := next_reaches (by rw [hcount]; omega) hone hlen hpart
    exact ⟨x, hx, hnext.trans hplace⟩

/-- **A new process gets a place exactly while fewer than 32 were ever started.**
In every state of every run: that fewer than 32 processes live is enough for
the next start to enter the table only if fewer than 32 were started so far. -/
theorem start_enters_iff (devices : List PciDevice) (acts : List Act) (s t : Sys)
    (hs : s ∈ visited step acts (booted devices)) (entry stackSize procPtr stackPtr : UInt32)
    (ht : step s (.start entry stackSize procPtr stackPtr) = some t) :
    (liveCount s < maxProcesses → Entered t.kernel.sched procPtr) ↔
      (s.started.length < maxProcesses ∨ maxProcesses ≤ liveCount s) := by
  have hi : Inv s := inv_visited_all (fun _ _ _ h hs => h.next hs) acts (inv_booted devices) s hs
  rw [hi.entered_iff ht]
  omega

/-- Two starts and an exit. -/
def startedTwice : List Act :=
  [.start 0x400000 4096 0x1000 0x8000, .start 0x400000 4096 0x2000 0x10000, .kill 0x1000]

/-- After two starts and the exit of the first process a third one gets a place. -/
theorem start_enters_iff_third : ∃ s ∈ visited step startedTwice (booted []), liveCount s = 1 ∧
    ∃ t, step s (.start 0x400000 4096 0x3000 0x18000) = some t ∧
      Entered t.kernel.sched 0x3000 := by
  have hrun : (startedTwice.foldlM step (booted [])).any (fun s => liveCount s == 1 &&
      s.started.length == 2 && (step s (.start 0x400000 4096 0x3000 0x18000)).isSome) = true := by decide +kernel
  obtain ⟨s, hs, hstates⟩ := (Option.any_eq_true _ _).mp hrun
  simp only [Bool.and_eq_true, beq_iff_eq] at hstates
  obtain ⟨⟨hlive, hstarted⟩, hsome⟩ := hstates
  obtain ⟨t, ht⟩ := Option.isSome_iff_exists.mp hsome
  have hmem := mem_visited_of_foldlM hs
  have h := start_enters_iff [] startedTwice s t hmem _ _ _ _ ht
  rw [hlive, hstarted] at h
  exact ⟨s, hmem, hlive, t, ht, h.mpr (.inl (by decide)) (by decide)⟩

/-- 32 processes are started and all but the last killed; the next one is not
entered. -/
theorem thirty_third_process_has_no_place :
    ¬ ∀ devices acts s t, s ∈ visited step acts (booted devices) →
      ∀ entry stackSize procPtr stackPtr, step s (.start entry stackSize procPtr stackPtr) = some t →
        liveCount s < maxProcesses → Entered t.kernel.sched procPtr := by
  intro hall
  let ptr (i : Nat) : UInt32 := 0x1000 * UInt32.ofNat (i + 1)
  let acts : List Act := (List.range 32).map (fun i => Act.start 0x400000 4096 (ptr i) 0x800000) ++
    (List.range 31).map fun i => Act.kill (ptr i)
  have hrun : (acts.foldlM step (booted [])).map (fun s => (liveCount s,
      (step s (.start 0x400000 4096 0x100000 0x800000)).map fun t =>
        (List.range maxProcesses).any fun i => t.kernel.sched.processTable i == 0x100000)) =
      some (1, some false) := by decide +kernel
  obtain ⟨s, hs, hres⟩ := Option.map_eq_some_iff.mp hrun
  obtain ⟨hlive, hstep⟩ := Prod.mk.inj hres
  obtain ⟨t, ht, hnone⟩ := Option.map_eq_some_iff.mp hstep
  obtain ⟨⟨i, hi, hplace⟩, -⟩ := hall _ _ s t (mem_visited_of_foldlM hs) _ _ _ _ ht
    (by rw [hlive]; decide)
  rw [List.any_eq_false] at hnone
  exact hnone i (List.mem_range.mpr hi) (by simp [hplace])

end ContinuumOS.Sched.Slots
