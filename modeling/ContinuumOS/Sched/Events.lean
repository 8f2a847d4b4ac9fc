import ContinuumOS.Lib.Ring

/-! # The event queue of a process

`push_io_event` and `pop_io_event` of `src/kernel/process.cpp` with the check
they start with. The queue is a ring of 128 events with a head, a tail and a
count, which are redundant; the check repairs them when they disagree. On a
queue that was only pushed to and popped from they never do, and the queue is a
first-in first-out queue that drops its oldest event when it is full. -/
namespace ContinuumOS.Sched.Events
open ContinuumOS.Lib.Ring

/-- `MAX_EVENT_QUEUE_SIZE` -/
def maxEventQueueSize : Nat := 128

/-- `PROCESS_MAGIC` -/
def processMagic : UInt32 := 0x50524F43

/-- `EVENT_QUEUE_GUARD` -/
def eventQueueGuard : UInt32 := 0xE17E17E1

/-- `EventQueue`; of `queue` the first 128 cells count. -/
structure EventQueue (α : Type) where
  guardFront : UInt32
  queue : Nat → α
  head : Int
  tail : Int
  count : Int
  guardBack : UInt32

/-- The fields of `Process` that the queue functions use. -/
structure QueueOwner (α : Type) where
  magic : UInt32
  ioEvents : EventQueue α

variable {α : Type}

/-- The queue that `k_start_process` sets up and `reset_event_queue` goes back
to; `default` is `IOEvent{}`. -/
def emptyEventQueue [Inhabited α] : EventQueue α :=
  ⟨eventQueueGuard, fun _ => default, 0, 0, 0, eventQueueGuard⟩

/-- A process as `k_start_process` creates it. -/
def startedProcess [Inhabited α] : QueueOwner α := ⟨processMagic, emptyEventQueue⟩

def normalizeIndex (value : Int) : Int :=
  if value < 0 then (maxEventQueueSize - -value % maxEventQueueSize) % maxEventQueueSize
  else value % maxEventQueueSize

/-- An index in range, and whether it had to be changed. -/
def checkIndex (value : Int) : Int × Bool :=
  if value < 0 ∨ value ≥ maxEventQueueSize then (normalizeIndex value, true) else (value, false)

/-- A count in range. -/
def checkCount (count : Int) : Int × Bool :=
  if count < 0 ∨ count > maxEventQueueSize then (0, true) else (count, false)

/-- How far the head is ahead of the tail. -/
def distanceOf (head tail : Int) : Int :=
  if head - tail < 0 then head - tail + maxEventQueueSize else head - tail

/-- A count that fits the distance. -/
def checkMismatch (count distance : Int) : Int × Bool :=
  if count ≠ distance ∧ count ≠ maxEventQueueSize then (distance, true) else (count, false)

/-- A full queue has its head at its tail. -/
def checkFull (count distance : Int) : Int × Bool :=
  if count = maxEventQueueSize ∧ distance ≠ 0 then (distance, true) else (count, false)

/-- The counters of a queue as the check wants them, and whether one of them
was changed (`adjusted`). -/
def checkCounters (queue : EventQueue α) : (Int × Int × Int) × Bool :=
  let (head, a₁) := checkIndex queue.head
  let (tail, a₂) := checkIndex queue.tail
  let (count, a₃) := checkCount queue.count
  let distance := distanceOf head tail
  let (count, a₄) := checkMismatch count distance
  let (count, a₅) := checkFull count distance
  ((head, tail, count), a₁ || a₂ || a₃ || a₄ || a₅)

/-- The flag says whether the queue can be used. -/
def ensureEventQueueIntegrity [Inhabited α] (proc : QueueOwner α) : Bool × QueueOwner α :=
  if proc.magic ≠ processMagic then (false, proc)
  else
    let queue := proc.ioEvents
    if queue.guardFront ≠ eventQueueGuard ∨ queue.guardBack ≠ eventQueueGuard then
      (true, { proc with ioEvents := emptyEventQueue })
    else
      let ((head, tail, count), adjusted) := checkCounters queue
      let queue := if adjusted then { queue with head := head, tail := tail, count := count }
        else queue
      (true, { proc with ioEvents :=
        { queue with guardFront := eventQueueGuard, guardBack := eventQueueGuard } })

/-- The tail moves on; both functions do it in these words. -/
def EventQueue.dropOldest (queue : EventQueue α) : EventQueue α :=
  { queue with
    tail := (queue.tail + 1) % maxEventQueueSize
    count := if queue.count > 0 then queue.count - 1 else queue.count }

/-- The event goes to the head. -/
def EventQueue.store (queue : EventQueue α) (event : α) : EventQueue α :=
  { queue with
    queue := Function.update queue.queue queue.head.toNat event
    head := (queue.head + 1) % maxEventQueueSize
    count := if queue.count < maxEventQueueSize then queue.count + 1 else queue.count }

/-- Interrupts are off meanwhile. -/
def pushIoEvent [Inhabited α] (proc : QueueOwner α) (event : α) : QueueOwner α :=
  let (ok, proc) := ensureEventQueueIntegrity proc
  if ¬ ok then proc
  else
    let queue := proc.ioEvents
    let queue := if queue.count = maxEventQueueSize then queue.dropOldest else queue
    { proc with ioEvents := queue.store event }

/-- The event, `none` when 0 is returned. -/
def popIoEvent [Inhabited α] (proc : QueueOwner α) : Option α × QueueOwner α :=
  let (ok, proc) := ensureEventQueueIntegrity proc
  if ¬ ok then (none, proc)
  else
    let queue := proc.ioEvents
    if queue.count = 0 then (none, proc)
    else
      (some (queue.queue queue.tail.toNat), { proc with ioEvents := queue.dropOldest })

/-! ## The queue is a list of events -/

/-- The queue is sound and holds `q`, oldest first. -/
structure HoldsEvents (proc : QueueOwner α) (q : List α) : Prop where
  magic : proc.magic = processMagic
  front : proc.ioEvents.guardFront = eventQueueGuard
  back : proc.ioEvents.guardBack = eventQueueGuard
  counters : ∃ tail count : Nat, tail < maxEventQueueSize ∧ count ≤ maxEventQueueSize ∧
    proc.ioEvents.tail = tail ∧ proc.ioEvents.count = count ∧
    proc.ioEvents.head = ((tail + count) % maxEventQueueSize : Nat) ∧
    contents maxEventQueueSize proc.ioEvents.queue tail count = q

section

variable {proc : QueueOwner α} {q : List α}

theorem holdsEvents_started [Inhabited α] : HoldsEvents (startedProcess : QueueOwner α) [] :=
  ⟨rfl, rfl, rfl, 0, 0, by decide, by decide, rfl, rfl, rfl, rfl⟩

theorem checkIndex_of_lt {n : Nat} (h : n < maxEventQueueSize) : checkIndex n = ((n : Int), false) :=
  if_neg (by omega)

/-- The head of a sound queue is its count ahead of its tail, and at its tail
when it is full. -/
theorem distanceOf_counters {tail count : Nat} (ht : tail < maxEventQueueSize)
    (hc : count ≤ maxEventQueueSize) :
    distanceOf ((tail + count) % maxEventQueueSize : Nat) tail =
      if count = maxEventQueueSize then 0 else (count : Int) := by
  have hsize : maxEventQueueSize = 128 := rfl
  rw [hsize] at ht hc ⊢
  obtain ⟨head, hhead⟩ : ∃ head, head = (tail + count) % 128 := ⟨_, rfl⟩
  have hwrap : head = tail + count ∧ tail + count < 128 ∨ head + 128 = tail + count := by
    omega
  rw [← hhead]
  unfold distanceOf
  split <;> split <;> omega

theorem HoldsEvents.checkCounters (h : HoldsEvents proc q) : checkCounters proc.ioEvents =
    ((proc.ioEvents.head, proc.ioEvents.tail, proc.ioEvents.count), false) := by
  obtain ⟨-, -, -, tail, count, ht, hc, htail, hcount, hhead, -⟩ := h
  have h₁ := checkIndex_of_lt (Nat.mod_lt (tail + count) (show 0 < maxEventQueueSize by decide))
  have h₂ := checkIndex_of_lt ht
  have h₃ : checkCount count = ((count : Int), false) := if_neg (by omega)
  have hd := distanceOf_counters ht hc
  have h₄ : checkMismatch count (if count = maxEventQueueSize then 0 else (count : Int)) =
      ((count : Int), false) := if_neg (by split <;> omega)
  have h₅ : checkFull count (if count = maxEventQueueSize then 0 else (count : Int)) =
      ((count : Int), false) := if_neg (by split <;> omega)
  rw [Events.checkCounters, htail, hcount, hhead, h₁, h₂, h₃]
  simp only [hd, h₄, h₅, Bool.or_self]

/-- With the guards in place and counters that agree the check changes nothing. -/
theorem ensure_of_checked [Inhabited α] (hm : proc.magic = processMagic)
    (hf : proc.ioEvents.guardFront = eventQueueGuard)
    (hb : proc.ioEvents.guardBack = eventQueueGuard) (hc : checkCounters proc.ioEvents =
      ((proc.ioEvents.head, proc.ioEvents.tail, proc.ioEvents.count), false)) :
    ensureEventQueueIntegrity proc = (true, proc) := by
  have hg : ¬ (proc.ioEvents.guardFront ≠ eventQueueGuard ∨
      proc.ioEvents.guardBack ≠ eventQueueGuard) := by
    rw [hf, hb]
    simp
  have hsame : { proc.ioEvents with guardFront := eventQueueGuard, guardBack := eventQueueGuard } =
      proc.ioEvents := by
    rw [EventQueue.mk.injEq]
    exact ⟨hf.symm, rfl, rfl, rfl, rfl, hb.symm⟩
  rw [ensureEventQueueIntegrity, if_neg (not_not.mpr hm)]
  simp only [if_neg hg, hc, Bool.false_eq_true, if_false, hsame]

theorem HoldsEvents.ensure [Inhabited α] (h : HoldsEvents proc q) :
    ensureEventQueueIntegrity proc = (true, proc) :=
  ensure_of_checked h.magic h.front h.back h.checkCounters

theorem HoldsEvents.dropOldest {event : α} (h : HoldsEvents proc (event :: q)) :
    HoldsEvents { proc with ioEvents := proc.ioEvents.dropOldest } q ∧
      proc.ioEvents.queue proc.ioEvents.tail.toNat = event := by
  obtain ⟨hm, hf, hb, tail, count, ht, hc, htail, hcount, hhead, hq⟩ := h
  obtain _ | count := count
  · cases hq
  rw [contents_succ ht, List.cons.injEq] at hq
  refine ⟨⟨hm, hf, hb, (tail + 1) % maxEventQueueSize, count, Nat.mod_lt _ (by decide), by omega,
    ?_, ?_, ?_, hq.2⟩, ?_⟩
  · simp [EventQueue.dropOldest, htail]
  · simp only [EventQueue.dropOldest, hcount]
    omega
  · rw [Nat.mod_add_mod, Nat.add_assoc, Nat.add_comm 1]
    exact hhead
  · rw [htail]
    exact hq.1

theorem HoldsEvents.store (h : HoldsEvents proc q) (hroom : q.length < maxEventQueueSize)
    (event : α) :
    HoldsEvents { proc with ioEvents := proc.ioEvents.store event } (q ++ [event]) := by
  obtain ⟨hm, hf, hb, tail, count, ht, hc, htail, hcount, hhead, rfl⟩ := h
  rw [length_contents] at hroom
  refine ⟨hm, hf, hb, tail, count + 1, ht, hroom, htail, ?_, ?_, ?_⟩
  · simp only [EventQueue.store, hcount]
    omega
  · rw [← Nat.add_assoc, ← Nat.mod_add_mod]
    simp [EventQueue.store, hhead]
  · simp only [EventQueue.store, hhead, Int.toNat_natCast]
    exact contents_update hroom event

theorem HoldsEvents.count_eq (h : HoldsEvents proc q) :
    proc.ioEvents.count = q.length ∧ q.length ≤ maxEventQueueSize := by
  obtain ⟨-, -, -, tail, count, -, hc, -, hcount, -, rfl⟩ := h
  rw [length_contents]
  exact ⟨hcount, hc⟩

variable [Inhabited α]

/-- **A push appends the event**, and drops the oldest of a full queue. -/
theorem HoldsEvents.push (h : HoldsEvents proc q) (event : α) :
    HoldsEvents (pushIoEvent proc event) (pushBounded maxEventQueueSize q event) := by
  obtain ⟨hlen, hle⟩ := h.count_eq
  rw [pushIoEvent, h.ensure]
  simp only [not_true_eq_false, if_false, pushBounded]
  by_cases hfull : q.length = maxEventQueueSize
  · rw [if_pos (by rw [hlen, hfull]), if_pos hfull]
    cases q with
    | nil => cases hfull
    | cons oldest rest =>
      have hrest : rest.length < maxEventQueueSize := by
        rw [List.length_cons] at hfull
        omega
      exact h.dropOldest.1.store hrest event
  · rw [if_neg (by omega), if_neg hfull]
    exact h.store (by omega) event

/-- **A pop takes the oldest event**, when there is one. -/
theorem HoldsEvents.pop (h : HoldsEvents proc q) :
    (popIoEvent proc).1 = q.head? ∧ HoldsEvents (popIoEvent proc).2 q.tail := by
  obtain ⟨hlen, -⟩ := h.count_eq
  rw [popIoEvent, h.ensure]
  simp only [not_true_eq_false, if_false]
  cases q with
  | nil =>
    rw [if_pos (by simpa using hlen)]
    exact ⟨rfl, h⟩
  | cons oldest rest =>
    rw [List.length_cons] at hlen
    rw [if_neg (by omega)]
    exact ⟨congrArg some h.dropOldest.2, h.dropOldest.1⟩

end

/-! ## Runs -/

/-- A call on the queue of a process. -/
inductive QueueOp (α : Type)
  | push (event : α)
  | pop

/-- What the pops answer, and the process afterwards. -/
def runQueue [Inhabited α] : List (QueueOp α) → QueueOwner α → List (Option α) × QueueOwner α
  | [], proc => ([], proc)
  | .push event :: ops, proc => runQueue ops (pushIoEvent proc event)
  | .pop :: ops, proc =>
    let (answer, proc) := popIoEvent proc
    let (answers, proc) := runQueue ops proc
    (answer :: answers, proc)

/-- The same calls on a first-in first-out queue of at most 128 events that
makes room by dropping the oldest one. -/
def runFifo : List (QueueOp α) → List α → List (Option α) × List α
  | [], q => ([], q)
  | .push event :: ops, q => runFifo ops (pushBounded maxEventQueueSize q event)
  | .pop :: ops, q =>
    let (answers, rest) := runFifo ops q.tail
    (q.head? :: answers, rest)

theorem HoldsEvents.run [Inhabited α] {proc : QueueOwner α} {q : List α} (h : HoldsEvents proc q)
    (ops : List (QueueOp α)) : (runQueue ops proc).1 = (runFifo ops q).1 ∧
      HoldsEvents (runQueue ops proc).2 (runFifo ops q).2 := by
  induction ops generalizing proc q with
  | nil => exact ⟨rfl, h⟩
  | cons op ops ih =>
    cases op with
    | push event => exact ih (h.push event)
    | pop =>
      obtain ⟨hanswers, hrest⟩ := ih h.pop.2
      exact ⟨congrArg₂ List.cons h.pop.1 hanswers, hrest⟩

/-- **The event queue is a bounded first-in first-out queue.** Whatever was
pushed and popped since the process was started, the pops answer as the list
does, and in the state reached the check before each call finds the guards in
place, adjusts no counter and leaves the process as it is. -/
theorem event_queue_refines_fifo [Inhabited α] (ops : List (QueueOp α)) :
    let (answers, proc) := runQueue ops startedProcess
    answers = (runFifo ops []).1 ∧ proc.magic = processMagic ∧
      proc.ioEvents.guardFront = eventQueueGuard ∧ proc.ioEvents.guardBack = eventQueueGuard ∧
      (checkCounters proc.ioEvents).2 = false ∧ ensureEventQueueIntegrity proc = (true, proc) := by
  obtain ⟨hanswers, hheld⟩ := holdsEvents_started.run ops
  exact ⟨hanswers, hheld.magic, hheld.front, hheld.back, congrArg Prod.snd hheld.checkCounters, hheld.ensure⟩

end ContinuumOS.Sched.Events
