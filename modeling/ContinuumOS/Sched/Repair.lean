import Mathlib.Algebra.Group.Int.Defs
import ContinuumOS.Sched.Events

/-! # The check of the event queue repairs any corruption

Whatever the three counters and the two guards hold, the check leaves a queue
whose counters agree, and it does not touch a queue that is in order. -/
namespace ContinuumOS.Sched.Repair
open ContinuumOS.Sched.Events

/-- `normalize_index` on 32-bit integers: `-value` wraps at the smallest one, and
`%` is rounded towards 0. -/
def normalizeIndex32 (value : Int32) : Int32 :=
  if value < 0 then (128 - -value % 128) % 128 else value % 128

/-- The guards are in place, the indices are in range, and the count is the
distance from the tail to the head, or that of a full queue. -/
structure Valid {α : Type} (queue : EventQueue α) : Prop where
  front : queue.guardFront = eventQueueGuard
  back : queue.guardBack = eventQueueGuard
  head : 0 ≤ queue.head ∧ queue.head < maxEventQueueSize
  tail : 0 ≤ queue.tail ∧ queue.tail < maxEventQueueSize
  count : queue.count = (queue.head - queue.tail) % maxEventQueueSize ∨
    queue.count = maxEventQueueSize ∧ queue.head = queue.tail

/-- Under intact guards an index in range is where it was. -/
structure Unmoved {α : Type} (queue queue' : EventQueue α) : Prop where
  head : 0 ≤ queue.head → queue.head < maxEventQueueSize → queue'.head = queue.head
  tail : 0 ≤ queue.tail → queue.tail < maxEventQueueSize → queue'.tail = queue.tail

variable {α : Type}

theorem size_eq : (maxEventQueueSize : Int) = 128 := rfl

/-! ## The single repairs -/

theorem normalizeIndex_range (value : Int) :
    0 ≤ normalizeIndex value ∧ normalizeIndex value < maxEventQueueSize := by
  rw [normalizeIndex, size_eq]
  split <;> omega

/-- On 32-bit integers the wrapped negation makes no difference: 128 divides the
smallest one. -/
theorem toInt_normalizeIndex32 (value : Int32) :
    (normalizeIndex32 value).toInt = normalizeIndex value.toInt := by
  have hlo := value.le_toInt
  have hhi := value.toInt_lt
  have h128 : (128 : Int32).toInt = 128 := rfl
  have h0 : (0 : Int32).toInt = 0 := rfl
  simp only [normalizeIndex32, normalizeIndex, Int32.lt_iff_toInt_lt, h0, size_eq]
  generalize hv : value.toInt = v at *
  split
  · have hneg : ((-v).bmod (2 ^ 32)).tmod 128 = -v % 128 := by
      by_cases hmin : v = -2 ^ 31
      · rw [hmin]
        decide
      · rw [Int.bmod_eq_of_le (by omega) (by omega), Int.tmod_eq_emod_of_nonneg (by omega)]
    rw [Int32.toInt_mod, Int32.toInt_sub, Int32.toInt_mod, Int32.toInt_neg, h128, hv, hneg,
      Int.bmod_eq_of_le (by omega) (by omega), Int.tmod_eq_emod_of_nonneg (by omega)]
  · rw [Int32.toInt_mod, h128, hv]
    exact Int.tmod_eq_emod_of_nonneg (by omega)

theorem checkIndex_range (value : Int) :
    0 ≤ (checkIndex value).1 ∧ (checkIndex value).1 < maxEventQueueSize := by
  rw [checkIndex]
  split
  · exact normalizeIndex_range value
  · simp only
    omega

theorem checkIndex_of_range {value : Int} (h₁ : 0 ≤ value) (h₂ : value < maxEventQueueSize) :
    checkIndex value = (value, false) := if_neg (by omega)

theorem distanceOf_eq {head tail : Int} (hh : 0 ≤ head ∧ head < maxEventQueueSize)
    (ht : 0 ≤ tail ∧ tail < maxEventQueueSize) :
    distanceOf head tail = (head - tail) % maxEventQueueSize := by
  rw [size_eq] at *
  rw [distanceOf, size_eq]
  split <;> omega

/-- The count after its three repairs. -/
def repairedCount (count distance : Int) : Int :=
  (checkFull (checkMismatch (checkCount count).1 distance).1 distance).1

theorem checkMismatch_cases (count distance : Int) :
    (checkMismatch count distance).1 = distance ∨
      (checkMismatch count distance).1 = maxEventQueueSize := by
  rw [checkMismatch]
  split
  · exact .inl rfl
  · simp only
    omega

theorem repairedCount_cases (count distance : Int) : repairedCount count distance = distance ∨
    repairedCount count distance = maxEventQueueSize ∧ distance = 0 := by
  have hc := checkMismatch_cases (checkCount count).1 distance
  rw [repairedCount]
  generalize (checkMismatch (checkCount count).1 distance).1 = c at *
  rw [checkFull]
  split
  · exact .inl rfl
  · simp only
    omega

/-! ## All of them -/

theorem kept_of_flag {p : Prop} [Decidable p] {x value : Int}
    (h : (if p then (x, true) else (value, false)).2 = false) :
    (if p then (x, true) else (value, false)).1 = value := by
  split at h
  · cases h
  · rename_i hp
    rw [if_neg hp]

theorem checkCounters_kept {queue : EventQueue α} (h : (checkCounters queue).2 = false) :
    (checkCounters queue).1 = (queue.head, queue.tail, queue.count) := by
  simp only [checkCounters, Bool.or_eq_false_iff] at h ⊢
  obtain ⟨⟨⟨⟨hhead, htail⟩, hcount⟩, hmismatch⟩, hfull⟩ := h
  refine Prod.ext (kept_of_flag hhead) (Prod.ext (kept_of_flag htail) ?_)
  exact (kept_of_flag hfull).trans ((kept_of_flag hmismatch).trans (kept_of_flag hcount))

theorem checkCounters_fst (queue : EventQueue α) : (checkCounters queue).1 =
    ((checkIndex queue.head).1, (checkIndex queue.tail).1,
      repairedCount queue.count
        (distanceOf (checkIndex queue.head).1 (checkIndex queue.tail).1)) := rfl

theorem Valid.checkCounters {queue : EventQueue α} (h : Valid queue) :
    checkCounters queue = ((queue.head, queue.tail, queue.count), false) := by
  have hd := distanceOf_eq h.head h.tail
  have hcount := h.count
  have hrange := Int.emod_nonneg (queue.head - queue.tail) (show (maxEventQueueSize : Int) ≠ 0 by decide)
  have hlt := Int.emod_lt_of_pos (queue.head - queue.tail) (show (0 : Int) < maxEventQueueSize by decide)
  have hzero : queue.head = queue.tail → (queue.head - queue.tail) % maxEventQueueSize = 0 :=
    fun he => by rw [he, Int.sub_self, Int.zero_emod]
  have h₁ : checkCount queue.count = (queue.count, false) := if_neg (by omega)
  have h₂ : checkMismatch queue.count (distanceOf queue.head queue.tail) = (queue.count, false) :=
    if_neg (by omega)
  have h₃ : checkFull queue.count (distanceOf queue.head queue.tail) = (queue.count, false) :=
    if_neg (by omega)
  rw [Events.checkCounters, checkIndex_of_range h.head.1 h.head.2,
    checkIndex_of_range h.tail.1 h.tail.2, h₁]
  simp only [h₂, h₃, Bool.or_self]

section

variable [Inhabited α] {proc : QueueOwner α}

theorem valid_emptyEventQueue : Valid (emptyEventQueue : EventQueue α) :=
  have hrange : (0 : Int) ≤ 0 ∧ (0 : Int) < maxEventQueueSize := by decide
  ⟨rfl, rfl, hrange, hrange, .inl rfl⟩

theorem ensure_of_valid (hm : proc.magic = processMagic) (h : Valid proc.ioEvents) :
    ensureEventQueueIntegrity proc = (true, proc) :=
  ensure_of_checked hm h.front h.back h.checkCounters

theorem ensure_damaged (hm : proc.magic = processMagic)
    (hg : proc.ioEvents.guardFront ≠ eventQueueGuard ∨
      proc.ioEvents.guardBack ≠ eventQueueGuard) :
    ensureEventQueueIntegrity proc = (true, { proc with ioEvents := emptyEventQueue }) := by
  rw [ensureEventQueueIntegrity, if_neg (not_not.mpr hm)]
  exact if_pos hg

/-- Guards in place: the counters are repaired, whether or not one was adjusted. -/
theorem ensure_guarded (hm : proc.magic = processMagic)
    (hf : proc.ioEvents.guardFront = eventQueueGuard)
    (hb : proc.ioEvents.guardBack = eventQueueGuard) :
    ∃ q, ensureEventQueueIntegrity proc = (true, { proc with ioEvents := q }) ∧
      q.guardFront = eventQueueGuard ∧ q.guardBack = eventQueueGuard ∧
      (q.head, q.tail, q.count) = (checkCounters proc.ioEvents).1 := by
  have hg : ¬ (proc.ioEvents.guardFront ≠ eventQueueGuard ∨
      proc.ioEvents.guardBack ≠ eventQueueGuard) := by
    rw [hf, hb]
    simp
  rw [ensureEventQueueIntegrity, if_neg (not_not.mpr hm)]
  simp only [if_neg hg]
  refine ⟨_, rfl, rfl, rfl, ?_⟩
  split
  · rfl
  · rename_i hadj
    exact (checkCounters_kept (Bool.eq_false_iff.mpr hadj)).symm

theorem ensure_valid (hm : proc.magic = processMagic) :
    (ensureEventQueueIntegrity proc).1 = true ∧
      (ensureEventQueueIntegrity proc).2.magic = processMagic ∧
      Valid (ensureEventQueueIntegrity proc).2.ioEvents := by
  by_cases hg : proc.ioEvents.guardFront ≠ eventQueueGuard ∨
      proc.ioEvents.guardBack ≠ eventQueueGuard
  · rw [ensure_damaged hm hg]
    exact ⟨rfl, hm, valid_emptyEventQueue⟩
  obtain ⟨hf, hb⟩ := not_or.mp hg
  obtain ⟨q, hq, hqf, hqb, hcounters⟩ := ensure_guarded hm (not_not.mp hf) (not_not.mp hb)
  rw [checkCounters_fst] at hcounters
  obtain ⟨hhead, hrest⟩ := Prod.mk.inj hcounters
  obtain ⟨htail, hcount⟩ := Prod.mk.inj hrest
  have hh := checkIndex_range proc.ioEvents.head
  have ht := checkIndex_range proc.ioEvents.tail
  rw [← hhead] at hh
  rw [← htail] at ht
  have hd := distanceOf_eq hh ht
  rw [← hhead, ← htail, hd] at hcount
  rw [hq]
  refine ⟨rfl, hm, hqf, hqb, hh, ht, ?_⟩
  obtain hc | ⟨hc, hzero⟩ := repairedCount_cases proc.ioEvents.count
    ((q.head - q.tail) % maxEventQueueSize)
  · exact .inl (hcount.trans hc)
  · refine .inr ⟨hcount.trans hc, ?_⟩
    change q.head = q.tail
    rw [size_eq] at *
    omega

theorem ensure_unmoved (hm : proc.magic = processMagic)
    (hf : proc.ioEvents.guardFront = eventQueueGuard)
    (hb : proc.ioEvents.guardBack = eventQueueGuard) :
    Unmoved proc.ioEvents (ensureEventQueueIntegrity proc).2.ioEvents := by
  obtain ⟨q, hq, -, -, hcounters⟩ := ensure_guarded hm hf hb
  rw [checkCounters_fst] at hcounters
  obtain ⟨hhead, hrest⟩ := Prod.mk.inj hcounters
  rw [hq]
  refine ⟨fun h₁ h₂ => hhead.trans ?_, fun h₁ h₂ => (Prod.mk.inj hrest).1.trans ?_⟩
  · rw [checkIndex_of_range h₁ h₂]
  · rw [checkIndex_of_range h₁ h₂]

/-- **The check repairs any corruption.** For every process with its magic and
any values of the counters and guards: the queue is in order afterwards, one
that was in order is unchanged, indices in range under intact guards are not
moved, and a second check does nothing. -/
theorem queue_repaired (proc : QueueOwner α) (hm : proc.magic = processMagic) :
    (∀ value, (normalizeIndex32 value).toInt = normalizeIndex value.toInt) ∧
    (ensureEventQueueIntegrity proc).1 = true ∧
    Valid (ensureEventQueueIntegrity proc).2.ioEvents ∧
    (Valid proc.ioEvents → ensureEventQueueIntegrity proc = (true, proc)) ∧
    (proc.ioEvents.guardFront = eventQueueGuard → proc.ioEvents.guardBack = eventQueueGuard →
      Unmoved proc.ioEvents (ensureEventQueueIntegrity proc).2.ioEvents) ∧
    ensureEventQueueIntegrity (ensureEventQueueIntegrity proc).2 =
      ensureEventQueueIntegrity proc := by
  obtain ⟨hok, hmagic, hvalid⟩ := ensure_valid hm
  refine ⟨toInt_normalizeIndex32, hok, hvalid, ensure_of_valid hm, ensure_unmoved hm, ?_⟩
  rw [ensure_of_valid hmagic hvalid, ← hok]

/-- A queue whose head is the smallest 32-bit integer and whose count says that
it is full. -/
theorem queue_repaired_smallest_head :
    let proc : QueueOwner UInt32 :=
      ⟨processMagic, eventQueueGuard, fun _ => 0, -2 ^ 31, 5, 128, eventQueueGuard⟩
    (ensureEventQueueIntegrity proc).1 = true ∧
      Valid (ensureEventQueueIntegrity proc).2.ioEvents ∧
      (ensureEventQueueIntegrity proc).2.ioEvents.count = 123 :=
  have h := queue_repaired (⟨processMagic, eventQueueGuard, fun _ => 0, -2 ^ 31, 5, 128,
    eventQueueGuard⟩ : QueueOwner UInt32) rfl
  ⟨h.2.1, h.2.2.1, by decide⟩

end

end ContinuumOS.Sched.Repair
