import ContinuumOS.Lib.Shift
import ContinuumOS.Sched.Wakeups

/-! # The hooks of a process

`src/kernel/process.cpp` keeps the hooks of a process in an array with a counter,
and removes one by moving those behind it down; `src/kernel/scheduler.cpp` does
that until no hook of the event is left, for every process of the table. The list
of the other modules is the front of this array. -/
namespace ContinuumOS.Sched.Hooks
open ContinuumOS.Lib.Shift ContinuumOS.Sched.Scheduler
open ContinuumOS.Sched.RoundTrip (InTable)

/-- A place of the array that was never written. -/
def noHook : Hook := ⟨.timeReached, 0⟩

/-- `hooks` and `hook_count` of a process. -/
structure HookArray where
  hooks : List Hook
  hookCount : Nat
  size : hooks.length = maxHooksPerProcess

namespace HookArray

/-- The hooks that count. -/
def list (a : HookArray) : List Hook := a.hooks.take a.hookCount

/-- The first place with a hook of the event. -/
def findHook (a : HookArray) (type : HookType) (value : UInt64) : Option Nat :=
  (List.range a.hookCount).find? fun i => (a.hooks.getD i noHook).matches type value

def processHasMatchingHook (a : HookArray) (type : HookType) (value : UInt64) : Bool :=
  (a.findHook type value).isSome

/-- `none` when there is no room. -/
def processRegisterHook (a : HookArray) (type : HookType) (value : UInt64) : Option HookArray :=
  if maxHooksPerProcess ≤ a.hookCount then none
  else some {
    hooks := a.hooks.set a.hookCount ⟨type, value⟩
    hookCount := a.hookCount + 1
    size := by rw [List.length_set, a.size] }

/-- `none` when there is no such hook. -/
def processRemoveHook (a : HookArray) (type : HookType) (value : UInt64) : Option HookArray :=
  (a.findHook type value).map fun i => {
    hooks := shiftDown noHook a.hooks i (a.hookCount - 1)
    hookCount := a.hookCount - 1
    size := by rw [length_shiftDown, a.size] }

/-- `while (process_remove_hook(..) == 0)`; `none` when `fuel` does not suffice. -/
def removeWhile (type : HookType) (value : UInt64) : Nat → HookArray → Option HookArray
  | 0, _ => none
  | fuel + 1, a =>
    match a.processRemoveHook type value with
    | some a' => removeWhile type value fuel a'
    | none => some a

end HookArray

/-- The processes, and the table of those that are scheduled. -/
structure Procs where
  alive : UInt32 → Bool
  hooks : UInt32 → HookArray
  processTable : Nat → UInt32

/-- The hooks of one process replaced. -/
def Procs.setHooks (st : Procs) (ptr : UInt32) (a : HookArray) : Procs :=
  { st with hooks := Function.update st.hooks ptr a }

def processYieldForEvent (st : Procs) (ptr : UInt32) (type : HookType) (value : UInt64) : Procs :=
  if ptr = 0 then st
  else if (st.hooks ptr).processHasMatchingHook type value then st
  else st.setHooks ptr (((st.hooks ptr).processRegisterHook type value).getD (st.hooks ptr))

/-- Entry `i` of the table. -/
def resumeEntry (type : HookType) (value : UInt64) (fuel : Nat) (st : Procs) (i : Nat) :
    Option Procs :=
  let ptr := st.processTable i
  if ptr ≠ 0 ∧ (st.hooks ptr).processHasMatchingHook type value = true then
    ((st.hooks ptr).removeWhile type value fuel).map (st.setHooks ptr)
  else some st

def schedulerResumeProcessesForEvent (fuel : Nat) (st : Procs) (type : HookType) (value : UInt64) :
    Option Procs :=
  (List.range maxProcesses).foldlM (resumeEntry type value fuel) st

/-- The function ends in `st'`: a loop with enough rounds gives it. -/
def ResumesTo (st : Procs) (type : HookType) (value : UInt64) (st' : Procs) : Prop :=
  ∃ rounds, ∀ fuel, rounds < fuel →
    schedulerResumeProcessesForEvent fuel st type value = some st'

/-- It takes part in the lottery. -/
def Runnable (st : Procs) (ptr : UInt32) : Prop :=
  st.alive ptr = true ∧ (st.hooks ptr).hookCount = 0

/-- Any order of waits and events. A process is started without hooks, and may be in
the table or not. -/
inductive Reachable : Procs → Prop
  | fresh {st : Procs} (h : ∀ ptr, (st.hooks ptr).hookCount = 0) : Reachable st
  | yield {st : Procs} (h : Reachable st) (ptr : UInt32) (type : HookType) (value : UInt64) :
      Reachable (processYieldForEvent st ptr type value)
  | resume {st st' : Procs} (h : Reachable st) {type : HookType} {value : UInt64}
      (hr : ResumesTo st type value st') : Reachable st'
  | start {st : Procs} (h : Reachable st) (ptr : UInt32) (a : HookArray) (ha : a.hookCount = 0)
      (processTable : Nat → UInt32) (alive : UInt32 → Bool) :
      Reachable { st.setHooks ptr a with processTable, alive }

/-- A process has at most as many hooks as it has places, and none twice. -/
structure Kept (st : Procs) : Prop where
  room : ∀ ptr, (st.hooks ptr).hookCount ≤ maxHooksPerProcess
  nodup : ∀ ptr, (st.hooks ptr).list.Nodup

/-- The process is scheduled. -/
def Scheduled (st : Procs) (ptr : UInt32) : Prop :=
  ptr ≠ 0 ∧ ∃ i < maxProcesses, st.processTable i = ptr

/-! ## One array -/

section

variable {a : HookArray} {type : HookType} {value : UInt64}

theorem matches_iff {h : Hook} : h.matches type value = true ↔ h = ⟨type, value⟩ := by
  obtain ⟨t, v⟩ := h
  simp [Hook.matches]

theorem length_list (h : a.hookCount ≤ maxHooksPerProcess) : a.list.length = a.hookCount := by
  rw [HookArray.list, List.length_take, a.size, Nat.min_eq_left h]

theorem findHook_eq (h : a.hookCount ≤ maxHooksPerProcess) (type : HookType) (value : UInt64) :
    a.findHook type value = a.list.findIdx? fun h => h.matches type value :=
  find_places noHook (fun h => h.matches type value) (by rw [a.size]; exact h)

theorem hasMatching_eq (h : a.hookCount ≤ maxHooksPerProcess) (type : HookType) (value : UInt64) :
    a.processHasMatchingHook type value = a.list.any fun h => h.matches type value := by
  rw [HookArray.processHasMatchingHook, findHook_eq h, List.findIdx?_isSome]

theorem register_list {a' : HookArray} (h : a.processRegisterHook type value = some a') :
    a'.list = a.list ++ [⟨type, value⟩] ∧ a'.hookCount = a.hookCount + 1 ∧
      a'.hookCount ≤ maxHooksPerProcess := by
  rw [HookArray.processRegisterHook] at h
  split at h
  · cases h
  · cases h
    have hlt : a.hookCount < a.hooks.length := by
      rw [a.size]
      omega
    refine ⟨take_set_count hlt _, rfl, ?_⟩
    show a.hookCount + 1 ≤ maxHooksPerProcess
    omega

theorem remove_list {a' : HookArray} (h : a.hookCount ≤ maxHooksPerProcess)
    (hr : a.processRemoveHook type value = some a') :
    a'.list = a.list.eraseP (fun h => h.matches type value) ∧ a'.hookCount + 1 = a.hookCount := by
  rw [HookArray.processRemoveHook, findHook_eq h] at hr
  obtain ⟨i, hfind, rfl⟩ := Option.map_eq_some_iff.mp hr
  obtain ⟨hi, -, -⟩ := List.findIdx?_eq_some_iff_getElem.mp hfind
  rw [length_list h] at hi
  refine ⟨?_, ?_⟩
  · rw [List.eraseP_eq_eraseIdx, hfind]
    exact take_shiftDown noHook hi (by rw [a.size]; exact h)
  · show a.hookCount - 1 + 1 = a.hookCount
    omega

theorem remove_eq_none (h : a.hookCount ≤ maxHooksPerProcess) :
    a.processRemoveHook type value = none ↔ ∀ hook ∈ a.list, hook ≠ ⟨type, value⟩ := by
  rw [HookArray.processRemoveHook, Option.map_eq_none_iff, findHook_eq h,
    List.findIdx?_eq_none_iff]
  refine forall₂_congr fun hook _ => ?_
  rw [← Bool.not_eq_true, matches_iff]

/-- **The loop ends**, and leaves the other hooks in their order. -/
theorem removeWhile_eq (type : HookType) (value : UInt64) : ∀ {n : Nat} {a : HookArray},
    a.hookCount ≤ maxHooksPerProcess → a.hookCount ≤ n →
    ∃ a', (∀ fuel, n < fuel → a.removeWhile type value fuel = some a') ∧
      a'.list = a.list.filter (· ≠ ⟨type, value⟩) ∧ a'.hookCount ≤ maxHooksPerProcess := by
  intro n
  induction n with
  | zero =>
    intro a h hzero
    have hnil : a.list = [] := List.eq_nil_of_length_eq_zero (by rw [length_list h]; omega)
    have hr : a.processRemoveHook type value = none := by
      rw [remove_eq_none h, hnil]
      exact fun _ hm => absurd hm List.not_mem_nil
    refine ⟨a, fun fuel hf => ?_, by rw [hnil, List.filter_nil], h⟩
    obtain ⟨fuel, rfl⟩ := Nat.exists_eq_succ_of_ne_zero (Nat.ne_of_gt hf)
    rw [HookArray.removeWhile, hr]
  | succ n ih =>
    intro a h hle
    cases hr : a.processRemoveHook type value with
    | none =>
      have hnot := (remove_eq_none h).mp hr
      refine ⟨a, fun fuel hf => ?_, ?_, h⟩
      · obtain ⟨fuel, rfl⟩ := Nat.exists_eq_succ_of_ne_zero (Nat.ne_of_gt (Nat.zero_lt_of_lt hf))
        rw [HookArray.removeWhile, hr]
      · rw [List.filter_eq_self.mpr fun hook hm => decide_eq_true (hnot hook hm)]
    | some a' =>
      obtain ⟨hlist, hcount⟩ := remove_list h hr
      obtain ⟨a'', hrun, hrest, hroom⟩ := ih (a := a') (by omega) (by omega)
      refine ⟨a'', fun fuel hf => ?_, ?_, hroom⟩
      · obtain ⟨fuel, rfl⟩ := Nat.exists_eq_succ_of_ne_zero (Nat.ne_of_gt (Nat.zero_lt_of_lt hf))
        rw [HookArray.removeWhile, hr]
        exact hrun fuel (by omega)
      · rw [hrest, hlist, filter_eraseP fun hook hm => ?_]
        rw [matches_iff.mp hm]
        exact decide_eq_false (not_not_intro rfl)

end

/-! ## Lists of hooks -/

section

variable {s : SchedState} {st st' : Procs} {type : HookType} {value : UInt64} {ptr : UInt32}

theorem removeAllHooks_eq (type : HookType) (value : UInt64) : ∀ (n : Nat) (p : Process),
    p.hooks.length ≤ n →
    removeAllHooks type value n p = { p with hooks := p.hooks.filter (· ≠ ⟨type, value⟩) }
  | 0, p, hn => by
    have hnil : p.hooks = [] := List.eq_nil_of_length_eq_zero (Nat.le_zero.mp hn)
    rw [removeAllHooks, hnil, List.filter_nil, ← hnil]
  | n + 1, p, hn => by
    rw [removeAllHooks, processRemoveHook]
    by_cases h : processHasMatchingHook p type value = true
    · obtain ⟨hook, hmem, hmatch⟩ := List.any_eq_true.mp h
      have hlen := List.length_eraseP_of_mem (p := fun h => h.matches type value) hmem hmatch
      rw [if_pos h]
      have ih := removeAllHooks_eq type value n
        { p with hooks := p.hooks.eraseP fun h => h.matches type value } (by
          show (p.hooks.eraseP fun h => h.matches type value).length ≤ n
          omega)
      refine ih.trans (congrArg (fun l => { p with hooks := l }) (filter_eraseP (fun hook hm => ?_) _))
      rw [matches_iff.mp hm]
      exact decide_eq_false (not_not_intro rfl)
    · rw [if_neg h, List.filter_eq_self.mpr fun hook hm => ?_]
      refine decide_eq_true fun he => h ?_
      exact List.any_eq_true.mpr ⟨hook, hm, matches_iff.mpr he⟩

/-- The process without its hooks of the event. -/
def resumed (type : HookType) (value : UInt64) (p : Process) : Process :=
  { p with hooks := p.hooks.filter (· ≠ ⟨type, value⟩) }

theorem resumed_twice (p : Process) :
    resumed type value (resumed type value p) = resumed type value p := by
  rw [resumed, resumed, List.filter_filter]
  simp only [Bool.and_self]

theorem resumed_eq (p : Process) (h : processHasMatchingHook p type value ≠ true) :
    resumed type value p = p := by
  rw [resumed, List.filter_eq_self.mpr fun hook hm => ?_]
  refine decide_eq_true fun he => h ?_
  exact List.any_eq_true.mpr ⟨hook, hm, matches_iff.mpr he⟩

theorem resumeEntry_procs (type : HookType) (value : UInt64) (s : SchedState) (i : Nat) :
    (Scheduler.resumeEntry type value s i).processTable = s.processTable ∧
    ∀ ptr, (Scheduler.resumeEntry type value s i).procs ptr =
      if ptr ≠ 0 ∧ s.processTable i = ptr then resumed type value (s.procs ptr)
      else s.procs ptr := by
  rw [Scheduler.resumeEntry]
  by_cases h : s.processTable i ≠ 0 ∧
      processHasMatchingHook (s.procs (s.processTable i)) type value = true
  · rw [if_pos h, removeAllHooks_eq type value _ _ (Nat.le_refl _)]
    refine ⟨rfl, fun ptr => ?_⟩
    by_cases hptr : ptr = s.processTable i
    · rw [if_pos ⟨hptr ▸ h.1, hptr.symm⟩, hptr]
      exact if_pos rfl
    · rw [if_neg fun hp => hptr hp.2.symm]
      exact if_neg hptr
  · rw [if_neg h]
    refine ⟨rfl, fun ptr => ?_⟩
    by_cases hptr : ptr ≠ 0 ∧ s.processTable i = ptr
    · rw [if_pos hptr, resumed_eq]
      obtain ⟨h0, hi⟩ := hptr
      intro hm
      rw [← hi] at h0 hm
      exact h ⟨h0, hm⟩
    · rw [if_neg hptr]

open Classical in
theorem resumeEntries_procs (type : HookType) (value : UInt64) : ∀ (is : List Nat)
    (s : SchedState), (is.foldl (Scheduler.resumeEntry type value) s).processTable =
        s.processTable ∧
    ∀ ptr, (is.foldl (Scheduler.resumeEntry type value) s).procs ptr =
      if ptr ≠ 0 ∧ ∃ i ∈ is, s.processTable i = ptr then resumed type value (s.procs ptr)
      else s.procs ptr
  | [], s => ⟨rfl, fun ptr => by
    rw [if_neg fun h => by obtain ⟨-, i, hi, -⟩ := h; exact absurd hi List.not_mem_nil]
    rfl⟩
  | i :: is, s => by
    obtain ⟨htable, hentry⟩ := resumeEntry_procs type value s i
    obtain ⟨htable', hrest⟩ := resumeEntries_procs type value is
      (Scheduler.resumeEntry type value s i)
    rw [List.foldl_cons]
    refine ⟨htable'.trans htable, fun ptr => ?_⟩
    rw [hrest ptr, htable, hentry ptr]
    by_cases hptr : ptr ≠ 0 ∧ s.processTable i = ptr
    · rw [if_pos hptr, resumed_twice, ite_self,
        if_pos ⟨hptr.1, i, List.mem_cons_self, hptr.2⟩]
    · have hsame : (ptr ≠ 0 ∧ ∃ j ∈ i :: is, s.processTable j = ptr) ↔
          ptr ≠ 0 ∧ ∃ j ∈ is, s.processTable j = ptr := by
        refine and_congr_right fun h0 => ?_
        rw [List.exists_mem_cons_iff]
        exact or_iff_right fun hi => hptr ⟨h0, hi⟩
      rw [if_neg hptr]
      simp only [hsame]

/-! ## The arrays show the lists -/

/-- The front of every array is the list of hooks. -/
structure Shows (st : Procs) (s : SchedState) : Prop where
  table : s.processTable = st.processTable
  alive : ∀ ptr, (s.procs ptr).alive = st.alive ptr
  hooks : ∀ ptr, (s.procs ptr).hooks = (st.hooks ptr).list
  room : ∀ ptr, (st.hooks ptr).hookCount ≤ maxHooksPerProcess

theorem Shows.hasMatching (h : Shows st s) (ptr : UInt32) (type : HookType) (value : UInt64) :
    (st.hooks ptr).processHasMatchingHook type value =
      processHasMatchingHook (s.procs ptr) type value := by
  rw [hasMatching_eq (h.room ptr), processHasMatchingHook, h.hooks]

theorem Shows.setHooks (h : Shows st s) {a : HookArray} {p : Process}
    (ha : p.alive = (s.procs ptr).alive) (hp : p.hooks = a.list)
    (hroom : a.hookCount ≤ maxHooksPerProcess) : Shows (st.setHooks ptr a) (s.setProc ptr p) := by
  have hself : (st.setHooks ptr a).hooks ptr = a := Function.update_self ..
  have hother : ∀ q, q ≠ ptr → (st.setHooks ptr a).hooks q = st.hooks q :=
    fun q hq => Function.update_of_ne hq ..
  have hself' : (s.setProc ptr p).procs ptr = p := if_pos rfl
  have hother' : ∀ q, q ≠ ptr → (s.setProc ptr p).procs q = s.procs q := fun q hq => if_neg hq
  refine ⟨h.table, fun q => ?_, fun q => ?_, fun q => ?_⟩
  · by_cases hq : q = ptr
    · rw [hq, hself', ha]
      exact h.alive ptr
    · rw [hother' q hq]
      exact h.alive q
  · by_cases hq : q = ptr
    · rw [hq, hself', hself, hp]
    · rw [hother' q hq, hother q hq, h.hooks]
  · by_cases hq : q = ptr
    · rw [hq, hself]
      exact hroom
    · rw [hother q hq]
      exact h.room q

theorem Shows.yield (h : Shows st s) (h0 : ptr ≠ 0) (type : HookType) (value : UInt64) :
    Shows (processYieldForEvent st ptr type value)
      (Scheduler.processYieldForEvent s ptr type value) := by
  rw [processYieldForEvent, Scheduler.processYieldForEvent, if_neg h0, h.hasMatching]
  by_cases hm : processHasMatchingHook (s.procs ptr) type value = true
  · rw [if_pos hm, if_pos hm]
    exact h
  rw [if_neg hm, if_neg hm]
  have hlen := length_list (h.room ptr)
  rw [processRegisterHook, h.hooks, hlen]
  cases hr : (st.hooks ptr).processRegisterHook type value with
  | none =>
    have hfull : maxHooksPerProcess ≤ (st.hooks ptr).hookCount := by
      rw [HookArray.processRegisterHook] at hr
      split at hr
      · assumption
      · cases hr
    rw [if_pos hfull]
    exact h.setHooks rfl (h.hooks ptr) (h.room ptr)
  | some a' =>
    obtain ⟨hlist, hcount, hroom⟩ := register_list hr
    rw [if_neg (by omega)]
    exact h.setHooks rfl hlist.symm hroom

theorem Shows.entry (h : Shows st s) (type : HookType) (value : UInt64) (i : Nat) :
    ∃ st', (∀ fuel, maxHooksPerProcess < fuel → resumeEntry type value fuel st i = some st') ∧
      Shows st' (Scheduler.resumeEntry type value s i) := by
  simp only [resumeEntry, Scheduler.resumeEntry, h.hasMatching, h.table]
  by_cases hm : st.processTable i ≠ 0 ∧
      processHasMatchingHook (s.procs (st.processTable i)) type value = true
  · obtain ⟨a', hrun, hlist, hroom⟩ :=
      removeWhile_eq type value (h.room (st.processTable i)) (h.room (st.processTable i))
    refine ⟨st.setHooks (st.processTable i) a', fun fuel hf => ?_, ?_⟩
    · rw [if_pos hm, hrun fuel hf, Option.map_some]
    · rw [if_pos hm, removeAllHooks_eq type value _ _ (Nat.le_refl _)]
      refine h.setHooks rfl ?_ hroom
      rw [hlist, ← h.hooks]
  · exact ⟨st, fun fuel _ => if_neg hm, by rw [if_neg hm]; exact h⟩

theorem Shows.entries (type : HookType) (value : UInt64) : ∀ (is : List Nat) {st : Procs}
    {s : SchedState}, Shows st s →
    ∃ st', (∀ fuel, maxHooksPerProcess < fuel →
        is.foldlM (resumeEntry type value fuel) st = some st') ∧
      Shows st' (is.foldl (Scheduler.resumeEntry type value) s)
  | [], st, _, h => ⟨st, fun _ _ => rfl, h⟩
  | i :: is, st, s, h => by
    obtain ⟨st₁, hrun, h₁⟩ := h.entry type value i
    obtain ⟨st₂, hrest, h₂⟩ := Shows.entries type value is h₁
    refine ⟨st₂, fun fuel hf => ?_, h₂⟩
    rw [List.foldlM_cons, hrun fuel hf]
    exact hrest fuel hf

/-- **The loops over the arrays end**, and do what is said of the lists. -/
theorem Shows.resume (h : Shows st s) (type : HookType) (value : UInt64) :
    ∃ st', (∀ fuel, maxHooksPerProcess < fuel →
        schedulerResumeProcessesForEvent fuel st type value = some st') ∧
      Shows st' (Scheduler.schedulerResumeProcessesForEvent s type value) :=
  Shows.entries type value (List.range maxProcesses) h

/-! ## Runs -/

/-- Lists for the arrays. -/
def shown (st : Procs) : SchedState where
  procs ptr := ⟨0, ⟨0, 0, 0, 0, 0, 0, 0, 0, 0, 0⟩, st.alive ptr, (st.hooks ptr).list, 1⟩
  processTable := st.processTable
  processCount := 0
  currentProcessIdx := -1
  xorshift32State := 0
  quantumCounter := 0
  lastRegs := 0
  gNextContext := 0
  timerTicks := 0
  nextPid := 0

theorem Kept.shows (h : Kept st) : Shows st (shown st) :=
  ⟨rfl, fun _ => rfl, fun _ => rfl, h.room⟩

/-- What an event does to all processes. -/
structure Resumes (type : HookType) (value : UInt64) (st st' : Procs) : Prop where
  table : st'.processTable = st.processTable
  alive : st'.alive = st.alive
  hooks : ∀ ptr, Scheduled st ptr →
    (st'.hooks ptr).list = (st.hooks ptr).list.filter (· ≠ ⟨type, value⟩)
  others : ∀ ptr, ¬ Scheduled st ptr → (st'.hooks ptr).list = (st.hooks ptr).list
  room : ∀ ptr, (st'.hooks ptr).hookCount ≤ maxHooksPerProcess

theorem Kept.resume (h : Kept st) (type : HookType) (value : UInt64) :
    ∃ st', ResumesTo st type value st' ∧ Resumes type value st st' := by
  obtain ⟨st', hrun, h'⟩ := h.shows.resume type value
  obtain ⟨htable, hprocs⟩ := resumeEntries_procs type value (List.range maxProcesses) (shown st)
  have hscheduled : ∀ ptr, Scheduled st ptr ↔
      ptr ≠ 0 ∧ ∃ i ∈ List.range maxProcesses, (shown st).processTable i = ptr := by
    intro ptr
    simp only [Scheduled, List.mem_range]
    rfl
  refine ⟨st', ⟨_, hrun⟩, ⟨h'.table.symm.trans htable, funext fun ptr => ?_, fun ptr hs => ?_,
    fun ptr hs => ?_, h'.room⟩⟩
  · rw [← h'.alive, Scheduler.schedulerResumeProcessesForEvent, hprocs ptr]
    split <;> rfl
  · rw [← h'.hooks, Scheduler.schedulerResumeProcessesForEvent, hprocs ptr,
      if_pos ((hscheduled ptr).mp hs)]
    rfl
  · rw [← h'.hooks, Scheduler.schedulerResumeProcessesForEvent, hprocs ptr,
      if_neg fun hn => hs ((hscheduled ptr).mpr hn)]
    rfl

theorem ResumesTo.unique {st₁ st₂ : Procs} (h₁ : ResumesTo st type value st₁)
    (h₂ : ResumesTo st type value st₂) : st₁ = st₂ := by
  obtain ⟨n₁, h₁⟩ := h₁
  obtain ⟨n₂, h₂⟩ := h₂
  have hr₁ := h₁ (n₁ + n₂ + 1) (by omega)
  rw [h₂ (n₁ + n₂ + 1) (by omega)] at hr₁
  exact (Option.some.inj hr₁).symm

theorem yield_nodup (h : ∀ q, (s.procs q).hooks.Nodup) (ptr : UInt32) (type : HookType)
    (value : UInt64) (q : UInt32) :
    ((Scheduler.processYieldForEvent s ptr type value).procs q).hooks.Nodup := by
  rw [Scheduler.processYieldForEvent]
  by_cases hm : processHasMatchingHook (s.procs ptr) type value = true
  · rw [if_pos hm]
    exact h q
  rw [if_neg hm]
  by_cases hq : q = ptr
  · rw [show (s.setProc ptr (processRegisterHook (s.procs ptr) type value)).procs q =
      processRegisterHook (s.procs ptr) type value from if_pos hq, processRegisterHook]
    split
    · exact h ptr
    · show ((s.procs ptr).hooks ++ [(⟨type, value⟩ : Hook)]).Nodup
      rw [← List.concat_eq_append]
      refine List.Nodup.concat (fun hmem => hm ?_) (h ptr)
      exact List.any_eq_true.mpr ⟨_, hmem, matches_iff.mpr rfl⟩
  · rw [show (s.setProc ptr (processRegisterHook (s.procs ptr) type value)).procs q =
      s.procs q from if_neg hq]
    exact h q

theorem Kept.yield (h : Kept st) (ptr : UInt32) (type : HookType) (value : UInt64) :
    Kept (processYieldForEvent st ptr type value) := by
  by_cases h0 : ptr = 0
  · rw [processYieldForEvent, if_pos h0]
    exact h
  have hshows := h.shows.yield h0 type value
  refine ⟨hshows.room, fun q => ?_⟩
  rw [← hshows.hooks]
  exact yield_nodup (s := shown st) h.nodup ptr type value q

theorem Kept.resumed (h : Kept st) (hr : Resumes type value st st') : Kept st' := by
  refine ⟨hr.room, fun ptr => ?_⟩
  by_cases hs : Scheduled st ptr
  · rw [hr.hooks ptr hs]
    exact (h.nodup ptr).filter _
  · rw [hr.others ptr hs]
    exact h.nodup ptr

theorem list_nil {a : HookArray} (h : a.hookCount = 0) : a.list = [] := by
  rw [HookArray.list, h, List.take_zero]

theorem Kept.start (h : Kept st) (ptr : UInt32) {a : HookArray} (ha : a.hookCount = 0)
    (processTable : Nat → UInt32) (alive : UInt32 → Bool) :
    Kept { st.setHooks ptr a with processTable, alive } := by
  refine ⟨fun q => ?_, fun q => ?_⟩
  · show (Function.update st.hooks ptr a q).hookCount ≤ maxHooksPerProcess
    by_cases hq : q = ptr
    · rw [hq, Function.update_self, ha]
      exact Nat.zero_le _
    · rw [Function.update_of_ne hq]
      exact h.room q
  · show (Function.update st.hooks ptr a q).list.Nodup
    by_cases hq : q = ptr
    · rw [hq, Function.update_self, list_nil ha]
      exact List.nodup_nil
    · rw [Function.update_of_ne hq]
      exact h.nodup q

theorem Reachable.kept (h : Reachable st) : Kept st := by
  induction h with
  | fresh hzero =>
    refine ⟨fun ptr => ?_, fun ptr => ?_⟩
    · rw [hzero ptr]
      exact Nat.zero_le _
    · rw [list_nil (hzero ptr)]
      exact List.nodup_nil
  | yield _ ptr type value ih => exact ih.yield ptr type value
  | @resume _ _ _ type value hr ih =>
    obtain ⟨st'', hends, hresumes⟩ := ih.resume type value
    rw [hr.unique hends]
    exact ih.resumed hresumes
  | start _ ptr a ha processTable alive ih => exact ih.start ptr ha processTable alive

theorem runnable_iff (h : Kept st) (ptr : UInt32) :
    Runnable st ptr ↔ st.alive ptr = true ∧ (st.hooks ptr).list = [] := by
  rw [Runnable, ← length_list (h.room ptr), List.length_eq_zero_iff]

/-- **Hooks are kept.** In every state that waits and events lead to no process has a
hook twice or more hooks than places; an event comes to an end, leaves of every
scheduled process the other hooks in their order, and such a process is runnable then
exactly if it lives and waited for nothing else. -/
theorem hooks_are_kept (h : Reachable st) :
    (∀ ptr, (st.hooks ptr).list.Nodup ∧ (st.hooks ptr).hookCount ≤ maxHooksPerProcess) ∧
    ∀ type value, ∃ st', ResumesTo st type value st' ∧ Resumes type value st st' ∧
      ∀ ptr, Scheduled st ptr → (Runnable st' ptr ↔
        st.alive ptr = true ∧ ∀ hook ∈ (st.hooks ptr).list, hook = ⟨type, value⟩) := by
  have hkept := h.kept
  refine ⟨fun ptr => ⟨hkept.nodup ptr, hkept.room ptr⟩, fun type value => ?_⟩
  obtain ⟨st', hends, hr⟩ := hkept.resume type value
  refine ⟨st', hends, hr, fun ptr hs => ?_⟩
  rw [runnable_iff (hkept.resumed hr), hr.alive, hr.hooks ptr hs, List.filter_eq_nil_iff]
  refine and_congr_right fun _ => forall₂_congr fun hook _ => ?_
  rw [decide_eq_true_eq, not_not]

end

/-- A live process without hooks in the first entry. -/
def alone : Procs where
  alive _ := true
  hooks _ := ⟨List.replicate maxHooksPerProcess noHook, 0, rfl⟩
  processTable i := if i = 0 then 0x1000 else 0

/-- It waits for two events, and for one of them twice. -/
def waiting : Procs :=
  processYieldForEvent (processYieldForEvent (processYieldForEvent alone
    0x1000 .signal 7) 0x1000 .timeReached 5) 0x1000 .signal 7

/-- The other hook is left. -/
theorem waiting_resumes : ∃ st', ResumesTo waiting .signal 7 st' ∧
    (st'.hooks 0x1000).list = [⟨.timeReached, 5⟩] ∧ ¬ Runnable st' 0x1000 := by
  have hreach : Reachable waiting := .yield (.yield (.yield (.fresh fun _ => rfl) _ _ _) _ _ _) _ _ _
  have hscheduled : Scheduled waiting 0x1000 := ⟨by decide, 0, by decide, rfl⟩
  obtain ⟨st', hends, hr, hrunnable⟩ := (hooks_are_kept hreach).2 .signal 7
  refine ⟨st', hends, ?_, fun hrun => ?_⟩
  · rw [hr.hooks _ hscheduled]
    decide
  · have hall := ((hrunnable _ hscheduled).mp hrun).2
    exact absurd (hall ⟨.timeReached, 5⟩ (by decide)) (by decide)

end ContinuumOS.Sched.Hooks
