import ContinuumOS.Lib.Runs
import ContinuumOS.Sched.Delivery
import ContinuumOS.Sched.Resume

/-! # No wakeup is lost

A process waits for its events by a `SIGNAL` hook with its own pid, which keeps
it from running. Whoever queues an event has to take that hook away. Keyboard,
mouse and focus events do; the events of `src/kernel/pci.cpp` are only queued,
so a process that waited already sleeps on beside its event. As long as no PCI
event goes to a waiting process, a waiting process has an empty queue. -/
namespace ContinuumOS.Sched.Wakeups
open ContinuumOS.Lib ContinuumOS.Lib.Stack ContinuumOS.Lib.Ring ContinuumOS.Sched.Events
open ContinuumOS.Sched.Scheduler ContinuumOS.Sched.RoundTrip ContinuumOS.Sched.Delivery
open ContinuumOS.Sched.Resume (inTable_current)

/-- A live process that waits for its events. -/
def Waits (k : Kernel) (ptr : UInt32) : Prop :=
  ptr ≠ 0 ∧ (k.sched.procs ptr).alive = true ∧
    processHasMatchingHook (k.sched.procs ptr) .signal (k.signalOf ptr) = true

/-- It has an event and waits for one. -/
def LostWakeup (k : Kernel) (ptr : UInt32) : Prop :=
  Waits k ptr ∧ (k.events ptr).ioEvents.count ≠ 0

instance (k : Kernel) (ptr : UInt32) : Decidable (Waits k ptr) :=
  inferInstanceAs (Decidable (_ ∧ _ ∧ _))

instance (k : Kernel) (ptr : UInt32) : Decidable (LostWakeup k ptr) :=
  inferInstanceAs (Decidable (_ ∧ _))

/-! ## Hooks only go away -/

/-- From `s` to `t` no process came to life and none got a hook. -/
structure Shrinks (s t : SchedState) : Prop where
  table : t.processTable = s.processTable
  pid : ∀ p, (t.procs p).pid = (s.procs p).pid
  alive : ∀ p, (t.procs p).alive = true → (s.procs p).alive = true
  hooks : ∀ p, (t.procs p).hooks ⊆ (s.procs p).hooks

theorem Shrinks.of_eq {s t : SchedState} (ht : t.processTable = s.processTable)
    (hp : t.procs = s.procs) : Shrinks s t :=
  ⟨ht, fun p => by rw [hp], fun p h => by rwa [hp] at h, fun p => by rw [hp]; exact fun _ h => h⟩

theorem Shrinks.refl (s : SchedState) : Shrinks s s := .of_eq rfl rfl

theorem Shrinks.trans {s t u : SchedState} (h : Shrinks s t) (h' : Shrinks t u) : Shrinks s u :=
  ⟨h'.table.trans h.table, fun p => (h'.pid p).trans (h.pid p), fun p hl => h.alive p (h'.alive p hl),
    fun p _ hm => h.hooks p (h'.hooks p hm)⟩

theorem shrinks_setProc {s : SchedState} {ptr : UInt32} {p : Process}
    (h₁ : p.pid = (s.procs ptr).pid) (h₂ : p.alive = true → (s.procs ptr).alive = true)
    (h₃ : p.hooks ⊆ (s.procs ptr).hooks) : Shrinks s (s.setProc ptr p) := by
  have hself : (s.setProc ptr p).procs ptr = p := if_pos rfl
  have hother : ∀ q, q ≠ ptr → (s.setProc ptr p).procs q = s.procs q := fun q hq => if_neg hq
  refine ⟨rfl, fun q => ?_, fun q => ?_, fun q => ?_⟩ <;> obtain rfl | hq := eq_or_ne q ptr
  · rwa [hself]
  · rw [hother q hq]
  · rwa [hself]
  · rw [hother q hq]
    exact fun h => h
  · rwa [hself]
  · rw [hother q hq]
    exact fun _ h => h

theorem hasMatchingHook_of_subset {p q : Process} {type : HookType} {value : UInt64}
    (h : q.hooks ⊆ p.hooks) (hq : processHasMatchingHook q type value = true) :
    processHasMatchingHook p type value = true := by
  simp only [processHasMatchingHook, List.any_eq_true] at hq ⊢
  obtain ⟨hook, hmem, hmatch⟩ := hq
  exact ⟨hook, h hmem, hmatch⟩

/-- The loop takes every matching hook and nothing else, when it has a round
for each. -/
theorem removeAllHooks_spec (type : HookType) (value : UInt64) : ∀ (n : Nat) (p : Process),
    p.hooks.length ≤ n →
    (removeAllHooks type value n p).pid = p.pid ∧
    (removeAllHooks type value n p).hooks ⊆ p.hooks ∧
    processHasMatchingHook (removeAllHooks type value n p) type value = false := by
  intro n
  induction n with
  | zero =>
    intro p hn
    have hnil : p.hooks = [] := List.eq_nil_of_length_eq_zero (by omega)
    exact ⟨rfl, fun _ h => h, by simp [removeAllHooks, processHasMatchingHook, hnil]⟩
  | succ n ih =>
    intro p hn
    simp only [removeAllHooks, processRemoveHook]
    by_cases h : processHasMatchingHook p type value = true
    · simp only [h, if_true]
      obtain ⟨hook, hmem, hmatch⟩ := List.any_eq_true.mp h
      have hlen := List.length_eraseP_of_mem (p := fun h => h.matches type value) hmem hmatch
      obtain ⟨h₁, h₂, h₃⟩ := ih { p with hooks := p.hooks.eraseP fun h => h.matches type value }
        (by simp only [hlen]; omega)
      exact ⟨h₁, fun _ hm => List.eraseP_sublist.subset (h₂ hm), h₃⟩
    · simp only [h]
      exact ⟨rfl, fun _ h => h, Bool.eq_false_iff.mpr h⟩

theorem shrinks_resumeEntry (type : HookType) (value : UInt64) (s : SchedState) (i : Nat) :
    Shrinks s (resumeEntry type value s i) := by
  simp only [resumeEntry]
  split
  · obtain ⟨hpid, hhooks, -⟩ := removeAllHooks_spec type value _ (s.procs (s.processTable i)) le_rfl
    have halive := (removeAllHooks_fields type value (s.procs (s.processTable i)).hooks.length
      (s.procs (s.processTable i))).2
    exact shrinks_setProc hpid (fun h => halive ▸ h) hhooks
  · exact .refl s

theorem shrinks_resume (type : HookType) (value : UInt64) (is : List Nat) :
    ∀ s : SchedState, Shrinks s (is.foldl (resumeEntry type value) s) := by
  induction is with
  | nil => exact .refl
  | cons i is ih => exact fun s => (shrinks_resumeEntry type value s i).trans (ih _)

theorem shrinks_resumeProcesses (s : SchedState) (type : HookType) (value : UInt64) :
    Shrinks s (schedulerResumeProcessesForEvent s type value) := shrinks_resume type value _ s

theorem resume_clears {s : SchedState} {ptr : UInt32} (h0 : ptr ≠ 0) (hp : InTable s ptr)
    (type : HookType) (value : UInt64) :
    processHasMatchingHook ((schedulerResumeProcessesForEvent s type value).procs ptr) type value =
      false := by
  obtain ⟨i, hi, rfl⟩ := hp
  obtain ⟨before, after, hsplit⟩ := List.append_of_mem (List.mem_range.mpr hi)
  rw [schedulerResumeProcessesForEvent, hsplit, List.foldl_append, List.foldl_cons]
  generalize hmid : before.foldl (resumeEntry type value) s = mid
  have htable : mid.processTable = s.processTable := hmid ▸ (shrinks_resume type value before s).table
  have hlater := (shrinks_resume type value after (resumeEntry type value mid i)).hooks
    (s.processTable i)
  rw [← htable] at h0 hlater ⊢
  have hentry : processHasMatchingHook
      ((resumeEntry type value mid i).procs (mid.processTable i)) type value = false := by
    simp only [resumeEntry]
    split
    · simp only [SchedState.setProc, if_true]
      exact (removeAllHooks_spec type value _ _ le_rfl).2.2
    · rename_i hnone
      exact Bool.eq_false_iff.mpr fun h => hnone ⟨h0, h⟩
  refine Bool.eq_false_iff.mpr fun h => ?_
  rw [hasMatchingHook_of_subset hlater h] at hentry
  cases hentry

/-! ## Switching changes no hook -/

/-- A handler that gives no process a hook. -/
inductive Shrunk (s : SchedState) : Outcome → Prop
  | ret {t : SchedState} {m : Ram} (h : Shrinks s t) : Shrunk s (.ret t m)
  | jump {t : SchedState} {m : Ram} (h : Shrinks s t) : Shrunk s (.jumpTrampoline t m)
  | panic : Shrunk s .panic

theorem Shrunk.trans {s t : SchedState} {o : Outcome} (h : Shrinks s t) (ho : Shrunk t o) :
    Shrunk s o := by
  cases ho with
  | ret h' => exact .ret (h.trans h')
  | jump h' => exact .jump (h.trans h')
  | panic => exact .panic

theorem shrinks_saveContext (s : SchedState) (m : Ram) (regs : UInt32) :
    Shrinks s (saveContext s m regs) := by
  simp only [saveContext]
  split
  · exact shrinks_setProc rfl (fun h => h) fun _ h => h
  · exact .refl s

theorem shrinks_lottery (s : SchedState) (ok : Process → Bool) : Shrinks s (lottery s ok).2 := by
  obtain ⟨hprocs, htable, -⟩ := lottery_spec s ok
  exact .of_eq htable hprocs

theorem shrinks_nextProcess (s : SchedState) : Shrinks s (schedulerNextProcess s).2 := by
  simp only [schedulerNextProcess]
  split
  · exact .refl s
  · exact shrinks_lottery s runnable

theorem contextSwitch_shrunk (tr regs : UInt32) (s : SchedState) (m : Ram) :
    Shrunk s (contextSwitch tr regs s m) := by
  have h := (shrinks_saveContext s m regs).trans (shrinks_nextProcess (saveContext s m regs))
  simp only [contextSwitch]
  split
  · exact .ret (.refl s)
  split
  · split
    · exact .ret h
    · exact .panic
  split
  · exact .ret h
  · exact .ret (h.trans (.of_eq rfl rfl))

theorem forceSwitch_shrunk (tr regs : UInt32) (s : SchedState) (m : Ram) :
    Shrunk s (schedulerForceSwitchWithRegs tr regs s m) := by
  simp only [schedulerForceSwitchWithRegs]
  split
  · exact contextSwitch_shrunk tr regs s m
  · exact .ret (.refl s)

theorem timerHandler_shrunk (tr regs : UInt32) (s : SchedState) (m : Ram) :
    Shrunk s (timerHandler tr regs s m) := by
  have hticked : Shrinks s { s with timerTicks := s.timerTicks + 1 } := .of_eq rfl rfl
  have hresumed := hticked.trans (shrinks_resumeProcesses _ .timeReached
    (s.timerTicks + 1).toUInt64)
  simp only [timerHandler]
  generalize schedulerResumeProcessesForEvent _ _ _ = resumed at hresumed ⊢
  refine .trans hresumed ?_
  simp only [schedulerOnTick]
  split
  · refine .trans ?_ (contextSwitch_shrunk tr regs _ m)
    exact .of_eq rfl rfl
  · exact .ret (.of_eq rfl rfl)

theorem exitSwitch_shrunk (s : SchedState) (m : Ram) :
    Shrunk s (schedulerExitCurrentAndSwitch s m) := by
  simp only [schedulerExitCurrentAndSwitch]
  split
  · exact .panic
  · exact .jump ((shrinks_lottery s _).trans (.of_eq rfl rfl))

/-! ## A waiting process has an empty queue -/

/-- The invariant: the queues of live processes are sound, and a waiting
process has an empty one and can be found in the table. -/
structure Inv (k : Kernel) : Prop where
  sound : ∀ ptr, (k.sched.procs ptr).alive = true → ∃ q, HoldsEvents (k.events ptr) q
  waiting : ∀ ptr, Waits k ptr → (k.events ptr).ioEvents.count = 0 ∧ InTable k.sched ptr

theorem Inv.no_lost_wakeup {k : Kernel} (h : Inv k) (ptr : UInt32) : ¬ LostWakeup k ptr :=
  fun hl => hl.2 (h.waiting ptr hl.1).1

theorem inv_booted (devices : List PciDevice) : Inv (booted devices) where
  sound _ h := by cases h
  waiting _ h := by cases h.2.1

variable {k k' : Kernel} {ptr : UInt32}

theorem Shrinks.waits {s : SchedState} (h : Shrinks k.sched s)
    (hw : Waits { k with sched := s } ptr) : Waits k ptr := by
  obtain ⟨h0, halive, hhook⟩ := hw
  simp only [Kernel.signalOf, h.pid] at hhook
  exact ⟨h0, h.alive ptr halive, hasMatchingHook_of_subset (h.hooks ptr) hhook⟩

theorem Inv.shrinks {s : SchedState} (h : Inv k) (hs : Shrinks k.sched s) :
    Inv { k with sched := s } where
  sound p halive := h.sound p (hs.alive p halive)
  waiting p hw := by
    obtain ⟨hempty, i, hi, htable⟩ := h.waiting p (hs.waits hw)
    exact ⟨hempty, i, hi, (congrFun hs.table i).trans htable⟩

theorem Inv.ended {o : Outcome} (h : Inv k) (ho : Shrunk k.sched o) (he : k.ended o = some k') :
    Inv k' := by
  cases ho with
  | ret hs => obtain rfl := Option.some.inj he; exact h.shrinks hs
  | jump hs => obtain rfl := Option.some.inj he; exact h.shrinks hs
  | panic => cases he

/-- The queue of a process that has no hook or of one that ends up empty may
change. -/
theorem Inv.setEvents {owner : QueueOwner IOEvent} (h : Inv k)
    (hsound : ∀ q, HoldsEvents (k.events ptr) q → ∃ q', HoldsEvents owner q')
    (hempty : Waits k ptr → owner.ioEvents.count = 0) :
    Inv { k with events := Function.update k.events ptr owner } := by
  refine ⟨fun p halive => ?_, fun p hp => ?_⟩
  · change ∃ q, HoldsEvents (Function.update k.events ptr owner p) q
    obtain ⟨q, hq⟩ := h.sound p halive
    obtain rfl | hne := eq_or_ne p ptr
    · rw [Function.update_self]
      exact hsound q hq
    · rw [Function.update_of_ne hne]
      exact ⟨q, hq⟩
  · obtain ⟨hcount, htable⟩ := h.waiting p hp
    refine ⟨?_, htable⟩
    change (Function.update k.events ptr owner p).ioEvents.count = 0
    obtain rfl | hne := eq_or_ne p ptr
    · rw [Function.update_self]
      exact hempty hp
    · rw [Function.update_of_ne hne]
      exact hcount

theorem Inv.push (h : Inv k) (hw : ¬ Waits k ptr) (event : IOEvent) : Inv (k.push ptr event) := by
  unfold Kernel.push
  split
  · exact h
  · exact h.setEvents (fun q hq => ⟨_, hq.push event⟩) fun hp => absurd hp hw

theorem Inv.pop (h : Inv k) (ptr : UInt32) : Inv (k.pop ptr).2 := by
  unfold Kernel.pop
  split
  · exact h
  · refine h.setEvents (fun q hq => ⟨_, hq.pop.2⟩) fun hp => ?_
    obtain ⟨q, hq⟩ := h.sound ptr hp.2.1
    have hcount := (h.waiting ptr hp).1
    have hnil : q = [] := by
      rw [hq.count_eq.1] at hcount
      exact List.eq_nil_of_length_eq_zero (by omega)
    subst hnil
    exact hq.pop.2.count_eq.1

theorem deliver_eq (k : Kernel) (ptr : UInt32) (event : IOEvent) :
    k.deliver ptr event = (k.resume .signal (k.signalOf ptr)).push ptr event := by
  simp only [Kernel.deliver, Kernel.push, Kernel.resume]
  split <;> rfl

theorem Shrinks.not_waits {s : SchedState} (h : Shrinks k.sched s)
    (hcleared : processHasMatchingHook (s.procs ptr) .signal (k.signalOf ptr) = false) :
    ¬ Waits { k with sched := s } ptr := by
  rintro ⟨-, -, hhook⟩
  simp only [Kernel.signalOf, h.pid] at hhook hcleared
  exact Bool.false_ne_true (hcleared.symm.trans hhook)

/-- **Who is resumed does not wait any more.** -/
theorem Inv.not_waits_resume (h : Inv k) : ¬ Waits (k.resume .signal (k.signalOf ptr)) ptr := by
  intro hw
  have hshrinks := shrinks_resumeProcesses k.sched .signal (k.signalOf ptr)
  -- only processes of the table wait, and those have lost their hook
  have htable := (h.waiting ptr (hshrinks.waits hw)).2
  exact hshrinks.not_waits (resume_clears hw.1 htable .signal (k.signalOf ptr)) hw

/-- **A delivery that resumes keeps the invariant.** -/
theorem Inv.deliver (h : Inv k) (ptr : UInt32) (event : IOEvent) : Inv (k.deliver ptr event) := by
  rw [deliver_eq]
  exact Inv.push (h.shrinks (shrinks_resumeProcesses _ _ _)) h.not_waits_resume event

theorem Inv.of_eq (h : Inv k) (hs : k'.sched = k.sched) (he : k'.events = k.events) : Inv k' := by
  obtain ⟨sched, events, _, _, _, _, _⟩ := k'
  subst hs he
  exact ⟨h.sound, h.waiting⟩

theorem Inv.keyboard (h : Inv k) (event : KeyboardEvent) : Inv (dispatchKeyboardEvent k event) := by
  unfold dispatchKeyboardEvent
  split
  · exact h.deliver _ _
  split
  · exact h.deliver _ _
  split
  · exact h.deliver _ _
  · exact h

theorem Inv.mouse (h : Inv k) (event : MouseEvent) : Inv (dispatchMouseEvent k event) := by
  unfold dispatchMouseEvent
  extract_lets
  split
  · exact h
  · exact h.deliver _ _

theorem Inv.focus (h : Inv k) (ptr : UInt32) (code value : Int) :
    Inv (dispatchFocusEvent k ptr code value) := by
  unfold dispatchFocusEvent
  split
  · exact h
  · exact h.deliver _ _

theorem Inv.switchForeground (h : Inv k) (prev next : UInt32) :
    Inv (schedulerSwitchForeground k prev next) := by
  have hnext : Inv { k with foregroundProc := next } := h.of_eq rfl rfl
  have hprev : ∀ value, Inv (if prev ≠ 0 then
      dispatchFocusEvent { k with foregroundProc := next } prev focusLost value
      else { k with foregroundProc := next }) := by
    intro value
    split
    · exact hnext.focus _ _ _
    · exact hnext
  unfold schedulerSwitchForeground
  split
  · exact h
  · dsimp only
    split
    · exact (hprev _).focus _ _ _
    · exact hprev _

theorem Inv.setForeground (h : Inv k) (proc : UInt32) : Inv (schedulerSetForeground k proc) := by
  unfold schedulerSetForeground
  split
  · exact h
  · dsimp only
    refine Inv.switchForeground ?_ _ _
    split
    · exact h.of_eq rfl rfl
    · exact h

theorem Inv.restoreForeground (h : Inv k) (owner : UInt32) :
    Inv (schedulerRestoreForeground k owner) := by
  have hpopped : Inv { k with foregroundStack := k.foregroundStack.tail } := h.of_eq rfl rfl
  unfold schedulerRestoreForeground
  split
  · exact h
  · dsimp only
    refine Inv.switchForeground ?_ _ _
    split
    · exact hpopped.shrinks (shrinks_setProc rfl (fun hl => hl) (List.nil_subset _))
    · exact hpopped

theorem Inv.kill (h : Inv k) (ptr : UInt32) : Inv (killProcess k ptr) := by
  unfold killProcess
  split
  · exact h
  · refine Inv.restoreForeground (h.shrinks ?_) ptr
    exact shrinks_setProc rfl (fun hl => by cases hl) fun _ hm => hm

/-! ## Starting and waiting -/

/-- A started process gets a free entry and no hook; the others stay. -/
structure Starts (ptr : UInt32) (s t : SchedState) : Prop where
  table : ∀ i < maxProcesses, s.processTable i ≠ 0 → t.processTable i = s.processTable i
  others : ∀ p, p ≠ ptr → t.procs p = s.procs p
  hooks : (t.procs ptr).hooks = []

theorem schedulerAddProcess_starts {s t : SchedState} (h : Starts ptr s t) :
    Starts ptr s (schedulerAddProcess t ptr) := by
  unfold schedulerAddProcess
  split
  · exact h
  cases hfree : freeEntry t with
  | none => exact h
  | some i =>
    have hzero := (freeEntry_spec hfree).2
    refine ⟨fun j hj hs => ?_, fun p hp => ?_, ?_⟩
    · have hkept := h.table j hj hs
      have hji : j ≠ i := by
        rintro rfl
        exact hs (hkept.symm.trans hzero)
      simp only [SchedState.setProc, if_neg hji]
      exact hkept
    · simp only [SchedState.setProc, if_neg hp]
      exact h.others p hp
    · simp only [SchedState.setProc, if_true]
      exact h.hooks

theorem kStartProcess_starts (s : SchedState) {procPtr : UInt32} (h0 : procPtr ≠ 0)
    (entry stackSize stackPtr : UInt32) :
    Starts procPtr s (kStartProcess entry stackSize procPtr stackPtr s).2 := by
  have hset : ∀ (p : Process) (t : SchedState), Starts procPtr s t → p.hooks = [] →
      Starts procPtr s (t.setProc procPtr p) := by
    intro p t ht hp
    refine ⟨ht.table, fun q hq => ?_, ?_⟩
    · simp only [SchedState.setProc, if_neg hq]
      exact ht.others q hq
    · simp only [SchedState.setProc, if_true]
      exact hp
  have hfirst : ∀ p : Process, p.hooks = [] →
      Starts procPtr s (SchedState.setProc { s with nextPid := s.nextPid + 1 } procPtr p) := by
    intro p hp
    refine ⟨fun _ _ _ => rfl, fun q hq => ?_, ?_⟩
    · simp only [SchedState.setProc, if_neg hq]
    · simp only [SchedState.setProc, if_true]
      exact hp
  simp only [kStartProcess, if_neg h0]
  split
  · exact hfirst _ rfl
  · exact schedulerAddProcess_starts (hset _ _ (hfirst _ rfl) rfl)

/-- **A new process has no hook and an empty queue.** -/
theorem Inv.start {s : SchedState} (h : Inv k) (h0 : ptr ≠ 0) (hs : Starts ptr k.sched s) :
    Inv { k with sched := s, events := Function.update k.events ptr startedProcess } := by
  refine ⟨fun p halive => ?_, fun p hp => ?_⟩
  · change ∃ q, HoldsEvents (Function.update k.events ptr startedProcess p) q
    obtain rfl | hne := eq_or_ne p ptr
    · rw [Function.update_self]
      exact ⟨[], holdsEvents_started⟩
    · rw [Function.update_of_ne hne]
      exact h.sound p (by rw [← hs.others p hne]; exact halive)
  · have hne : p ≠ ptr := by
      rintro rfl
      have hhook := hp.2.2
      simp [processHasMatchingHook, hs.hooks] at hhook
    have hwaits : Waits k p := by
      simpa only [Waits, Kernel.signalOf, hs.others p hne] using hp
    obtain ⟨hcount, i, hi, htable⟩ := h.waiting p hwaits
    refine ⟨?_, i, hi, ?_⟩
    · change (Function.update k.events ptr startedProcess p).ioEvents.count = 0
      rw [Function.update_of_ne hne]
      exact hcount
    · rw [← htable]
      exact hs.table i hi (by rw [htable]; exact hp.1)

theorem Inv.yieldForEvent (h : Inv k) (htable : InTable k.sched ptr)
    (hempty : (k.sched.procs ptr).alive = true → (k.events ptr).ioEvents.count = 0)
    (type : HookType) (value : UInt64) :
    Inv { k with sched := processYieldForEvent k.sched ptr type value } := by
  have hquiet := quiet_processYieldForEvent k.sched ptr type value
  have hothers : ∀ p, p ≠ ptr →
      (processYieldForEvent k.sched ptr type value).procs p = k.sched.procs p := by
    intro p hp
    unfold processYieldForEvent
    split
    · rfl
    · exact if_neg hp
  have hin : ∀ p, InTable k.sched p → InTable (processYieldForEvent k.sched ptr type value) p := by
    rintro p ⟨i, hi, hp⟩
    exact ⟨i, hi, (congrFun hquiet.table i).trans hp⟩
  refine ⟨fun p halive => h.sound p ((hquiet.alive p).symm.trans halive), fun p hp => ?_⟩
  obtain rfl | hne := eq_or_ne p ptr
  · exact ⟨hempty ((hquiet.alive p).symm.trans hp.2.1), hin p htable⟩
  · have hwaits : Waits k p := by
      simpa only [Waits, Kernel.signalOf, hothers p hne] using hp
    exact ⟨(h.waiting p hwaits).1, hin p (h.waiting p hwaits).2⟩

/-- **A process that waits found its queue empty.** -/
theorem Inv.processWait (h : Inv k) (htable : InTable k.sched ptr) (outEvent : UInt32) :
    Inv (processWaitForIoEvent k ptr outEvent).2 := by
  have hpopped := h.pop ptr
  have hnone : (k.pop ptr).1 = none → ptr ≠ 0 → (k.sched.procs ptr).alive = true →
      ((k.pop ptr).2.events ptr).ioEvents.count = 0 := by
    intro hp h0 halive
    obtain ⟨q, hq⟩ := h.sound ptr halive
    simp only [Kernel.pop, if_neg h0, Function.update_self] at hp ⊢
    rw [hq.pop.1] at hp
    obtain rfl := List.head?_eq_none_iff.mp hp
    exact hq.pop.2.count_eq.1
  have hsched : (k.pop ptr).2.sched = k.sched := by
    unfold Kernel.pop
    split <;> rfl
  unfold processWaitForIoEvent
  split
  · exact h
  · rename_i harg
    obtain ⟨⟨event, k₁⟩, hpop⟩ : ∃ popped, k.pop ptr = popped := ⟨_, rfl⟩
    rw [hpop] at hpopped hnone hsched ⊢
    cases event with
    | some event => exact hpopped
    | none =>
      refine hpopped.yieldForEvent (by rw [hsched]; exact htable) (fun halive => ?_) _ _
      rw [hsched] at halive
      exact hnone rfl (fun h0 => harg (.inl h0)) halive

theorem Inv.sysWait (h : Inv k) (frame : Frame) (outEvent : UInt32)
    (hs : sysWaitIoEvent k frame outEvent = some k') : Inv k' := by
  unfold sysWaitIoEvent at hs
  split at hs
  · obtain rfl := Option.some.inj hs
    exact h
  · rename_i hcurrent
    have hwait := h.processWait (inTable_current hcurrent) outEvent
    split at hs
    · rename_i event k₁ heq
      rw [heq] at hwait
      obtain rfl := Option.some.inj hs
      exact hwait
    · rename_i k₁ heq
      rw [heq] at hwait
      exact hwait.ended (forceSwitch_shrunk _ _ _ _) hs

/-! ## PCI events -/

/-- The processes to whose queue a step adds a PCI event. -/
def pciRecipients (k : Kernel) : Act → List UInt32
  | .pciRegister vendorId deviceId =>
    if k.pciListeners.length < maxPciListeners ∧
        (¬ k.pciListeners.any fun listener => listener.proc == k.sched.current) ∧
        k.pciDevices.any (pciMatches vendorId deviceId) then [k.sched.current]
    else []
  | .pciReady bus device function | .pciInterrupt bus device function =>
    match pciDeviceAt k bus device function with
    | some dev =>
      (k.pciListeners.filter fun listener =>
        pciMatches listener.vendorId listener.deviceId dev).map PciListener.proc
    | none => []
  | _ => []

section

variable {α : Type} (p : α → Bool) (target : α → UInt32) (event : α → IOEvent)

/-- The loop that both PCI functions have: queue an event for each match. -/
def queueEach (l : List α) (k : Kernel) : Kernel :=
  l.foldl (fun k a => if p a then k.push (target a) (event a) else k) k

theorem push_sched (k : Kernel) (ptr : UInt32) (event : IOEvent) :
    (k.push ptr event).sched = k.sched := by
  unfold Kernel.push
  split <;> rfl

theorem waits_push (event : IOEvent) {q : UInt32} : Waits (k.push ptr event) q ↔ Waits k q := by
  simp only [Waits, Kernel.signalOf, push_sched]

theorem Inv.pushed : ∀ {l : List α} {k : Kernel}, Inv k →
    (∀ a ∈ l, p a = true → ¬ Waits k (target a)) → Inv (queueEach p target event l k)
  | [], _, h, _ => h
  | a :: l, k, h, hl => by
    simp only [queueEach, List.foldl_cons]
    split
    · rename_i ha
      refine Inv.pushed (h.push (hl a (by simp) ha) _) fun b hb hp => ?_
      rw [waits_push]
      exact hl b (.tail a hb) hp
    · exact Inv.pushed h fun b hb => hl b (.tail a hb)

theorem holdsEvents_queueEach {ptr : UInt32} : ∀ {l : List α} {k : Kernel} {q : List IOEvent},
    HoldsEvents (k.events ptr) q → (q ≠ [] ∨ ∃ a ∈ l, p a = true ∧ target a = ptr) → ptr ≠ 0 →
    ∃ q' ≠ [], HoldsEvents ((queueEach p target event l k).events ptr) q'
  | [], k, q, hq, hor, _ => by
    obtain hne | ⟨a, ha, -⟩ := hor
    · exact ⟨q, hne, hq⟩
    · cases ha
  | a :: l, k, q, hq, hor, h0 => by
    simp only [queueEach, List.foldl_cons]
    by_cases ha : p a = true ∧ target a = ptr
    · obtain ⟨hp, rfl⟩ := ha
      rw [if_pos hp]
      refine holdsEvents_queueEach (q := pushBounded maxEventQueueSize q (event a)) ?_
        (.inl (by simp [pushBounded])) h0
      simp only [Kernel.push, if_neg h0, Function.update_self]
      exact hq.push _
    · have hor' : q ≠ [] ∨ ∃ b ∈ l, p b = true ∧ target b = ptr := by
        refine hor.imp_right ?_
        rintro ⟨b, hb, hpb⟩
        obtain rfl | hb := List.mem_cons.mp hb
        · exact absurd hpb ha
        · exact ⟨b, hb, hpb⟩
      split
      · rename_i hp
        have hne : ptr ≠ target a := fun he => ha ⟨hp, he.symm⟩
        refine holdsEvents_queueEach (q := q) ?_ hor' h0
        unfold Kernel.push
        split
        · exact hq
        · simp only [Function.update_of_ne hne]
          exact hq
      · exact holdsEvents_queueEach hq hor' h0

theorem queueEach_sched : ∀ (l : List α) (k : Kernel),
    (queueEach p target event l k).sched = k.sched
  | [], _ => rfl
  | a :: l, k => by
    simp only [queueEach, List.foldl_cons]
    split
    · exact (queueEach_sched l _).trans (push_sched _ _ _)
    · exact queueEach_sched l k

/-- **A PCI event for a waiting process wakes nobody.** -/
theorem Inv.lostWakeup_queueEach {l : List α} {a : α} (h : Inv k) (hw : Waits k ptr) (ha : a ∈ l)
    (hp : p a = true) (ht : target a = ptr) : LostWakeup (queueEach p target event l k) ptr := by
  obtain ⟨q, hq⟩ := h.sound ptr hw.2.1
  obtain ⟨q', hne, hq'⟩ := holdsEvents_queueEach p target event hq (.inr ⟨a, ha, hp, ht⟩) hw.1
  refine ⟨?_, ?_⟩
  · simpa only [Waits, Kernel.signalOf, queueEach_sched] using hw
  · rw [hq'.count_eq.1]
    have := List.length_pos_iff.mpr hne
    omega

end

theorem pciRegister_eq (k : Kernel) (proc : UInt32) (vendorId deviceId : UInt16) :
    pciRegisterProcessListener k proc vendorId deviceId =
      if proc ≠ 0 ∧ k.pciListeners.length < maxPciListeners ∧
          ¬ k.pciListeners.any fun listener => listener.proc == proc then
        queueEach (pciMatches vendorId deviceId) (fun _ => proc) (pciEvent · pciDeviceAdded)
          k.pciDevices
          { k with pciListeners := k.pciListeners ++ [PciListener.mk proc vendorId deviceId] }
      else if proc = 0 ∨ maxPciListeners ≤ k.pciListeners.length then k
      else { k with pciListeners := updateFilter proc vendorId deviceId k.pciListeners } := by
  unfold pciRegisterProcessListener
  by_cases h0 : proc = 0
  · simp [h0]
  by_cases hfull : maxPciListeners ≤ k.pciListeners.length
  · simp [h0, hfull, Nat.not_lt.mpr hfull]
  by_cases hany : (k.pciListeners.any fun listener => listener.proc == proc) = true
  · simp only [h0, hfull, hany, if_true, if_false, not_true_eq_false, and_false, or_self]
  · simp only [h0, hfull, hany, Nat.not_le.mp hfull, if_false, ne_eq, not_false_eq_true]
    rfl

theorem pciNotify_eq {eventType : Nat} {bus device function : UInt8} {dev : PciDevice}
    (h : pciDeviceAt k bus device function = some dev) :
    pciNotify eventType k bus device function =
      queueEach (fun listener => pciMatches listener.vendorId listener.deviceId dev)
        PciListener.proc (fun _ => pciEvent dev eventType) k.pciListeners k := by
  rw [pciNotify, h]
  rfl

/-- No PCI event is queued to a waiting process. -/
def Heeds (k : Kernel) (act : Act) : Prop := ∀ ptr ∈ pciRecipients k act, ¬ Waits k ptr

theorem Inv.pciRegister {vendorId deviceId : UInt16} (h : Inv k)
    (hheeds : Heeds k (.pciRegister vendorId deviceId)) :
    Inv (pciRegisterProcessListener k k.sched.current vendorId deviceId) := by
  rw [pciRegister_eq]
  split
  · rename_i hnew
    refine Inv.pushed _ _ _ (h.of_eq rfl rfl) fun dev hdev hmatch => hheeds _ ?_
    have hany : k.pciDevices.any (pciMatches vendorId deviceId) = true :=
      List.any_eq_true.mpr ⟨dev, hdev, hmatch⟩
    simp [pciRecipients, hnew.2, hany]
  split
  · exact h
  · exact h.of_eq rfl rfl

theorem Inv.pciNotify {eventType : Nat} {bus device function : UInt8} (h : Inv k)
    (hheeds : Heeds k (.pciReady bus device function)) :
    Inv (Delivery.pciNotify eventType k bus device function) := by
  cases hdev : pciDeviceAt k bus device function with
  | none =>
    rw [Delivery.pciNotify, hdev]
    exact h
  | some dev =>
    rw [pciNotify_eq hdev]
    refine Inv.pushed _ _ _ h fun listener hmem hmatch => hheeds _ ?_
    simp only [pciRecipients, hdev, List.mem_map, List.mem_filter]
    exact ⟨listener, ⟨hmem, hmatch⟩, rfl⟩

theorem Inv.lostWakeup_pciRegister {vendorId deviceId : UInt16} (h : Inv k) (hw : Waits k ptr)
    (hmem : ptr ∈ pciRecipients k (.pciRegister vendorId deviceId)) :
    LostWakeup (pciRegisterProcessListener k k.sched.current vendorId deviceId) ptr := by
  simp only [pciRecipients] at hmem
  split at hmem
  · rename_i hnew
    obtain rfl := List.mem_singleton.mp hmem
    obtain ⟨dev, hdev, hmatch⟩ := List.any_eq_true.mp hnew.2.2
    rw [pciRegister_eq, if_pos ⟨hw.1, hnew.1, hnew.2.1⟩]
    exact Inv.lostWakeup_queueEach _ _ _ (h.of_eq rfl rfl) hw hdev hmatch rfl
  · cases hmem

theorem Inv.lostWakeup_pciNotify {eventType : Nat} {bus device function : UInt8} (h : Inv k)
    (hw : Waits k ptr) (hmem : ptr ∈ pciRecipients k (.pciReady bus device function)) :
    LostWakeup (Delivery.pciNotify eventType k bus device function) ptr := by
  simp only [pciRecipients] at hmem
  split at hmem
  · rename_i dev hdev
    obtain ⟨listener, hlistener, rfl⟩ := List.mem_map.mp hmem
    obtain ⟨hl, hmatch⟩ := List.mem_filter.mp hlistener
    rw [pciNotify_eq hdev]
    exact Inv.lostWakeup_queueEach _ _ _ h hw hl hmatch rfl
  · cases hmem

/-! ## Runs -/

/-- **What one step preserves.** -/
theorem Inv.next {act : Act} (h : Inv k) (hheeds : Heeds k act) (hs : step k act = some k') :
    Inv k' := by
  cases act with
  | poll outEvent =>
    obtain rfl := Option.some.inj hs
    unfold processPollIoEvent
    split
    · exact h
    · exact h.pop _
  | wait frame outEvent => exact h.sysWait frame outEvent hs
  | yield frame => exact h.ended (forceSwitch_shrunk _ _ _ _) hs
  | tick frame =>
    exact h.ended (timerHandler_shrunk frame.trampoline frame.regs k.sched frame.mem) hs
  | exit => exact (h.kill k.sched.current).ended (exitSwitch_shrunk _ _) hs
  | start entry stackSize procPtr stackPtr =>
    obtain rfl := Option.some.inj hs
    by_cases h0 : procPtr = 0
    · simp only [h0, if_true, kStartProcess]
      exact h
    · simp only [h0, if_false]
      exact h.start h0 (kStartProcess_starts k.sched h0 entry stackSize stackPtr)
  | becomeShell =>
    simp only [step] at hs
    split at hs
    · obtain rfl := Option.some.inj hs
      exact h
    · obtain rfl := Option.some.inj hs
      refine Inv.setForeground ?_ _
      exact h.of_eq rfl rfl
  | key event => obtain rfl := Option.some.inj hs; exact h.keyboard event
  | mouse event => obtain rfl := Option.some.inj hs; exact h.mouse event
  | setForeground proc => obtain rfl := Option.some.inj hs; exact h.setForeground proc
  | restoreForeground owner => obtain rfl := Option.some.inj hs; exact h.restoreForeground owner
  | kill proc => obtain rfl := Option.some.inj hs; exact h.kill proc
  | pciRegister vendorId deviceId => obtain rfl := Option.some.inj hs; exact h.pciRegister hheeds
  | pciUnregister =>
    obtain rfl := Option.some.inj hs
    unfold pciUnregisterProcessListener
    split
    · exact h
    · exact h.of_eq rfl rfl
  | pciReady bus device function => obtain rfl := Option.some.inj hs; exact h.pciNotify hheeds
  | pciInterrupt bus device function => obtain rfl := Option.some.inj hs; exact h.pciNotify hheeds

/-- **A step that does not heed the rule loses a wakeup.** -/
theorem Inv.lostWakeup_step {act : Act} (h : Inv k) (hw : Waits k ptr)
    (hmem : ptr ∈ pciRecipients k act) : ∃ k', step k act = some k' ∧ LostWakeup k' ptr := by
  cases act with
  | pciRegister vendorId deviceId => exact ⟨_, rfl, h.lostWakeup_pciRegister hw hmem⟩
  | pciReady bus device function => exact ⟨_, rfl, h.lostWakeup_pciNotify hw hmem⟩
  | pciInterrupt bus device function => exact ⟨_, rfl, h.lostWakeup_pciNotify hw hmem⟩
  | _ => cases hmem

/-- Every step of a run heeds the rule. -/
def Heeded : List Act → Kernel → Prop
  | [], _ => True
  | act :: acts, k => Heeds k act ∧ ∀ k' ∈ step k act, Heeded acts k'

theorem visited_eq (acts : List Act) : ∀ k, visited acts k = Runs.visited step acts k := by
  induction acts with
  | nil => exact fun _ => rfl
  | cons act acts ih =>
    intro k
    rw [visited, Runs.visited]
    cases step k act with
    | none => rfl
    | some k' => exact congrArg (k :: ·) (ih k')

theorem heeded_iff (acts : List Act) : ∀ k, Heeded acts k ↔ Runs.Heeded step Heeds acts k := by
  induction acts with
  | nil => exact fun _ => Iff.rfl
  | cons act acts ih => exact fun k => and_congr_right fun _ => forall₂_congr fun k' _ => ih k'

theorem wakeup_rule : Runs.Rule step Inv (fun k => ∀ ptr, ¬ LostWakeup k ptr) Heeds where
  sound := fun _ h => h.no_lost_wakeup
  next := fun _ _ _ h ha hs => h.next ha hs
  fails := by
    intro k act h hnot
    rw [Heeds] at hnot
    push Not at hnot
    obtain ⟨ptr, hmem, hw⟩ := hnot
    obtain ⟨k', hs, hlost⟩ := h.lostWakeup_step hw hmem
    exact ⟨k', hs, fun hnone => hnone ptr hlost⟩

theorem Inv.visited_iff (acts : List Act) {k : Kernel} (h : Inv k) :
    (∀ k' ∈ visited acts k, ∀ ptr, ¬ LostWakeup k' ptr) ↔ Heeded acts k := by
  rw [visited_eq, heeded_iff]
  exact wakeup_rule.visited_iff acts h

/-- **Wakeups are lost to PCI events alone.** In a run from boot, no state has
a live process that holds the hook of its wait beside a queued event, exactly
when no step queues a PCI event to a process that waits before it. -/
theorem no_lost_wakeup_iff_heeded (devices : List PciDevice) (acts : List Act) :
    (∀ k ∈ visited acts (booted devices), ∀ ptr, ¬ LostWakeup k ptr) ↔
      Heeded acts (booted devices) :=
  (inv_booted devices).visited_iff acts

/-- A process listens for every device, waits for an event, and the only
device of the machine interrupts: the event is queued and the process sleeps
on. -/
theorem interrupt_does_not_wake_listener :
    ¬ ∀ k ∈ visited
        [.start 0x400000 4096 0x1000 0x8000, .pciRegister 0xFFFF 0xFFFF, .poll 0x9000,
          .wait ⟨0x300000, 0x7000, fun _ => 0⟩ 0x9000, .pciInterrupt 0 3 0]
        (booted [⟨0, 3, 0, 0x8086, 0x100E, 2, 0⟩]), ∀ ptr, ¬ LostWakeup k ptr := by
  intro h
  have hlost : (visited
      [.start 0x400000 4096 0x1000 0x8000, .pciRegister 0xFFFF 0xFFFF, .poll 0x9000,
        .wait ⟨0x300000, 0x7000, fun _ => 0⟩ 0x9000, .pciInterrupt 0 3 0]
      (booted [⟨0, 3, 0, 0x8086, 0x100E, 2, 0⟩])).any (fun k => decide (LostWakeup k 0x1000)) =
        true := by
    decide +kernel
  obtain ⟨k, hk, hlost⟩ := List.any_eq_true.mp hlost
  exact h k hk 0x1000 (of_decide_eq_true hlost)

end ContinuumOS.Sched.Wakeups
