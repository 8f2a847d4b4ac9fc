import ContinuumOS.Sched.Foreground

/-! # Waiting for a tick

A process reads the clock, adds to it and waits with a `TIME_REACHED` hook for
the tick it computed. The timer takes away the hooks for the tick it has just
counted and no others. So a hook that was registered for a tick still to come
is taken in time, and one that was registered too late stays for good: no wait
is missed exactly when each is registered before its tick. -/
namespace ContinuumOS.Sched.Timers
open ContinuumOS.Lib.Stack ContinuumOS.Lib.Runs
open ContinuumOS.Sched.Scheduler ContinuumOS.Sched.RoundTrip ContinuumOS.Sched.Wakeups
open ContinuumOS.Sched.Delivery hiding step visited
open ContinuumOS.Sched.Resume (inTable_current)
open ContinuumOS.Sched.Foreground (dispatchKeyboardEvent_eq dispatchMouseEvent_eq)

/-- `sys_yield_for_event_with_regs` -/
def sysYieldForEvent (k : Kernel) (frame : Frame) (type : HookType) (value : UInt64) :
    Option Kernel :=
  if k.sched.current = 0 then some k
  else
    let s := processYieldForEvent k.sched k.sched.current type value
    k.ended (schedulerForceSwitchWithRegs frame.trampoline frame.regs s frame.mem)

/-- The kernel, and what `get_ticks` last told each process. -/
structure Sys where
  kernel : Kernel
  clock : UInt32 → Option UInt32

def booted (devices : List PciDevice) : Sys := ⟨Delivery.booted devices, fun _ => none⟩

/-- Everything the kernel does, the process that runs reads the clock, or it
waits for the tick `delta` after the one it read. -/
inductive Act
  | call (act : Delivery.Act)
  | getTicks
  | yieldFor (delta : UInt32) (frame : Frame)

def step (s : Sys) : Act → Option Sys
  | .call act => (Delivery.step s.kernel act).map fun k => ⟨k, s.clock⟩
  | .getTicks => some ⟨s.kernel,
      Function.update s.clock s.kernel.sched.current (some s.kernel.sched.timerTicks)⟩
  | .yieldFor delta frame =>
    (s.clock s.kernel.sched.current).bind fun ticks =>
      (sysYieldForEvent s.kernel frame .timeReached (ticks + delta).toUInt64).map fun k =>
        ⟨k, s.clock⟩

/-- A live process holds a hook for tick `t`. -/
def Pending (s : SchedState) (ptr : UInt32) (t : UInt64) : Prop :=
  (s.procs ptr).alive = true ∧ ⟨.timeReached, t⟩ ∈ (s.procs ptr).hooks

/-- No live process waits for a tick that is over. -/
def NoneMissed (s : Sys) : Prop :=
  ∀ ptr t, Pending s.kernel.sched ptr t → ¬ t ≤ s.kernel.sched.timerTicks.toUInt64

/-- A wait is registered before its tick, or not at all: the process is dead or
its eight hooks are taken. -/
def Heeds (s : Sys) : Act → Prop
  | .yieldFor delta _ =>
    ∀ ticks ∈ s.clock s.kernel.sched.current,
      let p := s.kernel.sched.procs s.kernel.sched.current
      s.kernel.sched.current ≠ 0 → p.alive = true → p.hooks.length < maxHooksPerProcess →
        s.kernel.sched.timerTicks < ticks + delta
  | _ => True

/-! ## What leaves the clock alone -/

/-- From `s` to `t` the clock stands, and no process waits that did not. -/
structure Calm (s t : SchedState) : Prop where
  ticks : t.timerTicks = s.timerTicks
  table : ∀ p, p ≠ 0 → InTable s p → InTable t p
  pending : ∀ p v, Pending t p v → Pending s p v

theorem Calm.refl (s : SchedState) : Calm s s := ⟨rfl, fun _ _ h => h, fun _ _ h => h⟩

theorem Calm.trans {s t u : SchedState} (h : Calm s t) (h' : Calm t u) : Calm s u :=
  ⟨h'.ticks.trans h.ticks, fun p h0 hp => h'.table p h0 (h.table p h0 hp),
    fun p v hp => h.pending p v (h'.pending p v hp)⟩

theorem Shrinks.inTable {s t : SchedState} (h : Shrinks s t) {p : UInt32} (hp : InTable s p) :
    InTable t p := by
  obtain ⟨i, hi, hp⟩ := hp
  exact ⟨i, hi, (congrFun h.table i).trans hp⟩

theorem Shrinks.pending {s t : SchedState} (h : Shrinks s t) {p : UInt32} {v : UInt64}
    (hp : Pending t p v) : Pending s p v := ⟨h.alive p hp.1, h.hooks p hp.2⟩

theorem Shrinks.calm {s t : SchedState} (h : Shrinks s t) (ht : t.timerTicks = s.timerTicks) :
    Calm s t := ⟨ht, fun _ _ hp => Shrinks.inTable h hp, fun _ _ hp => Shrinks.pending h hp⟩

theorem resume_ticks (type : HookType) (value : UInt64) (is : List Nat) : ∀ s : SchedState,
    (is.foldl (resumeEntry type value) s).timerTicks = s.timerTicks := by
  induction is with
  | nil => exact fun _ => rfl
  | cons i is ih =>
    intro s
    rw [List.foldl_cons, ih]
    simp only [resumeEntry]
    split <;> rfl

theorem calm_resume (s : SchedState) (type : HookType) (value : UInt64) :
    Calm s (schedulerResumeProcessesForEvent s type value) :=
  Shrinks.calm (shrinks_resumeProcesses s type value) (resume_ticks type value _ s)

theorem lottery_ticks (s : SchedState) (ok : Process → Bool) :
    (lottery s ok).2.timerTicks = s.timerTicks := by
  simp only [lottery]
  split
  · rfl
  split <;> rfl

/-- A handler that leaves the clock alone; it panics only when the current
process is dead. -/
inductive Switched (s : SchedState) : Outcome → Prop
  | ret {t : SchedState} {m : Ram} (calm : Calm s t)
      (kept : ∀ p v, Pending s p v → Pending t p v) : Switched s (.ret t m)
  | panic (h : (s.procs s.current).alive = false) : Switched s .panic

theorem saveContext_pending (s : SchedState) (m : Ram) (regs : UInt32) (p : UInt32) (v : UInt64) :
    Pending (saveContext s m regs) p v ↔ Pending s p v := by
  simp only [saveContext]
  split
  · by_cases hp : p = s.current
    · subst hp
      simp [Pending, SchedState.setProc]
    · simp [Pending, SchedState.setProc, hp]
  · rfl

theorem saveContext_ticks (s : SchedState) (m : Ram) (regs : UInt32) :
    (saveContext s m regs).timerTicks = s.timerTicks := by
  simp only [saveContext]
  split <;> rfl

theorem nextProcess_ticks (s : SchedState) : (schedulerNextProcess s).2.timerTicks = s.timerTicks := by
  unfold schedulerNextProcess
  split
  · rfl
  · exact lottery_ticks s runnable

theorem contextSwitch_switched (tr regs : UInt32) (s : SchedState) (m : Ram) :
    Switched s (contextSwitch tr regs s m) := by
  have hsaved := shrinks_saveContext s m regs
  have hnext := shrinks_nextProcess (saveContext s m regs)
  have hticks : (schedulerNextProcess (saveContext s m regs)).2.timerTicks = s.timerTicks :=
    (nextProcess_ticks _).trans (saveContext_ticks s m regs)
  have hcalm := Shrinks.calm (hsaved.trans hnext) hticks
  have hprocs := (schedulerNextProcess_spec (saveContext s m regs)).1
  have hkept : ∀ p v, Pending s p v →
      Pending (schedulerNextProcess (saveContext s m regs)).2 p v := by
    intro p v hp
    rw [Pending, hprocs]
    exact (saveContext_pending s m regs p v).mpr hp
  have halive : ((schedulerNextProcess (saveContext s m regs)).2.procs s.current).alive =
      (s.procs s.current).alive := by
    rw [hprocs, (saveContext_same s m regs).2.1]
  simp only [contextSwitch]
  split
  · exact .ret (.refl s) fun _ _ h => h
  split
  · split
    · exact .ret hcalm hkept
    · rename_i hdead
      exact .panic (by rw [halive] at hdead; exact Bool.eq_false_iff.mpr hdead)
  split
  · exact .ret hcalm hkept
  · exact .ret ⟨hcalm.ticks, hcalm.table, hcalm.pending⟩ hkept

theorem forceSwitch_switched (tr regs : UInt32) (s : SchedState) (m : Ram) :
    Switched s (schedulerForceSwitchWithRegs tr regs s m) := by
  simp only [schedulerForceSwitchWithRegs]
  split
  · exact contextSwitch_switched tr regs s m
  · exact .ret (.refl s) fun _ _ h => h

theorem Calm.ended {k k' : Kernel} {s : SchedState} {o : Outcome} (h : Calm s k.sched)
    (ho : Switched k.sched o) (he : k.ended o = some k') : Calm s k'.sched := by
  cases ho with
  | ret hc _ => obtain rfl := Option.some.inj he; exact h.trans hc
  | panic => cases he

/-! ## Events and the foreground -/

theorem calm_push (k : Kernel) (ptr : UInt32) (event : IOEvent) :
    Calm k.sched (k.push ptr event).sched := by
  rw [Wakeups.push_sched]
  exact .refl _

theorem calm_deliver (k : Kernel) (ptr : UInt32) (event : IOEvent) :
    Calm k.sched (k.deliver ptr event).sched := by
  have hresume : ∀ (l : Kernel) (value : UInt64), Calm l.sched (l.resume .signal value).sched :=
    fun l value => by simpa only [Kernel.resume] using calm_resume l.sched .signal value
  exact (calm_push k ptr event).trans (hresume _ _)

theorem calm_focus (k : Kernel) (ptr : UInt32) (code value : Int) :
    Calm k.sched (dispatchFocusEvent k ptr code value).sched := by
  unfold dispatchFocusEvent
  split
  · exact .refl _
  · exact calm_deliver _ _ _

theorem calm_keyboard (k : Kernel) (event : KeyboardEvent) :
    Calm k.sched (dispatchKeyboardEvent k event).sched := by
  rw [dispatchKeyboardEvent_eq]
  split
  · exact .refl _
  · exact calm_deliver _ _ _

theorem calm_mouse (k : Kernel) (event : MouseEvent) :
    Calm k.sched (dispatchMouseEvent k event).sched := by
  rw [dispatchMouseEvent_eq]
  split
  · exact .refl _
  · exact calm_deliver _ _ _

theorem calm_switchForeground (k : Kernel) (prev next : UInt32) :
    Calm k.sched (schedulerSwitchForeground k prev next).sched := by
  unfold schedulerSwitchForeground
  split
  · exact .refl _
  · have hprev : ∀ value, Calm k.sched
        (if prev ≠ 0 then dispatchFocusEvent { k with foregroundProc := next } prev focusLost value
        else { k with foregroundProc := next }).sched := by
      intro value
      split
      · exact calm_focus { k with foregroundProc := next } _ _ _
      · exact .refl _
    dsimp only
    split
    · exact (hprev _).trans (calm_focus _ _ _ _)
    · exact hprev _

theorem calm_setForeground (k : Kernel) (proc : UInt32) :
    Calm k.sched (schedulerSetForeground k proc).sched := by
  unfold schedulerSetForeground
  split
  · exact .refl _
  · dsimp only
    refine .trans ?_ (calm_switchForeground _ _ _)
    split <;> exact .refl _

theorem calm_restoreForeground (k : Kernel) (owner : UInt32) :
    Calm k.sched (schedulerRestoreForeground k owner).sched := by
  unfold schedulerRestoreForeground
  split
  · exact .refl _
  · dsimp only
    refine .trans ?_ (calm_switchForeground _ _ _)
    split
    · exact Shrinks.calm (shrinks_setProc rfl (fun h => h) (List.nil_subset _)) rfl
    · exact .refl _

theorem calm_kill (k : Kernel) (ptr : UInt32) : Calm k.sched (killProcess k ptr).sched := by
  unfold killProcess
  split
  · exact .refl _
  · refine .trans ?_ (calm_restoreForeground _ _)
    exact Shrinks.calm (shrinks_setProc rfl (fun h => by cases h) fun _ h => h) rfl

theorem queueEach_sched {α : Type} (p : α → Bool) (target : α → UInt32) (event : α → IOEvent)
    (l : List α) : ∀ k : Kernel, (queueEach p target event l k).sched = k.sched := by
  induction l with
  | nil => exact fun _ => rfl
  | cons a l ih =>
    intro k
    simp only [queueEach, List.foldl_cons] at ih ⊢
    rw [ih]
    split
    · exact Wakeups.push_sched _ _ _
    · rfl

theorem pciRegister_sched (k : Kernel) (proc : UInt32) (vendorId deviceId : UInt16) :
    (pciRegisterProcessListener k proc vendorId deviceId).sched = k.sched := by
  rw [pciRegister_eq]
  split
  · rw [queueEach_sched]
  split <;> rfl

theorem pciNotify_sched (eventType : Nat) (k : Kernel) (bus device function : UInt8) :
    (pciNotify eventType k bus device function).sched = k.sched := by
  cases hdev : pciDeviceAt k bus device function with
  | none => rw [pciNotify, hdev]
  | some dev => rw [pciNotify_eq hdev, queueEach_sched]

/-! ## Waiting and starting -/

theorem yieldForEvent_pending {s : SchedState} {ptr : UInt32} {type : HookType} {value : UInt64}
    {p : UInt32} {v : UInt64} (h : Pending (processYieldForEvent s ptr type value) p v) :
    Pending s p v ∨ (p = ptr ∧ type = .timeReached ∧ v = value ∧ (s.procs ptr).alive = true ∧
      (s.procs ptr).hooks.length < maxHooksPerProcess) := by
  unfold processYieldForEvent at h
  split at h
  · exact .inl h
  · by_cases hp : p = ptr
    · subst hp
      simp only [Pending, SchedState.setProc, if_true, processRegisterHook] at h
      split at h
      · exact .inl h
      · rename_i hroom
        obtain ⟨halive, hmem⟩ := h
        rcases List.mem_append.mp hmem with hmem | hmem
        · exact .inl ⟨halive, hmem⟩
        · obtain ⟨rfl, rfl⟩ := Hook.mk.inj (List.mem_singleton.mp hmem)
          exact .inr ⟨rfl, rfl, rfl, halive, Nat.not_le.mp hroom⟩
    · left
      simpa only [Pending, SchedState.setProc, if_neg hp] using h

theorem yieldForEvent_ticks (s : SchedState) (ptr : UInt32) (type : HookType) (value : UInt64) :
    (processYieldForEvent s ptr type value).timerTicks = s.timerTicks := by
  unfold processYieldForEvent
  split <;> rfl

theorem yieldForEvent_inTable {s : SchedState} {ptr : UInt32} {type : HookType} {value : UInt64}
    {p : UInt32} (h : InTable s p) : InTable (processYieldForEvent s ptr type value) p := by
  unfold processYieldForEvent
  split <;> exact h

theorem calm_waitSignal (s : SchedState) (ptr : UInt32) (value : UInt64) :
    Calm s (processYieldForEvent s ptr .signal value) where
  ticks := yieldForEvent_ticks s ptr .signal value
  table _ _ := yieldForEvent_inTable
  pending p v h := (yieldForEvent_pending h).resolve_right fun hn => by cases hn.2.1

theorem pop_sched (k : Kernel) (ptr : UInt32) : (k.pop ptr).2.sched = k.sched := by
  unfold Kernel.pop
  split <;> rfl

theorem calm_processWait (k : Kernel) (ptr outEvent : UInt32) :
    Calm k.sched (processWaitForIoEvent k ptr outEvent).2.sched := by
  unfold processWaitForIoEvent
  have hpop := pop_sched k ptr
  split
  · exact .refl _
  · split
    · rename_i heq
      rw [heq] at hpop
      rw [hpop]
      exact .refl _
    · rename_i heq
      rw [heq] at hpop
      rw [← hpop]
      exact calm_waitSignal _ _ _

theorem calm_sysWait {k k' : Kernel} {frame : Frame} {outEvent : UInt32}
    (hs : sysWaitIoEvent k frame outEvent = some k') : Calm k.sched k'.sched := by
  unfold sysWaitIoEvent at hs
  have hwait := calm_processWait k k.sched.current outEvent
  split at hs
  · obtain rfl := Option.some.inj hs
    exact .refl _
  · split at hs
    · rename_i heq
      obtain rfl := Option.some.inj hs
      rwa [heq] at hwait
    · rename_i heq
      rw [heq] at hwait
      exact hwait.ended (forceSwitch_switched _ _ _ _) hs

theorem calm_exit {k k' : Kernel}
    (hs : k.ended (schedulerExitCurrentAndSwitch k.sched fun _ => 0) = some k') :
    Calm k.sched k'.sched := by
  have hl := Shrinks.calm (shrinks_lottery k.sched fun p => p.alive)
    (lottery_ticks k.sched fun p => p.alive)
  simp only [schedulerExitCurrentAndSwitch] at hs
  generalize lottery k.sched (fun p => p.alive) = r at *
  split at hs
  · cases hs
  · obtain rfl := Option.some.inj hs
    exact ⟨hl.ticks, hl.table, hl.pending⟩

theorem kStartProcess_ticks (s : SchedState) (entry stackSize procPtr stackPtr : UInt32) :
    (kStartProcess entry stackSize procPtr stackPtr s).2.timerTicks = s.timerTicks := by
  unfold kStartProcess
  split
  · rfl
  · dsimp only
    split
    · rfl
    · unfold schedulerAddProcess
      split
      · rfl
      split <;> rfl

theorem calm_start (s : SchedState) {procPtr : UInt32} (h0 : procPtr ≠ 0)
    (entry stackSize stackPtr : UInt32) :
    Calm s (kStartProcess entry stackSize procPtr stackPtr s).2 := by
  have hs := kStartProcess_starts s h0 entry stackSize stackPtr
  refine ⟨kStartProcess_ticks s entry stackSize procPtr stackPtr, ?_, fun p v hp => ?_⟩
  · rintro p hp ⟨i, hi, rfl⟩
    exact ⟨i, hi, hs.table i hi hp⟩
  · by_cases hne : p = procPtr
    · have hhooks := hp.2
      rw [hne, hs.hooks] at hhooks
      cases hhooks
    · rwa [Pending, hs.others p hne] at hp

/-- **Only a tick and a wait for one matter**: every other step leaves the clock
and the waits for it alone. -/
theorem calm_step {k k' : Kernel} {act : Delivery.Act} (htick : ∀ frame, act ≠ .tick frame)
    (hs : Delivery.step k act = some k') : Calm k.sched k'.sched := by
  cases act with
  | poll outEvent =>
    obtain rfl := Option.some.inj hs
    unfold processPollIoEvent
    split
    · exact .refl _
    · rw [pop_sched]
      exact .refl _
  | wait frame outEvent => exact calm_sysWait hs
  | yield frame => exact Calm.ended (.refl _) (forceSwitch_switched _ _ _ _) hs
  | tick frame => exact absurd rfl (htick frame)
  | exit => exact (calm_kill k k.sched.current).trans (calm_exit hs)
  | start entry stackSize procPtr stackPtr =>
    obtain rfl := Option.some.inj hs
    by_cases h0 : procPtr = 0
    · simp only [h0, if_true, kStartProcess]
      exact .refl _
    · simp only [h0, if_false]
      exact calm_start k.sched h0 entry stackSize stackPtr
  | becomeShell =>
    simp only [Delivery.step] at hs
    split at hs <;> obtain rfl := Option.some.inj hs
    · exact .refl _
    · exact calm_setForeground { k with shellProcess := k.sched.current } k.sched.current
  | key event => obtain rfl := Option.some.inj hs; exact calm_keyboard k event
  | mouse event => obtain rfl := Option.some.inj hs; exact calm_mouse k event
  | setForeground proc => obtain rfl := Option.some.inj hs; exact calm_setForeground k proc
  | restoreForeground owner => obtain rfl := Option.some.inj hs; exact calm_restoreForeground k owner
  | kill proc => obtain rfl := Option.some.inj hs; exact calm_kill k proc
  | pciRegister vendorId deviceId =>
    obtain rfl := Option.some.inj hs
    rw [pciRegister_sched]
    exact .refl _
  | pciUnregister =>
    obtain rfl := Option.some.inj hs
    unfold pciUnregisterProcessListener
    split <;> exact .refl _
  | pciReady bus device function =>
    obtain rfl := Option.some.inj hs
    rw [pciNotifyDeviceReady, pciNotify_sched]
    exact .refl _
  | pciInterrupt bus device function =>
    obtain rfl := Option.some.inj hs
    rw [pciNotifyInterrupt, pciNotify_sched]
    exact .refl _

/-! ## Ticks -/

/-- Every wait is for a tick to come, by a process of the table. -/
def Armed (s : SchedState) : Prop :=
  ∀ p v, Pending s p v →
    p ≠ 0 ∧ InTable s p ∧ s.timerTicks.toNat < v.toNat ∧ v.toNat < 2 ^ 32

theorem Armed.calm {s t : SchedState} (h : Armed s) (hc : Calm s t) : Armed t := by
  intro p v hp
  obtain ⟨h0, htable, hlater, hbound⟩ := h p v (hc.pending p v hp)
  exact ⟨h0, hc.table p h0 htable, by rw [hc.ticks]; exact hlater, hbound⟩

theorem Armed.not_le {s : SchedState} (h : Armed s) {p : UInt32} {v : UInt64}
    (hp : Pending s p v) : ¬ v ≤ s.timerTicks.toUInt64 := by
  obtain ⟨-, -, hlater, -⟩ := h p v hp
  rw [UInt64.le_iff_toNat_le, UInt32.toNat_toUInt64]
  omega

/-- **A tick takes the hooks that wait for it**, and the others wait for a later
one. -/
theorem Armed.tick {s : SchedState} (h : Armed s) :
    Armed (schedulerResumeProcessesForEvent { s with timerTicks := s.timerTicks + 1 } .timeReached
      (s.timerTicks + 1).toUInt64) := by
  intro p v hp
  have hcalm := calm_resume { s with timerTicks := s.timerTicks + 1 } .timeReached
    (s.timerTicks + 1).toUInt64
  obtain ⟨h0, htable, hlater, hbound⟩ := h p v (hcalm.pending p v hp)
  have hcleared := resume_clears (s := { s with timerTicks := s.timerTicks + 1 }) h0 htable
    .timeReached (s.timerTicks + 1).toUInt64
  have hne : v ≠ (s.timerTicks + 1).toUInt64 := by
    rintro rfl
    rw [processHasMatchingHook, List.any_eq_false] at hcleared
    exact hcleared _ hp.2 (by simp [Hook.matches])
  refine ⟨h0, hcalm.table p h0 htable, ?_, hbound⟩
  rw [hcalm.ticks]
  have hne' : v.toNat ≠ (s.timerTicks + 1).toNat := fun he =>
    hne (UInt64.toNat_inj.mp (he.trans (UInt32.toNat_toUInt64 _).symm))
  -- the clock does not wrap while a later tick is waited for
  have hticks : (s.timerTicks + 1).toNat = s.timerTicks.toNat + 1 := by
    rw [UInt32.toNat_add]
    exact Nat.mod_eq_of_lt (by simp only [UInt32.reduceToNat]; omega)
  change (s.timerTicks + 1).toNat < v.toNat
  omega

theorem onTick_switched (tr regs : UInt32) (s : SchedState) (m : Ram) :
    ∃ t, Calm s t ∧ Switched t (schedulerOnTick tr regs s m) := by
  simp only [schedulerOnTick]
  split
  · exact ⟨{ s with lastRegs := regs, quantumCounter := 0 },
      ⟨rfl, fun _ _ h => h, fun _ _ h => h⟩, contextSwitch_switched tr regs _ m⟩
  · exact ⟨{ s with lastRegs := regs, quantumCounter := s.quantumCounter + 1 },
      ⟨rfl, fun _ _ h => h, fun _ _ h => h⟩, .ret (.refl _) fun _ _ h => h⟩

theorem Armed.timer {k k' : Kernel} {frame : Frame} (h : Armed k.sched)
    (hs : Delivery.step k (.tick frame) = some k') : Armed k'.sched := by
  simp only [Delivery.step, timerHandler] at hs
  have hticked := h.tick
  generalize schedulerResumeProcessesForEvent _ _ _ = s at *
  obtain ⟨t, hcalm, ho⟩ := onTick_switched frame.trampoline frame.regs s frame.mem
  generalize schedulerOnTick _ _ _ _ = o at *
  cases ho with
  | ret hc _ => obtain rfl := Option.some.inj hs; exact hticked.calm (hcalm.trans hc)
  | panic => cases hs

/-! ## Runs -/

theorem Armed.yieldFor {k k' : Kernel} {frame : Frame} {target : UInt32} (h : Armed k.sched)
    (hheeds : k.sched.current ≠ 0 → (k.sched.procs k.sched.current).alive = true →
      (k.sched.procs k.sched.current).hooks.length < maxHooksPerProcess →
        k.sched.timerTicks < target)
    (hs : sysYieldForEvent k frame .timeReached target.toUInt64 = some k') : Armed k'.sched := by
  unfold sysYieldForEvent at hs
  split at hs
  · obtain rfl := Option.some.inj hs
    exact h
  rename_i h0
  have hyield : Armed (processYieldForEvent k.sched k.sched.current .timeReached target.toUInt64) := by
    intro p v hp
    rw [yieldForEvent_ticks]
    rcases yieldForEvent_pending hp with hp | ⟨rfl, -, rfl, halive, hroom⟩
    · obtain ⟨hp0, htable, hlater⟩ := h p v hp
      exact ⟨hp0, yieldForEvent_inTable htable, hlater⟩
    · have hlater := UInt32.lt_iff_toNat_lt.mp (hheeds h0 halive hroom)
      refine ⟨h0, yieldForEvent_inTable (inTable_current h0), ?_, ?_⟩ <;>
        rw [UInt32.toNat_toUInt64]
      · exact hlater
      · exact target.toNat_lt
  dsimp only at hs
  have ho := forceSwitch_switched frame.trampoline frame.regs
    (processYieldForEvent k.sched k.sched.current .timeReached target.toUInt64) frame.mem
  generalize schedulerForceSwitchWithRegs _ _ _ _ = o at *
  cases ho with
  | ret hc _ => obtain rfl := Option.some.inj hs; exact hyield.calm hc
  | panic => cases hs

theorem armed_step {s t : Sys} {act : Act} (h : Armed s.kernel.sched) (hheeds : Heeds s act)
    (hs : step s act = some t) : Armed t.kernel.sched := by
  cases act with
  | call act =>
    obtain ⟨k, hk, rfl⟩ := Option.map_eq_some_iff.mp hs
    by_cases htick : ∃ frame, act = .tick frame
    · obtain ⟨frame, rfl⟩ := htick
      exact h.timer hk
    · exact h.calm (calm_step (fun frame he => htick ⟨frame, he⟩) hk)
  | getTicks => obtain rfl := Option.some.inj hs; exact h
  | yieldFor delta frame =>
    obtain ⟨ticks, hclock, hs⟩ := Option.bind_eq_some_iff.mp hs
    obtain ⟨k, hk, rfl⟩ := Option.map_eq_some_iff.mp hs
    exact h.yieldFor (hheeds ticks hclock) hk

theorem processHasMatchingHook_iff {p : Process} {type : HookType} {value : UInt64} :
    processHasMatchingHook p type value = true ↔ ⟨type, value⟩ ∈ p.hooks := by
  simp only [processHasMatchingHook, List.any_eq_true, Hook.matches, Bool.and_eq_true, beq_iff_eq]
  constructor
  · rintro ⟨hook, hmem, rfl, rfl⟩
    exact hmem
  · exact fun hmem => ⟨_, hmem, rfl, rfl⟩

theorem yieldForEvent_registers {s : SchedState} {ptr : UInt32} (value : UInt64)
    (halive : (s.procs ptr).alive = true) (hroom : (s.procs ptr).hooks.length < maxHooksPerProcess) :
    Pending (processYieldForEvent s ptr .timeReached value) ptr value := by
  unfold processYieldForEvent
  split
  · rename_i hmatch
    exact ⟨halive, processHasMatchingHook_iff.mp hmatch⟩
  · simp [Pending, SchedState.setProc, processRegisterHook, Nat.not_le.mpr hroom, halive]

/-- **A wait that is registered too late is missed.** -/
theorem missed_of_not_heeds {s : Sys} {act : Act} (h : ¬ Heeds s act) :
    ∃ t, step s act = some t ∧ ¬ NoneMissed t := by
  cases act with
  | call | getTicks => exact absurd trivial h
  | yieldFor delta frame =>
    simp only [Heeds, not_forall, Option.mem_def] at h
    obtain ⟨ticks, hclock, h0, halive, hroom, hlate⟩ := h
    have hpending := yieldForEvent_registers (ticks + delta).toUInt64 halive hroom
    have halive' : ((processYieldForEvent s.kernel.sched s.kernel.sched.current .timeReached
        (ticks + delta).toUInt64).procs s.kernel.sched.current).alive = true := hpending.1
    have hcurrent : (processYieldForEvent s.kernel.sched s.kernel.sched.current .timeReached
        (ticks + delta).toUInt64).current = s.kernel.sched.current :=
      (quiet_processYieldForEvent _ _ _ _).current
    have hticks := yieldForEvent_ticks s.kernel.sched s.kernel.sched.current .timeReached
      (ticks + delta).toUInt64
    have hstep : step s (.yieldFor delta frame) = (s.kernel.ended (schedulerForceSwitchWithRegs
        frame.trampoline frame.regs (processYieldForEvent s.kernel.sched s.kernel.sched.current
          .timeReached (ticks + delta).toUInt64) frame.mem)).map fun k => ⟨k, s.clock⟩ := by
      simp only [step, hclock, Option.bind_some, sysYieldForEvent, if_neg h0]
    rw [hstep]
    generalize processYieldForEvent _ _ _ _ = u at *
    have ho := forceSwitch_switched frame.trampoline frame.regs u frame.mem
    generalize schedulerForceSwitchWithRegs _ _ _ _ = o at *
    cases ho with
    | @ret v m hcalm hkept =>
      refine ⟨⟨{ s.kernel with sched := v }, s.clock⟩, rfl, fun hall => ?_⟩
      refine hall _ _ (hkept _ _ hpending) ?_
      change (ticks + delta).toUInt64 ≤ v.timerTicks.toUInt64
      rw [hcalm.ticks, hticks, UInt64.le_iff_toNat_le, UInt32.toNat_toUInt64,
        UInt32.toNat_toUInt64]
      exact Nat.not_lt.mp fun hlt => hlate (UInt32.lt_iff_toNat_lt.mpr hlt)
    | panic hdead =>
      rw [hcurrent, halive'] at hdead
      cases hdead

theorem timer_rule : Rule step (fun s => Armed s.kernel.sched) NoneMissed Heeds where
  sound := fun _ h _ _ hp => h.not_le hp
  next := fun _ _ _ h hheeds hs => armed_step h hheeds hs
  fails := fun _ _ _ h => missed_of_not_heeds h

/-- **No timed wait is missed exactly when each is registered before its tick**,
in every run from boot, whatever else the kernel does in between. -/
theorem none_missed_iff (devices : List PciDevice) (acts : List Act) :
    (∀ s ∈ visited step acts (booted devices), NoneMissed s) ↔
      Heeded step Heeds acts (booted devices) :=
  timer_rule.visited_iff acts fun _ _ hp => by cases hp.1

/-- A tick falls between reading the clock and waiting for the next tick. -/
theorem wait_after_tick_missed :
    ¬ ∀ devices acts, ∀ s ∈ visited step acts (booted devices), NoneMissed s := by
  intro h
  let frame : Frame := ⟨0x300000, 0x7000, fun _ => 0⟩
  let acts : List Act := [.call (.start 0x400000 4096 0x1000 0x8000), .getTicks, .call (.tick frame),
    .yieldFor 1 frame]
  have hrun : (acts.foldlM step (booted [])).map (fun s => ((s.kernel.sched.procs 0x1000).alive,
      (s.kernel.sched.procs 0x1000).hooks, s.kernel.sched.timerTicks)) =
        some (true, [⟨.timeReached, 1⟩], 1) := by decide +kernel
  obtain ⟨s, hs, hres⟩ := Option.map_eq_some_iff.mp hrun
  simp only [Prod.mk.injEq] at hres
  obtain ⟨halive, hhooks, hticks⟩ := hres
  refine h [] acts s (mem_visited_of_foldlM hs) 0x1000 1 ⟨halive, by rw [hhooks]; simp⟩ ?_
  rw [hticks]
  decide

end ContinuumOS.Sched.Timers
