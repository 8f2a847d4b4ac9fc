import ContinuumOS.Lib.Runs
import ContinuumOS.Sched.Wakeups

/-! # Who has the foreground

Keys and mouse events go to the foreground process. When that process is
killed, the process on top of the foreground stack comes back, dead or alive:
nothing takes a process off the stack when it exits. So the foreground stays
alive exactly as long as each killed foreground process leaves a live one on
top of the stack. -/
namespace ContinuumOS.Sched.Foreground
open ContinuumOS.Lib.Runs ContinuumOS.Sched.Events ContinuumOS.Sched.Scheduler
open ContinuumOS.Sched.RoundTrip ContinuumOS.Sched.Wakeups
open ContinuumOS.Sched.Delivery hiding step visited

/-- What may happen: processes start, live ones are put in the foreground and
killed, keys and mouse events arrive. -/
def allowed (k : Kernel) : Act → Bool
  | .setForeground proc => (k.sched.procs proc).alive
  | .kill proc => (k.sched.procs proc).alive
  | .start .. | .key _ | .mouse _ => true
  | _ => false

def step (k : Kernel) (act : Act) : Option Kernel :=
  if allowed k act then Delivery.step k act else none

def NullOrAlive (k : Kernel) (proc : UInt32) : Prop :=
  proc = 0 ∨ (k.sched.procs proc).alive = true

instance (k : Kernel) (proc : UInt32) : Decidable (NullOrAlive k proc) :=
  inferInstanceAs (Decidable (_ ∨ _))

/-- Who gets the keys and mouse events when `foreground` has the foreground. -/
def recipient (k : Kernel) (foreground : UInt32) : UInt32 :=
  if foreground ≠ 0 then foreground
  else if k.shellProcess ≠ 0 then k.shellProcess else k.sched.current

/-- Who has the foreground once `proc` is killed. -/
def heir (k : Kernel) (proc : UInt32) : UInt32 :=
  if proc = k.foregroundProc then k.foregroundStack.headD 0 else k.foregroundProc

/-- A live process, and not the one that is being killed. -/
def Survives (k : Kernel) (proc heir : UInt32) : Prop := NullOrAlive k heir ∧ (heir ≠ 0 → heir ≠ proc)

/-- A kill leaves the foreground to a process that survives it. -/
def HeedsHeir (k : Kernel) : Act → Prop
  | .kill proc => (k.sched.procs proc).alive = true → Survives k proc (heir k proc)
  | _ => True

/-- A kill leaves the events to a process that survives it. -/
def HeedsRecipient (k : Kernel) : Act → Prop
  | .kill proc => (k.sched.procs proc).alive = true → Survives k proc (recipient k (heir k proc))
  | _ => True

theorem dispatchKeyboardEvent_eq (k : Kernel) (event : KeyboardEvent) :
    dispatchKeyboardEvent k event =
      if recipient k k.foregroundProc = 0 then k
      else k.deliver (recipient k k.foregroundProc) (.keyboard event) := by
  unfold dispatchKeyboardEvent recipient
  split
  · simp [*]
  split
  · simp [*]
  · simp [ite_not]

theorem dispatchMouseEvent_eq (k : Kernel) (event : MouseEvent) :
    dispatchMouseEvent k event =
      if recipient k k.foregroundProc = 0 then k
      else k.deliver (recipient k k.foregroundProc) (.mouse
        { event with targetPid := (k.sched.procs (recipient k k.foregroundProc)).pid }) := by
  have htarget : (if (if k.foregroundProc = 0 then k.shellProcess else k.foregroundProc) = 0 then
      k.sched.current else if k.foregroundProc = 0 then k.shellProcess else k.foregroundProc) =
        recipient k k.foregroundProc := by
    unfold recipient
    by_cases h : k.foregroundProc = 0 <;> simp [h, ite_not]
  simp only [dispatchMouseEvent, htarget]

/-! ## What the calls change -/

/-- Afterwards `foreground` has the foreground; of the processes only hooks and
events changed. -/
structure Hands (k : Kernel) (foreground : UInt32) (k' : Kernel) : Prop where
  sched : Quiet k.sched k'.sched
  foreground : k'.foregroundProc = foreground
  shell : k'.shellProcess = k.shellProcess

theorem Hands.refl (k : Kernel) : Hands k k.foregroundProc k := ⟨.refl _, rfl, rfl⟩

theorem Hands.trans {k l m : Kernel} {p : UInt32} (h : Hands k p l)
    (h' : Hands l l.foregroundProc m) : Hands k p m :=
  ⟨h.sched.trans h'.sched, h'.foreground.trans h.foreground, h'.shell.trans h.shell⟩

theorem Hands.after {k l m : Kernel} {p : UInt32} (h : Hands l p m) (hq : Quiet k.sched l.sched)
    (hs : l.shellProcess = k.shellProcess) : Hands k p m :=
  ⟨hq.trans h.sched, h.foreground, h.shell.trans hs⟩

theorem hands_sched {k : Kernel} {s : SchedState} (h : Quiet k.sched s) :
    Hands k k.foregroundProc { k with sched := s } := ⟨h, rfl, rfl⟩

theorem hands_deliver (k : Kernel) (ptr : UInt32) (event : IOEvent) :
    Hands k k.foregroundProc (k.deliver ptr event) := by
  have hpush : Hands k k.foregroundProc (k.push ptr event) := by
    unfold Kernel.push
    split
    · exact .refl k
    · exact ⟨.refl _, rfl, rfl⟩
  exact hpush.trans (hands_sched (quiet_resumeProcesses _ _ _))

theorem hands_focus (k : Kernel) (ptr : UInt32) (code value : Int) :
    Hands k k.foregroundProc (dispatchFocusEvent k ptr code value) := by
  unfold dispatchFocusEvent
  split
  · exact .refl k
  · exact hands_deliver _ _ _

theorem hands_keyboard (k : Kernel) (event : KeyboardEvent) :
    Hands k k.foregroundProc (dispatchKeyboardEvent k event) := by
  rw [dispatchKeyboardEvent_eq]
  split
  · exact .refl k
  · exact hands_deliver _ _ _

theorem hands_mouse (k : Kernel) (event : MouseEvent) :
    Hands k k.foregroundProc (dispatchMouseEvent k event) := by
  rw [dispatchMouseEvent_eq]
  split
  · exact .refl k
  · exact hands_deliver _ _ _

theorem switchForeground_hands {k : Kernel} {prev : UInt32} (h : k.foregroundProc = prev)
    (next : UInt32) : Hands k next (schedulerSwitchForeground k prev next) := by
  unfold schedulerSwitchForeground
  split
  · rename_i heq
    rw [← heq, ← h]
    exact .refl k
  · have hset : Hands k next { k with foregroundProc := next } := ⟨.refl _, rfl, rfl⟩
    have hprev : ∀ value, Hands k next
        (if prev ≠ 0 then dispatchFocusEvent { k with foregroundProc := next } prev focusLost value
        else { k with foregroundProc := next }) := by
      intro value
      split
      · exact hset.trans (hands_focus _ _ _ _)
      · exact hset
    dsimp only
    split
    · exact (hprev _).trans (hands_focus _ _ _ _)
    · exact hprev _

theorem setForeground_hands (k : Kernel) (proc : UInt32) :
    Hands k proc (schedulerSetForeground k proc) := by
  unfold schedulerSetForeground
  split
  · rename_i heq
    rw [← heq]
    exact .refl k
  · dsimp only
    refine (switchForeground_hands ?_ proc).after ?_ ?_ <;> split <;> first | rfl | exact .refl _

/-- The process on top of the stack comes back when the owner had the foreground. -/
theorem restoreForeground_hands {k : Kernel} {owner : UInt32} (h0 : owner ≠ 0) :
    Hands k (heir k owner) (schedulerRestoreForeground k owner) := by
  unfold schedulerRestoreForeground
  by_cases h : owner = k.foregroundProc
  · rw [if_neg (fun hn => hn.2 h), heir, if_pos h]
    generalize k.foregroundStack.headD 0 = target
    dsimp only
    refine (switchForeground_hands ?_ target).after ?_ ?_ <;> split <;> try rfl
    · exact quiet_setProc rfl rfl
    · exact .refl _
  · rw [if_pos ⟨h0, h⟩, heir, if_neg h]
    exact .refl k

/-- **What a kill does**: the process is dead, and its heir has the foreground. -/
theorem killProcess_hands {k : Kernel} {proc : UInt32} (h0 : proc ≠ 0)
    (hmagic : (k.events proc).magic = processMagic) :
    Hands { k with sched := k.sched.setProc proc { k.sched.procs proc with alive := false } }
      (heir k proc) (killProcess k proc) := by
  rw [killProcess, if_neg (by simp [h0, hmagic])]
  exact restoreForeground_hands h0

section

variable {k k' : Kernel} {p proc : UInt32}

theorem Hands.nullOrAlive (h : Hands k p k') (proc : UInt32) :
    NullOrAlive k' proc ↔ NullOrAlive k proc := by
  rw [NullOrAlive, NullOrAlive, h.sched.alive]

theorem Hands.recipient_eq (h : Hands k p k') (foreground : UInt32) :
    recipient k' foreground = recipient k foreground := by
  rw [recipient, recipient, h.shell, h.sched.current]

theorem killed_nullOrAlive (h0 : proc ≠ 0) (hmagic : (k.events proc).magic = processMagic)
    (other : UInt32) : NullOrAlive (killProcess k proc) other ↔ Survives k proc other := by
  rw [(killProcess_hands h0 hmagic).nullOrAlive, NullOrAlive, Survives, NullOrAlive]
  by_cases heq : other = proc
  · subst heq
    simp [SchedState.setProc, h0]
  · simp [SchedState.setProc, heq]

theorem killed_recipient (h0 : proc ≠ 0) (hmagic : (k.events proc).magic = processMagic) :
    recipient (killProcess k proc) (killProcess k proc).foregroundProc =
      recipient k (heir k proc) := by
  have h := killProcess_hands h0 hmagic
  rw [h.recipient_eq, h.foreground]
  rfl

end

/-! ## Starting a process -/

theorem schedulerAddProcess_current (s : SchedState) (ptr : UInt32) :
    (schedulerAddProcess s ptr).current = s.current ∨ (schedulerAddProcess s ptr).current = ptr := by
  unfold schedulerAddProcess
  split
  · exact .inl rfl
  cases hfree : freeEntry s with
  | none => exact .inl rfl
  | some i =>
    have hi := (freeEntry_spec hfree).1
    dsimp only
    by_cases hfirst : s.currentProcessIdx = -1
    · right
      simp only [hfirst, if_true, SchedState.current, SchedState.setProc]
      rw [if_neg (by omega)]
      simp
    · simp only [hfirst, if_false, SchedState.current, SchedState.setProc]
      split
      · exact .inl rfl
      · split
        · exact .inr rfl
        · exact .inl rfl

theorem schedulerAddProcess_alive (s : SchedState) (ptr p : UInt32) :
    ((schedulerAddProcess s ptr).procs p).alive = (s.procs p).alive := by
  unfold schedulerAddProcess
  split
  · rfl
  split
  · rfl
  · simp only [SchedState.setProc]
    split
    · rename_i h; rw [h]
    · rfl

/-- A started process is alive, the others stay as they were, and only a start
can make a process current. -/
theorem kStartProcess_spec (s : SchedState) {procPtr : UInt32} (h0 : procPtr ≠ 0)
    (entry stackSize stackPtr : UInt32) :
    (∀ p, ((kStartProcess entry stackSize procPtr stackPtr s).2.procs p).alive =
      if p = procPtr then true else (s.procs p).alive) ∧
    ((kStartProcess entry stackSize procPtr stackPtr s).2.current = s.current ∨
      (kStartProcess entry stackSize procPtr stackPtr s).2.current = procPtr) := by
  rw [kStartProcess, if_neg h0]
  dsimp only
  split
  · refine ⟨fun p => ?_, .inl rfl⟩
    simp only [SchedState.setProc]
    split <;> rfl
  · refine ⟨fun p => ?_, ?_⟩
    · rw [schedulerAddProcess_alive]
      simp only [SchedState.setProc]
      split <;> rfl
    · exact schedulerAddProcess_current _ _

/-! ## Runs -/

/-- What every run keeps: live processes have sound structs. -/
structure Base (k : Kernel) : Prop where
  inv : Wakeups.Inv k
  null : (k.sched.procs 0).alive = false

theorem Base.of_alive {k : Kernel} (h : Base k) {proc : UInt32}
    (halive : (k.sched.procs proc).alive = true) :
    proc ≠ 0 ∧ (k.events proc).magic = processMagic := by
  refine ⟨fun h0 => ?_, ?_⟩
  · rw [h0, h.null] at halive
    cases halive
  · obtain ⟨q, hq⟩ := h.inv.sound proc halive
    exact hq.magic

/-- A state after an allowed step, seen from the processes and the foreground. -/
inductive Next (k : Kernel) : Act → Kernel → Prop
  | start {entry stackSize procPtr stackPtr : UInt32} {k' : Kernel}
      (alive : ∀ p, NullOrAlive k p → NullOrAlive k' p)
      (recipient : ∀ p, NullOrAlive k (recipient k p) → NullOrAlive k' (recipient k' p))
      (foreground : k'.foregroundProc = k.foregroundProc) :
      Next k (.start entry stackSize procPtr stackPtr) k'
  | setForeground {proc : UInt32} {k' : Kernel} (h0 : proc ≠ 0) (alive : NullOrAlive k proc)
      (h : Hands k proc k') : Next k (.setForeground proc) k'
  | kill {proc : UInt32} (h0 : proc ≠ 0) (hmagic : (k.events proc).magic = processMagic)
      (alive : (k.sched.procs proc).alive = true) : Next k (.kill proc) (killProcess k proc)
  | event {act : Act} {k' : Kernel} (hkill : ∀ proc, act ≠ .kill proc)
      (h : Hands k k.foregroundProc k') : Next k act k'

theorem next_start {k : Kernel} {entry stackSize procPtr stackPtr : UInt32} (h0 : procPtr ≠ 0)
    (events : UInt32 → QueueOwner IOEvent) :
    Next k (.start entry stackSize procPtr stackPtr)
      { k with sched := (kStartProcess entry stackSize procPtr stackPtr k.sched).2, events } := by
  obtain ⟨halive, hcur⟩ := kStartProcess_spec k.sched h0 entry stackSize stackPtr
  generalize (kStartProcess entry stackSize procPtr stackPtr k.sched).2 = s at halive hcur
  have hkept : ∀ p, NullOrAlive k p → NullOrAlive { k with sched := s, events } p := by
    intro p h
    refine h.imp_right fun hp => ?_
    change (s.procs p).alive = true
    rw [halive]
    split
    · rfl
    · exact hp
  refine .start hkept (fun p hp => ?_) rfl
  unfold recipient at hp ⊢
  dsimp only
  split
  · exact hkept _ (by rwa [if_pos ‹_›] at hp)
  rw [if_neg ‹_›] at hp
  split
  · exact hkept _ (by rwa [if_pos ‹_›] at hp)
  rw [if_neg ‹_›] at hp
  rcases hcur with hcur | hcur <;> rw [hcur]
  · exact hkept _ hp
  · exact .inr ((halive procPtr).trans (if_pos rfl))

theorem heeds_of_allowed {k : Kernel} {act : Act} (h : allowed k act = true) : Heeds k act := by
  cases act <;> first | exact (fun _ hm => by cases hm) | cases h

theorem next_of_step {k k' : Kernel} {act : Act} (hb : Base k) (hs : step k act = some k') :
    Next k act k' ∧ Base k' := by
  rw [step] at hs
  split at hs
  case isFalse => cases hs
  rename_i hallowed
  have hi := hb.inv.next (heeds_of_allowed hallowed) hs
  cases act with
  | start entry stackSize procPtr stackPtr =>
    obtain rfl := Option.some.inj hs
    by_cases h0 : procPtr = 0
    · simp only [h0, if_true, kStartProcess] at hi ⊢
      exact ⟨.event (by simp) (.refl k), hi, hb.null⟩
    simp only [h0, if_false] at hi ⊢
    refine ⟨next_start h0 _, hi, ?_⟩
    refine ((kStartProcess_spec k.sched h0 entry stackSize stackPtr).1 0).trans ?_
    rw [if_neg (Ne.symm h0), hb.null]
  | setForeground proc =>
    obtain rfl := Option.some.inj hs
    have h := setForeground_hands k proc
    exact ⟨.setForeground (hb.of_alive hallowed).1 (.inr hallowed) h, hi,
      (h.sched.alive 0).trans hb.null⟩
  | kill proc =>
    obtain rfl := Option.some.inj hs
    obtain ⟨h0, hmagic⟩ := hb.of_alive hallowed
    refine ⟨.kill h0 hmagic hallowed, hi, ((killProcess_hands h0 hmagic).sched.alive 0).trans ?_⟩
    simp [SchedState.setProc, Ne.symm h0, hb.null]
  | key event =>
    obtain rfl := Option.some.inj hs
    have h := hands_keyboard k event
    exact ⟨.event (by simp) h, hi, (h.sched.alive 0).trans hb.null⟩
  | mouse event =>
    obtain rfl := Option.some.inj hs
    have h := hands_mouse k event
    exact ⟨.event (by simp) h, hi, (h.sched.alive 0).trans hb.null⟩
  | _ => cases hallowed

/-- The foreground is nobody's or a live process's. -/
def ForegroundAlive (k : Kernel) : Prop := NullOrAlive k k.foregroundProc

/-- Nobody, or a live process, gets the next key or mouse event. -/
def RecipientAlive (k : Kernel) : Prop := NullOrAlive k (recipient k k.foregroundProc)

instance (k : Kernel) : Decidable (ForegroundAlive k) := inferInstanceAs (Decidable (NullOrAlive ..))

theorem ForegroundAlive.next {k k' : Kernel} {act : Act} (h : ForegroundAlive k)
    (hn : Next k act k') (hheeds : HeedsHeir k act) : ForegroundAlive k' := by
  cases hn with
  | start alive _ foreground =>
    rw [ForegroundAlive, foreground]
    exact alive _ h
  | setForeground _ alive hh =>
    rw [ForegroundAlive, hh.nullOrAlive, hh.foreground]
    exact alive
  | kill h0 hmagic alive =>
    rw [ForegroundAlive, killed_nullOrAlive h0 hmagic, (killProcess_hands h0 hmagic).foreground]
    exact hheeds alive
  | event _ hh =>
    rw [ForegroundAlive, hh.nullOrAlive, hh.foreground]
    exact h

theorem RecipientAlive.next {k k' : Kernel} {act : Act} (h : RecipientAlive k)
    (hn : Next k act k') (hheeds : HeedsRecipient k act) : RecipientAlive k' := by
  cases hn with
  | start _ recipient foreground =>
    rw [RecipientAlive, foreground]
    exact recipient _ h
  | setForeground h0 alive hh =>
    rw [RecipientAlive, hh.nullOrAlive, hh.recipient_eq, hh.foreground, recipient, if_pos h0]
    exact alive
  | kill h0 hmagic alive =>
    rw [RecipientAlive, killed_nullOrAlive h0 hmagic, killed_recipient h0 hmagic]
    exact hheeds alive
  | event _ hh =>
    rw [RecipientAlive, hh.nullOrAlive, hh.recipient_eq, hh.foreground]
    exact h

/-- A kill that leaves the foreground to a dead process, or to the killed one. -/
theorem dead_foreground {k : Kernel} {act : Act} (hb : Base k) (h : ¬ HeedsHeir k act) :
    ∃ k', step k act = some k' ∧ ¬ ForegroundAlive k' := by
  cases act with
  | kill proc =>
    simp only [HeedsHeir, not_forall] at h
    obtain ⟨halive, h⟩ := h
    obtain ⟨h0, hmagic⟩ := hb.of_alive halive
    refine ⟨killProcess k proc, if_pos halive, fun hk => h ?_⟩
    rwa [ForegroundAlive, killed_nullOrAlive h0 hmagic,
      (killProcess_hands h0 hmagic).foreground] at hk
  | _ => exact absurd trivial h

theorem dead_recipient {k : Kernel} {act : Act} (hb : Base k) (h : ¬ HeedsRecipient k act) :
    ∃ k', step k act = some k' ∧ ¬ RecipientAlive k' := by
  cases act with
  | kill proc =>
    simp only [HeedsRecipient, not_forall] at h
    obtain ⟨halive, h⟩ := h
    obtain ⟨h0, hmagic⟩ := hb.of_alive halive
    refine ⟨killProcess k proc, if_pos halive, fun hk => h ?_⟩
    rwa [RecipientAlive, killed_nullOrAlive h0 hmagic, killed_recipient h0 hmagic] at hk
  | _ => exact absurd trivial h

theorem foreground_rule : Rule step (fun k => Base k ∧ ForegroundAlive k) ForegroundAlive HeedsHeir where
  sound := fun _ h => h.2
  next := fun _ _ _ h ha hs =>
    have hn := next_of_step h.1 hs
    ⟨hn.2, h.2.next hn.1 ha⟩
  fails := fun _ _ h ha => dead_foreground h.1 ha

theorem recipient_rule :
    Rule step (fun k => Base k ∧ RecipientAlive k) RecipientAlive HeedsRecipient where
  sound := fun _ h => h.2
  next := fun _ _ _ h ha hs =>
    have hn := next_of_step h.1 hs
    ⟨hn.2, h.2.next hn.1 ha⟩
  fails := fun _ _ h ha => dead_recipient h.1 ha

theorem base_booted (devices : List PciDevice) : Base (booted devices) := ⟨inv_booted devices, rfl⟩

/-- **The foreground is never dead exactly when every kill leaves a live heir**,
in any run from boot; and no key or mouse event ever has a dead recipient
exactly when every kill leaves a live recipient. -/
theorem foreground_alive_iff (devices : List PciDevice) (acts : List Act) :
    ((∀ k ∈ visited step acts (booted devices), ForegroundAlive k) ↔
      Heeded step HeedsHeir acts (booted devices)) ∧
    ((∀ k ∈ visited step acts (booted devices), RecipientAlive k) ↔
      Heeded step HeedsRecipient acts (booted devices)) :=
  ⟨foreground_rule.visited_iff acts ⟨base_booted devices, .inl rfl⟩,
    recipient_rule.visited_iff acts ⟨base_booted devices, .inl rfl⟩⟩

/-- Two processes had the foreground; the first dies in the background, then the
second dies, and the foreground goes back to the first. -/
theorem dead_process_comes_back :
    ¬ ∀ devices acts, ∀ k ∈ visited step acts (booted devices), ForegroundAlive k := by
  intro h
  let acts : List Act := [.start 0x400000 4096 0x1000 0x8000, .start 0x500000 4096 0x2000 0xA000,
    .setForeground 0x1000, .setForeground 0x2000, .kill 0x1000, .kill 0x2000]
  have hdead : (visited step acts (booted [])).any (fun k => !decide (ForegroundAlive k)) = true := by
    decide +kernel
  obtain ⟨k, hk, hdead⟩ := List.any_eq_true.mp hdead
  simp [h [] acts k hk] at hdead

end ContinuumOS.Sched.Foreground
