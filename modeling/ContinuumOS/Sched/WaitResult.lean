import ContinuumOS.Sched.Delivery
import ContinuumOS.Sched.Resume

/-! # What a wait for an event returns

`sys_wait_io_event` answers 1 with an event and 0 without one, and
`syscall_dispatch` stores the answer in the interrupt frame. When the process
has to wait and another one can run, `context_switch` has copied the frame by
then: the process comes back with the EAX it called with, the number of the
system call, and takes it for an event. -/
namespace ContinuumOS.Sched.WaitResult
open ContinuumOS.Lib.Stack ContinuumOS.Sched.Events ContinuumOS.Sched.Scheduler
open ContinuumOS.Sched.Stubs ContinuumOS.Sched.RoundTrip ContinuumOS.Sched.Resume
open ContinuumOS.Sched.Delivery (Kernel IOEvent processWaitForIoEvent)

/-! ## Who wins the lottery -/

/-- Two states with the same tickets in the same hands. -/
structure SameTickets (ok : Process → Bool) (s t : SchedState) : Prop where
  table : t.processTable = s.processTable
  state : t.xorshift32State = s.xorshift32State
  tickets : ∀ p, (t.procs p).tickets = (s.procs p).tickets
  part : ∀ i, takesPart t ok i = takesPart s ok i

section

variable {ok : Process → Bool} {s t : SchedState}

theorem SameTickets.drawEntry (h : SameTickets ok s t) (winner : Int) (is : List Nat) :
    ∀ count, drawEntry t ok winner is count = drawEntry s ok winner is count := by
  induction is with
  | nil => exact fun _ => rfl
  | cons i is ih =>
    intro count
    simp only [Scheduler.drawEntry, h.part i, h.table, h.tickets, ih]

theorem SameTickets.total (h : SameTickets ok s t) : totalTickets t ok = totalTickets s ok := by
  simp only [totalTickets, h.part, h.table, h.tickets]

theorem SameTickets.lottery (h : SameTickets ok s t) : (lottery t ok).1 = (lottery s ok).1 := by
  have hdraw : ∀ x winner is count,
      Scheduler.drawEntry { t with xorshift32State := x } ok winner is count =
        Scheduler.drawEntry { s with xorshift32State := x } ok winner is count := fun x =>
    SameTickets.drawEntry ⟨h.table, rfl, h.tickets, h.part⟩
  simp only [Scheduler.lottery, h.total, h.state, hdraw]
  split
  · rfl
  · split
    · exact congrFun h.table _
    · rfl

theorem drawEntry_none {winner : Int} {is : List Nat} : ∀ {count : Int}, count ≤ winner →
    drawEntry s ok winner is count = none →
    is.foldl (fun n i => if takesPart s ok i then n + (s.procs (s.processTable i)).tickets else n)
      count ≤ winner := by
  induction is with
  | nil => exact fun hc _ => hc
  | cons i is ih =>
    intro count hc hnone
    simp only [drawEntry] at hnone
    simp only [List.foldl_cons]
    split at hnone
    · rename_i hpart
      split at hnone
      · cases hnone
      · rename_i hlater
        rw [if_pos hpart]
        exact ih (by omega) hnone
    · rename_i hpart
      rw [if_neg hpart]
      exact ih hc hnone

/-- Everybody who takes part has a ticket. -/
def Ticketed (s : SchedState) (ok : Process → Bool) : Prop :=
  ∀ i, takesPart s ok i = true → 0 < (s.procs (s.processTable i)).tickets

theorem le_foldl_tickets (h : Ticketed s ok) (is : List Nat) : ∀ count : Int,
    count ≤ is.foldl (fun n i =>
      if takesPart s ok i then n + (s.procs (s.processTable i)).tickets else n) count := by
  induction is with
  | nil => exact fun _ => le_rfl
  | cons i is ih =>
    intro count
    simp only [List.foldl_cons]
    split
    · rename_i hpart
      have := h i hpart
      exact le_trans (by omega) (ih _)
    · exact ih count

theorem totalTickets_pos (h : Ticketed s ok) {i : Nat} (hi : i < maxProcesses)
    (hpart : takesPart s ok i = true) : 0 < totalTickets s ok := by
  obtain ⟨before, after, hsplit⟩ := List.append_of_mem (List.mem_range.mpr hi)
  rw [totalTickets, hsplit, List.foldl_append, List.foldl_cons, if_pos hpart]
  have h₁ := le_foldl_tickets h before 0
  have h₂ := h i hpart
  have h₃ := le_foldl_tickets h after (before.foldl (fun n i =>
    if takesPart s ok i then n + (s.procs (s.processTable i)).tickets else n) 0 +
      (s.procs (s.processTable i)).tickets)
  omega

/-- **Somebody wins when somebody takes part.** -/
theorem lottery_ne_zero (h : Ticketed s ok) {i : Nat} (hi : i < maxProcesses)
    (hpart : takesPart s ok i = true) : (lottery s ok).1 ≠ 0 := by
  have hpos := totalTickets_pos h hi hpart
  simp only [Scheduler.lottery, if_neg hpos.ne']
  split
  · rename_i j hj
    have := (drawEntry_spec _ ok _ _ hj).2
    simp only [takesPart, Bool.and_eq_true, bne_iff_ne] at this
    exact this.1
  · rename_i hnone
    have hle := drawEntry_none (Int.emod_nonneg _ hpos.ne') hnone
    have hlt := Int.emod_lt_of_pos ((xorshift32 s.xorshift32State).toNat : Int) hpos
    exact absurd hle (not_le.mpr hlt)

theorem lottery_eq_zero (h : ∀ i < maxProcesses, takesPart s ok i = false) :
    (lottery s ok).1 = 0 := by
  have hzero : ∀ is : List Nat, (∀ i ∈ is, i < maxProcesses) → is.foldl (fun n i =>
      if takesPart s ok i then n + (s.procs (s.processTable i)).tickets else n) 0 = 0 := by
    intro is
    induction is with
    | nil => exact fun _ => rfl
    | cons i is ih =>
      intro his
      rw [List.foldl_cons, h i (his i (by simp))]
      exact ih fun j hj => his j (.tail i hj)
  have htotal : totalTickets s ok = 0 := hzero _ fun i hi => List.mem_range.mp hi
  simp [Scheduler.lottery, htotal]

/-! ## Whether the caller is switched away from -/

theorem sameTickets_saveContext (s : SchedState) (m : Ram) (regs : UInt32) :
    SameTickets runnable s (saveContext s m regs) := by
  have hproc : ∀ p, ((saveContext s m regs).procs p).tickets = (s.procs p).tickets ∧
      runnable ((saveContext s m regs).procs p) = runnable (s.procs p) := by
    intro p
    simp only [saveContext]
    split
    · simp only [SchedState.setProc]
      split
      · rename_i hp
        rw [hp]
        exact ⟨rfl, rfl⟩
      · exact ⟨rfl, rfl⟩
    · exact ⟨rfl, rfl⟩
  have htable : (saveContext s m regs).processTable = s.processTable ∧
      (saveContext s m regs).xorshift32State = s.xorshift32State := by
    simp only [saveContext]
    split <;> exact ⟨rfl, rfl⟩
  exact ⟨htable.1, htable.2, fun p => (hproc p).1, fun i => by
    simp only [takesPart, htable.1, (hproc _).2]⟩

theorem nextProcess_saveContext (s : SchedState) (m : Ram) (regs : UInt32) :
    (schedulerNextProcess (saveContext s m regs)).1 = (schedulerNextProcess s).1 := by
  have hcount : (saveContext s m regs).processCount = s.processCount := by
    simp only [saveContext]
    split <;> rfl
  simp only [schedulerNextProcess, hcount]
  split
  · rfl
  · exact (sameTickets_saveContext s m regs).lottery

theorem contextSwitch_stays {tr regs : UInt32} {m : Ram} (h0 : s.current ≠ 0)
    (halive : (s.procs s.current).alive = true)
    (hnext : (schedulerNextProcess s).1 = 0 ∨ (schedulerNextProcess s).1 = s.current) :
    ∃ k, contextSwitch tr regs s m = .ret k m ∧ k.current = s.current := by
  obtain ⟨hprocs, -, hspec⟩ := schedulerNextProcess_spec (saveContext s m regs)
  obtain ⟨hcur, hal, -⟩ := saveContext_same s m regs
  rw [← nextProcess_saveContext s m regs] at hnext
  have hlives : ((schedulerNextProcess (saveContext s m regs)).2.procs s.current).alive = true := by
    rw [hprocs, hal]
    exact halive
  refine ⟨(schedulerNextProcess (saveContext s m regs)).2, ?_, ?_⟩
  · simp only [contextSwitch, if_neg h0]
    rcases hnext with hz | hp
    · rw [if_pos hz, if_pos hlives]
    · rw [if_neg (by rw [hp]; exact h0), if_pos ⟨hp, hlives⟩]
  · rcases hspec with ⟨-, hc⟩ | ⟨hne, hc, -⟩
    · exact hc.trans hcur
    · rcases hnext with hz | hp
      · exact absurd hz hne
      · exact hc.trans hp

theorem contextSwitch_leaves {tr regs : UInt32} {m : Ram} (h0 : s.current ≠ 0)
    (hz : (schedulerNextProcess s).1 ≠ 0) (hp : (schedulerNextProcess s).1 ≠ s.current) :
    ∃ k m', contextSwitch tr regs s m = .ret k m' ∧ k.current ≠ s.current := by
  obtain ⟨-, -, hspec⟩ := schedulerNextProcess_spec (saveContext s m regs)
  rw [← nextProcess_saveContext s m regs] at hz hp
  refine ⟨{ (schedulerNextProcess (saveContext s m regs)).2 with
    gNextContext := (schedulerNextProcess (saveContext s m regs)).1, lastRegs := regs },
    store32 m (regs + eipOff) tr, ?_, ?_⟩
  · simp only [contextSwitch, if_neg h0, if_neg hz, hp, false_and, if_false]
  · rcases hspec with ⟨hzero, -⟩ | ⟨-, hc, -⟩
    · exact absurd hzero hz
    · exact fun he => hp (hc.symm.trans he)

/-- The state in which the lottery is held: the caller waits, unless it gave
no place for the event. -/
def putToWait (s : SchedState) (outEvent : UInt32) : SchedState :=
  if outEvent = 0 then s
  else processYieldForEvent s s.current .signal (UInt64.ofInt (s.procs s.current).pid)

theorem processYieldForEvent_hooks (s : SchedState) (ptr : UInt32) (type : HookType)
    (value : UInt64) : ((processYieldForEvent s ptr type value).procs ptr).hooks ≠ [] := by
  unfold processYieldForEvent
  split
  · rename_i hhook
    intro hnil
    simp [processHasMatchingHook, hnil] at hhook
  · simp only [SchedState.setProc, if_true, processRegisterHook]
    split
    · rename_i hfull
      intro hnil
      rw [hnil] at hfull
      exact absurd hfull (by decide)
    · simp

theorem takesPart_yieldForEvent (s : SchedState) (ptr : UInt32) (type : HookType) (value : UInt64)
    (i : Nat) : takesPart (processYieldForEvent s ptr type value) runnable i = true ↔
      takesPart s runnable i = true ∧ s.processTable i ≠ ptr := by
  have htable := (quiet_processYieldForEvent s ptr type value).table
  by_cases hp : s.processTable i = ptr
  · have hrun : runnable ((processYieldForEvent s ptr type value).procs ptr) = false := by
      have hhooks := processYieldForEvent_hooks s ptr type value
      simp [runnable, hhooks]
    simp [takesPart, htable, hp, hrun]
  · have hsame : (processYieldForEvent s ptr type value).procs (s.processTable i) =
        s.procs (s.processTable i) := by
      unfold processYieldForEvent
      split
      · rfl
      · exact if_neg hp
    simp [takesPart, htable, hp, hsame]

/-- No process but `ptr` can run. -/
def Alone (s : SchedState) (ptr : UInt32) : Prop :=
  ∀ i < maxProcesses, takesPart s runnable i = true → s.processTable i = ptr

/-- **A caller that waits is switched away from when another process can run.** -/
theorem nextProcess_waiting (hcount : s.processCount ≠ 0) (ht : Ticketed s runnable)
    (ptr : UInt32) (h0 : ptr ≠ 0) (type : HookType) (value : UInt64) :
    (schedulerNextProcess (processYieldForEvent s ptr type value)).1 ≠ ptr ∧
    ((schedulerNextProcess (processYieldForEvent s ptr type value)).1 = 0 ↔ Alone s ptr) := by
  have hpart := takesPart_yieldForEvent s ptr type value
  have hhooks := processYieldForEvent_hooks s ptr type value
  have hsame : (processYieldForEvent s ptr type value).processCount = s.processCount ∧
      (processYieldForEvent s ptr type value).processTable = s.processTable ∧
      ∀ p, ((processYieldForEvent s ptr type value).procs p).tickets = (s.procs p).tickets := by
    unfold processYieldForEvent
    split
    · exact ⟨rfl, rfl, fun _ => rfl⟩
    · refine ⟨rfl, rfl, fun p => ?_⟩
      simp only [SchedState.setProc]
      split
      · rename_i hp
        subst hp
        unfold processRegisterHook
        split <;> rfl
      · rfl
  generalize processYieldForEvent s ptr type value = t at *
  obtain ⟨hc, htable, htickets⟩ := hsame
  rw [schedulerNextProcess, if_neg (by rw [hc]; exact hcount)]
  have ht' : Ticketed t runnable := by
    intro i hi
    rw [htickets, htable]
    exact ht i ((hpart i).mp hi).1
  refine ⟨fun hp => ?_, fun hz i hi hrun => ?_, fun halone => ?_⟩
  · rcases (lottery_spec t runnable).2.2 with ⟨hz, -⟩ | ⟨-, -, hok⟩
    · exact h0 (hp.symm.trans hz)
    · rw [hp] at hok
      simp [runnable, hhooks] at hok
  · by_contra hne
    exact lottery_ne_zero ht' hi ((hpart i).mpr ⟨hrun, hne⟩) hz
  · refine lottery_eq_zero fun i hi => Bool.eq_false_iff.mpr fun hrun => ?_
    exact ((hpart i).mp hrun).2 (halone i hi ((hpart i).mp hrun).1)

end

/-! ## The answer in EAX -/

theorem commonStubTail_eax (s : Machine) :
    (run commonStubTail s).cpu.eax = load32 s.mem (s.cpu.esp + 4 + eaxOff) := by
  have he : ∀ a : UInt32, a + 4 + 4 + 28 = a + 4 + 32 := fun a => by grind
  obtain ⟨cpu, mem, sched⟩ := s
  rw [commonStubTail]
  simp only [run_cons, run_nil, exec, Machine.drop, Machine.top, eaxOff, he]

/-- A handler that leaves the return address alone goes back to the
interrupted code with the EAX of the frame. -/
theorem wayOut_returns {env : Env} {d : Machine} {k : SchedState} {m : Ram} {f : UInt32}
    (hf : d.cpu.esp + 4 + 4 = f) (heip : load32 m (f + eipOff) ≠ env.trampoline) :
    ∃ s, wayOut env d (.ret k m) = some s ∧ s.sched = k ∧ s.cpu.eax = load32 m (f + eaxOff) := by
  subst hf
  let t : Machine := ⟨{ d.cpu with eax := env.eax, ecx := env.ecx, edx := env.edx }, m, k⟩
  refine ⟨run commonStubTail (Machine.drop t 4), ?_, run_sched _ _, commonStubTail_eax _⟩
  exact if_neg (by rw [commonStubTail_eip]; exact heip)

/-- The process `p`, which is alive and runs, calls `WAIT_IO_EVENT` with
`outEvent` in EBX. Its queue is sound, as are the tickets; its stack does not
lie at address 0, and its code not in the trampoline. `pop_io_event` answers
what the queue of the kernel's data says. -/
structure WaitCall (k : Kernel) (env : Env) (p outEvent : UInt32) (s₀ : Machine) : Prop where
  notNull : p ≠ 0
  sched : s₀.sched = k.sched
  current : k.sched.current = p
  alive : (k.sched.procs p).alive = true
  number : s₀.cpu.eax = 0x85
  argument : s₀.cpu.ebx = outEvent
  stack : s₀.cpu.esp ≠ 56
  code : s₀.cpu.eip ≠ env.trampoline
  envOk : EnvOk env k.sched
  popped : env.popped = (k.pop p).1.isSome
  sound : ∃ q, HoldsEvents (k.events p) q
  counted : k.sched.processCount ≠ 0
  ticketed : Ticketed k.sched runnable

/-- The machine when the caller next runs code of its own: right after the
call, or when it was switched away from and back to. -/
inductive NextRuns (p : UInt32) (env : Env) (s₀ : Machine) : Machine → Prop
  | atOnce {s₁ : Machine} (h : interrupt env .syscall s₀ = some s₁) (hp : s₁.sched.current = p) :
      NextRuns p env s₀ s₁
  | later {s₁ s₂ s₃ : Machine} (h : AwayAndBack p .syscall env s₀ s₁ s₂ s₃) : NextRuns p env s₀ s₃

/-- The event the call stores in `*out_event`. -/
def filled (k : Kernel) (p outEvent : UInt32) : Option IOEvent :=
  (processWaitForIoEvent k p outEvent).1

/-- The call does not block, or there is nobody to switch to. -/
def GoesOn (k : Kernel) (p outEvent : UInt32) : Prop :=
  if outEvent = 0 then (schedulerNextProcess k.sched).1 = 0 ∨ (schedulerNextProcess k.sched).1 = p
  else (k.events p).ioEvents.count ≠ 0 ∨ Alone k.sched p

section

variable {k : Kernel} {env : Env} {p outEvent : UInt32} {s₀ s : Machine}

/-- What a blocked call does: the answer 0 goes to the frame, after the switch. -/
theorem WaitCall.interrupt_eq (c : WaitCall k env p outEvent s₀) :
    ∃ d : Machine, d.cpu.esp + 4 + 4 = s₀.cpu.esp - 56 ∧
      Holds d.mem (s₀.cpu.esp - 56) (frameWords .syscall s₀.cpu) ∧
      interrupt env .syscall s₀ = wayOut env d
        (sysWaitIoEvent env (s₀.cpu.esp - 56) outEvent k.sched d.mem) := by
  obtain ⟨d, hf, hframe, hint⟩ := interrupt_frame env .syscall s₀
  have hnum : load32 d.mem (s₀.cpu.esp - 56 + eaxOff) = 0x85 :=
    (hframe.get (i := 8) rfl).trans c.number
  have harg : load32 d.mem (s₀.cpu.esp - 56 + ebxOff) = outEvent :=
    (hframe.get (i := 5) rfl).trans c.argument
  refine ⟨d, hf, hframe, ?_⟩
  rw [hint, c.sched, handler, syscallDispatch]
  simp only [hnum, harg]
  rfl

/-- The queue is asked when there is a place for the event, and answers when
it is not empty. -/
theorem WaitCall.filled_isSome (c : WaitCall k env p outEvent s₀) :
    ((filled k p outEvent).isSome = true ↔ outEvent ≠ 0 ∧ env.popped = true) ∧
    (env.popped = true ↔ (k.events p).ioEvents.count ≠ 0) := by
  constructor
  · rw [c.popped, filled, processWaitForIoEvent]
    by_cases hout : outEvent = 0
    · simp [hout]
    · rw [if_neg (by simp [c.notNull, hout])]
      obtain ⟨⟨event, k₁⟩, hpop⟩ : ∃ popped, k.pop p = popped := ⟨_, rfl⟩
      rw [hpop]
      cases event <;> simp [hout]
  · obtain ⟨q, hq⟩ := c.sound
    rw [c.popped, Kernel.pop, if_neg c.notNull]
    simp only [hq.pop.1, hq.count_eq.1]
    cases q with
    | nil => simp
    | cons event rest =>
      simp only [List.head?_cons, Option.isSome_some, List.length_cons, true_iff]
      omega

theorem WaitCall.eip (c : WaitCall k env p outEvent s₀) {m : Ram} (v : UInt32)
    (hframe : Holds m (s₀.cpu.esp - 56) (frameWords .syscall s₀.cpu)) :
    load32 (store32 m (s₀.cpu.esp - 56 + eaxOff) v) (s₀.cpu.esp - 56 + eipOff) ≠
      env.trampoline := by
  have hd : s₀.cpu.esp - 56 + eipOff - (s₀.cpu.esp - 56 + eaxOff) = 12 := by
    simp only [eipOff, eaxOff]
    grind
  have heip : load32 m (s₀.cpu.esp - 56 + eipOff) = s₀.cpu.eip := hframe.get (i := 11) rfl
  rw [load32_store32_apart (by rw [hd]; decide) (by rw [hd]; decide), heip]
  exact c.code

/-- A result stored in the frame is what the caller gets, when nobody else was
switched to. -/
theorem WaitCall.returned (c : WaitCall k env p outEvent s₀) {d : Machine} {t : SchedState}
    {v : UInt32} (hf : d.cpu.esp + 4 + 4 = s₀.cpu.esp - 56)
    (hframe : Holds d.mem (s₀.cpu.esp - 56) (frameWords .syscall s₀.cpu)) (ht : t.current = p) :
    ∃ s, wayOut env d (.ret t (store32 d.mem (s₀.cpu.esp - 56 + eaxOff) v)) = some s ∧
      s.sched.current = p ∧ s.cpu.eax = v := by
  obtain ⟨s, hs, hsched, heax⟩ := wayOut_returns (k := t) hf (c.eip v hframe)
  exact ⟨s, hs, by rw [hsched]; exact ht, by rw [heax]; exact load32_store32_same _ _ _⟩

theorem putToWait_quiet (s : SchedState) (outEvent : UInt32) : Quiet s (putToWait s outEvent) := by
  unfold putToWait
  split
  · exact .refl s
  · exact quiet_processYieldForEvent _ _ _ _

theorem WaitCall.blocked (c : WaitCall k env p outEvent s₀)
    (hnone : (filled k p outEvent).isSome = false) (m : Ram) :
    sysWaitIoEvent env (s₀.cpu.esp - 56) outEvent k.sched m =
      Outcome.setEax (s₀.cpu.esp - 56) 0
        (contextSwitch env.trampoline (s₀.cpu.esp - 56) (putToWait k.sched outEvent) m) := by
  have hregs : s₀.cpu.esp - 56 ≠ 0 := by
    intro h
    have := c.stack
    grind
  have hpop : ¬ (outEvent ≠ 0 ∧ env.popped = true) := fun h => by
    rw [c.filled_isSome.1.mpr h] at hnone
    cases hnone
  rw [sysWaitIoEvent, if_neg (by rw [c.current]; exact c.notNull), if_neg hpop]
  simp only [schedulerForceSwitchWithRegs, if_pos hregs, putToWait]

/-- The lottery of a blocked call draws nobody but perhaps the caller exactly
when the call goes on. -/
theorem WaitCall.nextProcess (c : WaitCall k env p outEvent s₀)
    (hnone : (filled k p outEvent).isSome = false) :
    ((schedulerNextProcess (putToWait k.sched outEvent)).1 = 0 ∨
      (schedulerNextProcess (putToWait k.sched outEvent)).1 = p) ↔ GoesOn k p outEvent := by
  unfold GoesOn putToWait
  split
  · rfl
  · rename_i hout
    have hempty : ¬ (k.events p).ioEvents.count ≠ 0 := fun h => by
      rw [c.filled_isSome.1.mpr ⟨hout, c.filled_isSome.2.mpr h⟩] at hnone
      cases hnone
    obtain ⟨hne, hiff⟩ := nextProcess_waiting c.counted c.ticketed k.sched.current
      (by rw [c.current]; exact c.notNull) .signal
      (UInt64.ofInt (k.sched.procs k.sched.current).pid)
    rw [c.current] at hne hiff ⊢
    simp only [hne, or_false, hempty, false_or, hiff]

/-- **A call that goes on returns the right answer.** -/
theorem WaitCall.answers (c : WaitCall k env p outEvent s₀) (hgo : GoesOn k p outEvent) :
    ∃ s₁, interrupt env .syscall s₀ = some s₁ ∧ s₁.sched.current = p ∧
      s₁.cpu.eax = if (filled k p outEvent).isSome then 1 else 0 := by
  obtain ⟨d, hf, hframe, hint⟩ := c.interrupt_eq
  rw [hint]
  cases hfilled : (filled k p outEvent).isSome with
  | true =>
    rw [sysWaitIoEvent, if_neg (by rw [c.current]; exact c.notNull),
      if_pos (c.filled_isSome.1.mp hfilled)]
    exact c.returned hf hframe c.current
  | false =>
    have hquiet := putToWait_quiet k.sched outEvent
    have hcur : (putToWait k.sched outEvent).current = p := hquiet.current.trans c.current
    obtain ⟨t, ht, htcur⟩ : ∃ t, contextSwitch env.trampoline (s₀.cpu.esp - 56)
        (putToWait k.sched outEvent) d.mem = .ret t d.mem ∧
        t.current = (putToWait k.sched outEvent).current :=
      contextSwitch_stays (by rw [hcur]; exact c.notNull) (by rw [hcur, hquiet.alive]; exact c.alive)
        (by rw [hcur]; exact (c.nextProcess hfilled).mpr hgo)
    rw [c.blocked hfilled, ht]
    exact c.returned hf hframe (htcur.trans hcur)

/-- **A call that does not go on has no event and switches away.** -/
theorem WaitCall.leaves (c : WaitCall k env p outEvent s₀) (hgo : ¬ GoesOn k p outEvent) :
    (filled k p outEvent).isSome = false ∧
      ∀ s₁, interrupt env .syscall s₀ = some s₁ → s₁.sched.current ≠ p := by
  have hnone : (filled k p outEvent).isSome = false := by
    refine Bool.eq_false_iff.mpr fun h => hgo ?_
    obtain ⟨hout, hpop⟩ := c.filled_isSome.1.mp h
    rw [GoesOn, if_neg hout]
    exact .inl (c.filled_isSome.2.mp hpop)
  refine ⟨hnone, fun s₁ hs₁ => ?_⟩
  obtain ⟨d, hf, hframe, hint⟩ := c.interrupt_eq
  have hquiet := putToWait_quiet k.sched outEvent
  have hcur : (putToWait k.sched outEvent).current = p := hquiet.current.trans c.current
  have hnext := mt (c.nextProcess hnone).mp hgo
  rw [not_or] at hnext
  obtain ⟨t, m, ht, htcur⟩ : ∃ t m, contextSwitch env.trampoline (s₀.cpu.esp - 56)
      (putToWait k.sched outEvent) d.mem = .ret t m ∧
      t.current ≠ (putToWait k.sched outEvent).current :=
    contextSwitch_leaves (by rw [hcur]; exact c.notNull) hnext.1 (by rw [hcur]; exact hnext.2)
  rw [hint, c.blocked hnone, ht] at hs₁
  rw [hcur] at htcur
  have hsched : s₁.sched = t := by
    simp only [Outcome.setEax, wayOut] at hs₁
    split at hs₁ <;> obtain rfl := Option.some.inj hs₁
    · rw [run_sched, run_sched]
      rfl
    · rw [run_sched]
      rfl
  rw [hsched]
  exact htcur

/-- **A wait returns the right answer exactly when it is not switched away
from.** When the caller next runs its own code, EAX is 1 with an event from its
queue in `*out_event` and 0 without one, if and only if the queue held an event
or no other process could run. Otherwise EAX is the number of the system call,
and the caller takes `*out_event`, which nobody filled, for an event. -/
theorem wait_result_right_iff (c : WaitCall k env p outEvent s₀) (h : NextRuns p env s₀ s) :
    (s.cpu.eax = if (filled k p outEvent).isSome then 1 else 0) ↔ GoesOn k p outEvent := by
  constructor
  · intro heax
    by_contra hgo
    obtain ⟨hnone, haway⟩ := c.leaves hgo
    cases h with
    | atOnce h hp => exact haway _ h hp
    | later h =>
      rw [h.resumed.eax, hnone] at heax
      change s₀.cpu.eax = 0 at heax
      rw [c.number] at heax
      exact absurd heax (by decide)
  · intro hgo
    obtain ⟨s₁, hs₁, hp, heax⟩ := c.answers hgo
    cases h with
    | atOnce h _ =>
      rw [h] at hs₁
      obtain rfl := Option.some.inj hs₁
      exact heax
    | later h =>
      have hfirst := h.interrupted
      rw [hs₁] at hfirst
      obtain rfl := Option.some.inj hfirst
      exact absurd hp h.away

end

/-! ## Two calls -/

/-- The process at 0x1000 calls `WAIT_IO_EVENT`; another one can run. -/
def waitMachine : Machine := ⟨{ demoCpu with eax := 0x85, ebx := 0x5000 }, fun _ => 0, demoSched⟩

/-- Both processes have the queue `owner`. -/
def waitKernel (owner : QueueOwner IOEvent) : Kernel :=
  { Delivery.booted [] with sched := demoSched, events := fun _ => owner }

/-- `pop_io_event` gives `popped`. -/
def waitEnv (popped : Bool) : Env := { demoEnv with popped := popped }

theorem waitCall_of_queue {owner : QueueOwner IOEvent} {q : List IOEvent}
    (h : HoldsEvents owner q) :
    WaitCall (waitKernel owner) (waitEnv q.head?.isSome) 0x1000 0x5000 waitMachine where
  notNull := by decide
  sched := rfl
  current := (by decide +kernel : demoSched.current = 0x1000)
  alive := rfl
  number := rfl
  argument := rfl
  stack := by decide
  code := (by decide : (0x100000 : UInt32) ≠ 0x300000)
  envOk := by
    have hfresh : ∀ i < maxProcesses, demoSched.processTable i ≠ 0x3000 := by decide +kernel
    refine ⟨?_, fun _ => rfl, fun _ => rfl, fun _ _ => rfl, fun _ _ hl => hl⟩
    rintro ⟨i, hi, he⟩
    exact hfresh i hi he
  popped := by
    have hpop : (popIoEvent owner).1 = q.head? := h.pop.1
    simp [waitEnv, Kernel.pop, waitKernel, hpop]
  sound := ⟨q, h⟩
  counted := (by decide : (2 : Nat) ≠ 0)
  ticketed i _ := by
    have htickets : ∀ p, (demoSched.procs p).tickets = 1 := by
      intro p
      simp only [demoSched]
      split <;> rfl
    change 0 < (demoSched.procs (demoSched.processTable i)).tickets
    rw [htickets]
    decide

/-- With an event in the queue the call returns 1 at once. -/
theorem wait_result_right_iff_example : ∃ s, NextRuns 0x1000 (waitEnv true) waitMachine s ∧
    s.cpu.eax = 1 := by
  have hqueue := (holdsEvents_started (α := IOEvent)).push (.process 1 1)
  have hcall := waitCall_of_queue hqueue
  have hrun : (interrupt (waitEnv true) .syscall waitMachine).map (fun s => s.sched.current) =
      some 0x1000 := by decide +kernel
  obtain ⟨s, hs, hcur⟩ := Option.map_eq_some_iff.mp hrun
  have hnext : NextRuns 0x1000 (waitEnv true) waitMachine s := .atOnce hs hcur
  have hgo : GoesOn (waitKernel (pushIoEvent startedProcess (.process 1 1))) 0x1000 0x5000 :=
    .inl (by decide +kernel)
  exact ⟨s, hnext, ((wait_result_right_iff hcall hnext).mpr hgo).trans (by decide +kernel)⟩

/-- A key resumes the process with pid 1. -/
def keyEnv : Env :=
  { demoEnv with other := fun s => schedulerResumeProcessesForEvent s .signal 1 }

theorem keyEnv_ok (s : SchedState) (h : ¬ InTable s 0x3000) : EnvOk keyEnv s := by
  have hquiet : ∀ k, Quiet k (keyEnv.other k) := by
    intro k
    simp only [keyEnv]
    exact quiet_resumeProcesses k .signal 1
  generalize hother : keyEnv.other = other at hquiet
  refine ⟨h, ?_, ?_, ?_, ?_⟩ <;> rw [hother]
  · exact fun k => (hquiet k).table
  · exact fun k => (hquiet k).idx
  · exact fun k p => (hquiet k).context p
  · exact fun k p hl => ((hquiet k).alive p).symm.trans hl

/-- The table holds nothing at the address the next process would get. -/
def freshEntry (s : SchedState) : Bool :=
  (List.range maxProcesses).all fun i => s.processTable i != 0x3000

theorem not_inTable_of_freshEntry {s : SchedState} (h : freshEntry s = true) :
    ¬ InTable s 0x3000 := by
  rintro ⟨i, hi, he⟩
  have := List.all_eq_true.mp h i (List.mem_range.mpr hi)
  simp [he] at this

/-- The queue is empty and the other process runs; a key comes, the other
process yields, and the caller is back with 0x85 in EAX. -/
theorem blocked_wait_returns_syscall_number :
    ¬ ∀ k env p outEvent s₀ s, WaitCall k env p outEvent s₀ → NextRuns p env s₀ s →
      s.cpu.eax = if (filled k p outEvent).isSome then 1 else 0 := by
  intro h
  have h₁ : (interrupt (waitEnv false) .syscall waitMachine).map
      (fun s => (s.sched.current, freshEntry s.sched)) = some (0x2000, true) := by decide +kernel
  have h₂ : ((interrupt (waitEnv false) .syscall waitMachine).bind
      (interrupt keyEnv (.irq 1))).map (fun s => (s.sched.current, freshEntry s.sched)) =
        some (0x2000, true) := by decide +kernel
  have h₃ : (((interrupt (waitEnv false) .syscall waitMachine).bind
      (interrupt keyEnv (.irq 1))).bind (interrupt demoEnv .syscall)).map
        (fun s => (s.sched.current, s.cpu.eax)) = some (0x1000, 0x85) := by decide +kernel
  obtain ⟨s₁, hs₁, hc₁⟩ := Option.map_eq_some_iff.mp h₁
  rw [hs₁, Option.bind_some] at h₂ h₃
  obtain ⟨s₂, hs₂, hc₂⟩ := Option.map_eq_some_iff.mp h₂
  rw [hs₂, Option.bind_some] at h₃
  obtain ⟨s₃, hs₃, hc₃⟩ := Option.map_eq_some_iff.mp h₃
  rw [Prod.mk.injEq] at hc₁ hc₂ hc₃
  have hcall := waitCall_of_queue (holdsEvents_started (α := IOEvent))
  have haway : StepAway 0x1000 s₁ s₂ :=
    ⟨.interrupt (keyEnv_ok _ (not_inTable_of_freshEntry hc₁.2)) hs₂, by rw [hc₂.1]; decide⟩
  have hback : AwayAndBack 0x1000 .syscall (waitEnv false) waitMachine s₁ s₂ s₃ :=
    { notNull := hcall.notNull
      current := hcall.current
      alive := hcall.alive
      envOk := hcall.envOk
      interrupted := hs₁
      away := by rw [hc₁.1]; decide
      meanwhile := .single haway
      back := .interrupt (demoEnv_ok _ (not_inTable_of_freshEntry hc₂.2)) hs₃
      selected := hc₃.1 }
  have heax := h _ _ _ _ _ _ hcall (.later hback)
  rw [hc₃.2] at heax
  have hnone : (filled (waitKernel startedProcess) 0x1000 0x5000).isSome = false := by
    decide +kernel
  rw [hnone] at heax
  exact absurd heax (by decide)

end ContinuumOS.Sched.WaitResult
