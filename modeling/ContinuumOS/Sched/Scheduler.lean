import ContinuumOS.Lib.Stack

/-! # Processes and the scheduler

`src/kernel/scheduler.cpp` with the process functions of
`src/kernel/process.cpp` it uses. A process is named by the address of its
`Process` struct, `NULL` is 0; the structs live apart from the stacks, so they
are records here while the stacks are bytes. Interrupt frames (`registers_t*`)
are read and written in stack memory at their byte offsets. -/
namespace ContinuumOS.Sched.Scheduler
open ContinuumOS.Lib.Stack

/-- `MAX_PROCESSES` -/
def maxProcesses : Nat := 32

/-- `MAX_HOOKS_PER_PROCESS` -/
def maxHooksPerProcess : Nat := 8

/-- `SCHEDULER_QUANTUM_TICKS` -/
def schedulerQuantumTicks : Nat := 10

structure CPUContext where
  eip : UInt32
  esp : UInt32
  ebp : UInt32
  eax : UInt32
  ebx : UInt32
  ecx : UInt32
  edx : UInt32
  esi : UInt32
  edi : UInt32
  eflags : UInt32
  deriving DecidableEq, Repr

inductive HookType
  | timeReached | signal | custom
  deriving DecidableEq, Repr

structure Hook where
  type : HookType
  triggerValue : UInt64
  deriving DecidableEq, Repr

/-- The fields of `Process` the scheduler reads; `hook_count` is the length of
`hooks`. -/
structure Process where
  pid : Int
  context : CPUContext
  alive : Bool
  hooks : List Hook
  tickets : Int
  deriving DecidableEq, Repr

/-- The scheduler's globals and the process structs. -/
structure SchedState where
  procs : UInt32 → Process
  processTable : Nat → UInt32
  processCount : Nat
  currentProcessIdx : Int
  xorshift32State : UInt32
  quantumCounter : Nat
  lastRegs : UInt32
  gNextContext : UInt32
  timerTicks : UInt32
  nextPid : Int

/-! ## Hooks -/

def Hook.matches (h : Hook) (type : HookType) (value : UInt64) : Bool :=
  h.type == type && h.triggerValue == value

def processHasMatchingHook (p : Process) (type : HookType) (value : UInt64) : Bool :=
  p.hooks.any fun h => h.matches type value

/-- The process unchanged when its eight hooks are taken. -/
def processRegisterHook (p : Process) (type : HookType) (value : UInt64) : Process :=
  if maxHooksPerProcess ≤ p.hooks.length then p
  else { p with hooks := p.hooks ++ [⟨type, value⟩] }

/-- Remove the first matching hook; `none` when there is none. -/
def processRemoveHook (p : Process) (type : HookType) (value : UInt64) : Option Process :=
  if processHasMatchingHook p type value then
    some { p with hooks := p.hooks.eraseP fun h => h.matches type value }
  else none

/-- `while (process_remove_hook(..) == 0)`; each round takes one hook away. -/
def removeAllHooks (type : HookType) (value : UInt64) : Nat → Process → Process
  | 0, p => p
  | rounds + 1, p =>
    match processRemoveHook p type value with
    | some p' => removeAllHooks type value rounds p'
    | none => p

namespace SchedState

/-- The struct at `ptr` replaced. -/
def setProc (s : SchedState) (ptr : UInt32) (p : Process) : SchedState :=
  { s with procs := fun q => if q = ptr then p else s.procs q }

/-- `scheduler_current_process` -/
def current (s : SchedState) : UInt32 :=
  if s.currentProcessIdx < 0 ∨ (maxProcesses : Int) ≤ s.currentProcessIdx then 0
  else s.processTable s.currentProcessIdx.toNat

end SchedState

def processYieldForEvent (s : SchedState) (ptr : UInt32) (type : HookType) (value : UInt64) :
    SchedState :=
  if processHasMatchingHook (s.procs ptr) type value then s
  else s.setProc ptr (processRegisterHook (s.procs ptr) type value)

/-- Entry `i` of the table in `scheduler_resume_processes_for_event`. -/
def resumeEntry (type : HookType) (value : UInt64) (s : SchedState) (i : Nat) : SchedState :=
  let ptr := s.processTable i
  if ptr ≠ 0 ∧ processHasMatchingHook (s.procs ptr) type value = true then
    s.setProc ptr (removeAllHooks type value (s.procs ptr).hooks.length (s.procs ptr))
  else s

def schedulerResumeProcessesForEvent (s : SchedState) (type : HookType) (value : UInt64) :
    SchedState :=
  (List.range maxProcesses).foldl (resumeEntry type value) s

/-! ## The lottery -/

def xorshift32 (x : UInt32) : UInt32 :=
  let x := x ^^^ (x <<< 13)
  let x := x ^^^ (x >>> 17)
  x ^^^ (x <<< 5)

/-- An entry that takes part in a draw among the processes with `ok`. -/
def takesPart (s : SchedState) (ok : Process → Bool) (i : Nat) : Bool :=
  s.processTable i != 0 && ok (s.procs (s.processTable i))

def totalTickets (s : SchedState) (ok : Process → Bool) : Int :=
  (List.range maxProcesses).foldl
    (fun t i => if takesPart s ok i then t + (s.procs (s.processTable i)).tickets else t) 0

/-- The first entry at which the running count passes `winner`. -/
def drawEntry (s : SchedState) (ok : Process → Bool) (winner : Int) : List Nat → Int → Option Nat
  | [], _ => none
  | i :: is, count =>
    if takesPart s ok i then
      let count := count + (s.procs (s.processTable i)).tickets
      if winner < count then some i else drawEntry s ok winner is count
    else drawEntry s ok winner is count

/-- The loop the three selections share: draw a ticket, make its entry current.
The pointer is 0 when nobody takes part. -/
def lottery (s : SchedState) (ok : Process → Bool) : UInt32 × SchedState :=
  let total := totalTickets s ok
  if total = 0 then (0, s)
  else
    let x := xorshift32 s.xorshift32State
    let s := { s with xorshift32State := x }
    match drawEntry s ok ((x.toNat : Int) % total) (List.range maxProcesses) 0 with
    | some i => (s.processTable i, { s with currentProcessIdx := i })
    | none => (0, s)

/-- Alive and waiting for nothing. -/
def runnable (p : Process) : Bool := p.alive && p.hooks.length == 0

def schedulerNextProcess (s : SchedState) : UInt32 × SchedState :=
  if s.processCount = 0 then (0, s) else lottery s runnable

/-! ## Switching -/

/-- `registers_t`: the byte offset of each field. -/
def dsOff : UInt32 := 0
def ediOff : UInt32 := 4
def esiOff : UInt32 := 8
def ebpOff : UInt32 := 12
def espOff : UInt32 := 16
def ebxOff : UInt32 := 20
def edxOff : UInt32 := 24
def ecxOff : UInt32 := 28
def eaxOff : UInt32 := 32
def intNoOff : UInt32 := 36
def errCodeOff : UInt32 := 40
def eipOff : UInt32 := 44
def csOff : UInt32 := 48
def eflagsOff : UInt32 := 52

/-- What `context_switch` copies out of a frame. -/
def frameContext (m : Ram) (regs : UInt32) : CPUContext where
  eip := load32 m (regs + eipOff)
  esp := load32 m (regs + espOff)
  ebp := load32 m (regs + ebpOff)
  eax := load32 m (regs + eaxOff)
  ebx := load32 m (regs + ebxOff)
  ecx := load32 m (regs + ecxOff)
  edx := load32 m (regs + edxOff)
  esi := load32 m (regs + esiOff)
  edi := load32 m (regs + ediOff)
  eflags := load32 m (regs + eflagsOff)

/-- How a C function called from a stub ends. -/
inductive Outcome
  | ret (s : SchedState) (m : Ram)
  | jumpTrampoline (s : SchedState) (m : Ram)
  | panic

/-- The save at the head of `context_switch`. -/
def saveContext (s : SchedState) (m : Ram) (regs : UInt32) : SchedState :=
  let p := s.procs s.current
  if p.alive then s.setProc s.current { p with context := frameContext m regs } else s

/-- `trampoline` is the address of `switch_to_trampoline`. -/
def contextSwitch (trampoline regs : UInt32) (s : SchedState) (m : Ram) : Outcome :=
  if s.current = 0 then .ret s m
  else
    let cur := s.current
    let s := saveContext s m regs
    let (next, s) := schedulerNextProcess s
    if next = 0 then
      if (s.procs cur).alive then .ret s m else .panic
    else if next = cur ∧ (s.procs cur).alive = true then .ret s m
    else
      .ret { s with gNextContext := next, lastRegs := regs } (store32 m (regs + eipOff) trampoline)

def schedulerOnTick (trampoline regs : UInt32) (s : SchedState) (m : Ram) : Outcome :=
  let s := { s with lastRegs := regs, quantumCounter := s.quantumCounter + 1 }
  if schedulerQuantumTicks ≤ s.quantumCounter then
    contextSwitch trampoline regs { s with quantumCounter := 0 } m
  else .ret s m

def timerHandler (trampoline regs : UInt32) (s : SchedState) (m : Ram) : Outcome :=
  let s := { s with timerTicks := s.timerTicks + 1 }
  let s := schedulerResumeProcessesForEvent s .timeReached s.timerTicks.toUInt64
  schedulerOnTick trampoline regs s m

def schedulerForceSwitchWithRegs (trampoline regs : UInt32) (s : SchedState) (m : Ram) : Outcome :=
  if regs ≠ 0 then contextSwitch trampoline regs s m else .ret s m

/-- Draws among all live processes and does not return. -/
def schedulerExitCurrentAndSwitch (s : SchedState) (m : Ram) : Outcome :=
  let (next, s) := lottery s fun p => p.alive
  if next = 0 then .panic else .jumpTrampoline { s with gNextContext := next } m

/-! ## Starting a process -/

/-- The first table entry that is `NULL`. -/
def freeEntry (s : SchedState) : Option Nat := (List.range maxProcesses).find? fun i =>
  s.processTable i == 0

def schedulerAddProcess (s : SchedState) (ptr : UInt32) : SchedState :=
  if maxProcesses ≤ s.processCount then s
  else
    match freeEntry s with
    | none => s
    | some i =>
      let p := s.procs ptr
      let s := { s with
        processTable := fun j => if j = i then ptr else s.processTable j
        processCount := s.processCount + 1
        currentProcessIdx := if s.currentProcessIdx = -1 then i else s.currentProcessIdx }
      s.setProc ptr { p with tickets := if p.tickets ≤ 0 then 1 else p.tickets }

/-- `procPtr` and `stackPtr` are what the two `kmalloc` calls return. -/
def kStartProcess (entry stackSize procPtr stackPtr : UInt32) (s : SchedState) :
    UInt32 × SchedState :=
  if procPtr = 0 then (0, s)
  else
    let p : Process := ⟨s.nextPid, ⟨0, 0, 0, 0, 0, 0, 0, 0, 0, 0⟩, true, [], 1⟩
    let s := ({ s with nextPid := s.nextPid + 1 } : SchedState).setProc procPtr p
    if stackPtr = 0 then (0, s)
    else
      let top := stackPtr + stackSize
      let s := s.setProc procPtr
        { p with context := { p.context with eip := entry, esp := top, ebp := top, eflags := 0x202 } }
      (procPtr, schedulerAddProcess s procPtr)

end ContinuumOS.Sched.Scheduler
