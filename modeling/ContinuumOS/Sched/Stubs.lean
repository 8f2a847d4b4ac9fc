import ContinuumOS.Sched.Scheduler

/-! # Interrupt entry, exit and the trampoline

The assembly of `src/kernel/isr_stub.s` and `src/kernel/syscall_handler.s`,
instruction by instruction, and the C functions it calls. An interrupt in ring
0 changes no privilege level, so the CPU pushes EFLAGS, CS and EIP on the
current stack; the gates are interrupt gates, so it clears IF. The C compiler's
own stack frames lie below the arguments and are not modelled; what a C
function leaves in EAX, ECX and EDX is arbitrary. The stubs and the trampoline
run without being interrupted themselves. -/
namespace ContinuumOS.Sched.Stubs
open ContinuumOS.Lib.Stack ContinuumOS.Sched.Scheduler

structure Cpu where
  eax : UInt32
  ebx : UInt32
  ecx : UInt32
  edx : UInt32
  esi : UInt32
  edi : UInt32
  ebp : UInt32
  esp : UInt32
  eip : UInt32
  eflags : UInt32
  cs : UInt32
  ds : UInt16
  es : UInt16
  fs : UInt16
  gs : UInt16
  deriving DecidableEq, Repr

/-- CPU, stack memory and the scheduler's data. -/
structure Machine where
  cpu : Cpu
  mem : Ram
  sched : SchedState

/-- The interrupt flag in EFLAGS. -/
def ifFlag : UInt32 := 0x200

inductive Instr
  | cli
  | sti
  | pushImm (v : UInt32)
  | pushEax
  | pushEsp
  | popEax
  | popf
  | pusha
  | popa
  | addEsp (v : UInt32)
  /-- `movw %ds, %ax` -/
  | movDsAx
  /-- `movw $v, %ax` -/
  | movImmAx (v : UInt16)
  | movAxDs
  | movAxEs
  | movAxFs
  | movAxGs
  /-- `mov g_next_context, %edx` and the same for `%esi`, `%edi` -/
  | loadNextEdx
  | loadNextEsi
  | loadNextEdi
  /-- `mov off(%edx), %eax` and so on: fields of the `CPUContext` at the base -/
  | movCtxEax (off : UInt32)
  | movCtxEbx (off : UInt32)
  | movCtxEcx (off : UInt32)
  | movCtxEdx (off : UInt32)
  | movCtxEsp (off : UInt32)
  | movCtxEbp (off : UInt32)
  /-- `mov off(%esi), %esi` -/
  | movCtxEsi (off : UInt32)
  /-- `mov off(%edi), %edi` -/
  | movCtxEdi (off : UInt32)
  /-- `push off(%edx)` -/
  | pushCtx (off : UInt32)
  | iret
  | ret

/-- The word at byte offset `off` of a `CPUContext`. -/
def ctxWord (c : CPUContext) (off : UInt32) : UInt32 :=
  if off = 0 then c.eip
  else if off = 4 then c.esp
  else if off = 8 then c.ebp
  else if off = 12 then c.eax
  else if off = 16 then c.ebx
  else if off = 20 then c.ecx
  else if off = 24 then c.edx
  else if off = 28 then c.esi
  else if off = 32 then c.edi
  else c.eflags

namespace Machine

def push (s : Machine) (v : UInt32) : Machine :=
  { s with cpu := { s.cpu with esp := s.cpu.esp - 4 }, mem := store32 s.mem (s.cpu.esp - 4) v }

/-- The word the stack pointer points at. -/
def top (s : Machine) : UInt32 := load32 s.mem s.cpu.esp

def drop (s : Machine) (bytes : UInt32) : Machine :=
  { s with cpu := { s.cpu with esp := s.cpu.esp + bytes } }

/-- The context field a base register points at. -/
def ctx (s : Machine) (base off : UInt32) : UInt32 := ctxWord (s.sched.procs base).context off

end Machine

/-- The low half of a register replaced. -/
def setLow (r : UInt32) (v : UInt16) : UInt32 := (r &&& 0xFFFF0000) ||| v.toUInt32

def exec (s : Machine) : Instr → Machine
  | .cli => { s with cpu := { s.cpu with eflags := s.cpu.eflags &&& ~~~ifFlag } }
  | .sti => { s with cpu := { s.cpu with eflags := s.cpu.eflags ||| ifFlag } }
  | .pushImm v => s.push v
  | .pushEax => s.push s.cpu.eax
  | .pushEsp => s.push s.cpu.esp
  | .popEax => ({ s with cpu := { s.cpu with eax := s.top } } : Machine).drop 4
  | .popf => ({ s with cpu := { s.cpu with eflags := s.top } } : Machine).drop 4
  | .pusha =>
    -- the ESP that is pushed is the one from before `pusha`
    (((((((s.push s.cpu.eax).push s.cpu.ecx).push s.cpu.edx).push s.cpu.ebx).push
      s.cpu.esp).push s.cpu.ebp).push s.cpu.esi).push s.cpu.edi
  | .popa =>
    -- the saved ESP is skipped
    { s with cpu := { s.cpu with
        edi := load32 s.mem s.cpu.esp
        esi := load32 s.mem (s.cpu.esp + 4)
        ebp := load32 s.mem (s.cpu.esp + 8)
        ebx := load32 s.mem (s.cpu.esp + 16)
        edx := load32 s.mem (s.cpu.esp + 20)
        ecx := load32 s.mem (s.cpu.esp + 24)
        eax := load32 s.mem (s.cpu.esp + 28)
        esp := s.cpu.esp + 32 } }
  | .addEsp v => s.drop v
  | .movDsAx => { s with cpu := { s.cpu with eax := setLow s.cpu.eax s.cpu.ds } }
  | .movImmAx v => { s with cpu := { s.cpu with eax := setLow s.cpu.eax v } }
  | .movAxDs => { s with cpu := { s.cpu with ds := s.cpu.eax.toUInt16 } }
  | .movAxEs => { s with cpu := { s.cpu with es := s.cpu.eax.toUInt16 } }
  | .movAxFs => { s with cpu := { s.cpu with fs := s.cpu.eax.toUInt16 } }
  | .movAxGs => { s with cpu := { s.cpu with gs := s.cpu.eax.toUInt16 } }
  | .loadNextEdx => { s with cpu := { s.cpu with edx := s.sched.gNextContext } }
  | .loadNextEsi => { s with cpu := { s.cpu with esi := s.sched.gNextContext } }
  | .loadNextEdi => { s with cpu := { s.cpu with edi := s.sched.gNextContext } }
  | .movCtxEax off => { s with cpu := { s.cpu with eax := s.ctx s.cpu.edx off } }
  | .movCtxEbx off => { s with cpu := { s.cpu with ebx := s.ctx s.cpu.edx off } }
  | .movCtxEcx off => { s with cpu := { s.cpu with ecx := s.ctx s.cpu.edx off } }
  | .movCtxEdx off => { s with cpu := { s.cpu with edx := s.ctx s.cpu.edx off } }
  | .movCtxEsp off => { s with cpu := { s.cpu with esp := s.ctx s.cpu.edx off } }
  | .movCtxEbp off => { s with cpu := { s.cpu with ebp := s.ctx s.cpu.edx off } }
  | .movCtxEsi off => { s with cpu := { s.cpu with esi := s.ctx s.cpu.esi off } }
  | .movCtxEdi off => { s with cpu := { s.cpu with edi := s.ctx s.cpu.edi off } }
  | .pushCtx off => s.push (s.ctx s.cpu.edx off)
  | .iret =>
    ({ s with cpu := { s.cpu with
        eip := s.top
        cs := load32 s.mem (s.cpu.esp + 4)
        eflags := load32 s.mem (s.cpu.esp + 8) } } : Machine).drop 12
  | .ret => ({ s with cpu := { s.cpu with eip := s.top } } : Machine).drop 4

def run (code : List Instr) (s : Machine) : Machine := code.foldl exec s

/-- Where an interrupt comes from: the timer (IRQ 0), `int $0x80`, or another
hardware interrupt. -/
inductive Source
  | timer
  | syscall
  | irq (line : UInt32)
  deriving DecidableEq, Repr

/-- The interrupt number the entry stub pushes. -/
def Source.intNo : Source → UInt32
  | .timer => 32
  | .syscall => 128
  | .irq line => 32 + line

/-- `irq0`, `irq1`, .. and `_syscall_handler` -/
def entryStub (src : Source) : List Instr := [.cli, .pushImm 0, .pushImm src.intNo]

/-- `irq_common_stub` and `syscall_common_stub` up to the `call`. -/
def commonStubHead : List Instr :=
  [.cli, .pusha, .movDsAx, .pushEax, .movImmAx 0x10, .movAxDs, .movAxEs, .movAxFs, .movAxGs,
    .pushEsp]

/-- The common stubs from behind the `call` on. -/
def commonStubTail : List Instr :=
  [.addEsp 4, .popEax, .movAxDs, .movAxEs, .movAxFs, .movAxGs, .popa, .addEsp 8, .sti, .iret]

def switchToTrampoline : List Instr :=
  [.cli, .loadNextEdx, .movCtxEax 36, .pushEax, .popf, .movCtxEsp 4, .movCtxEbp 8, .movCtxEax 12,
    .movCtxEbx 16, .movCtxEcx 20, .pushCtx 0, .movCtxEdx 24, .loadNextEsi, .movCtxEsi 28,
    .loadNextEdi, .movCtxEdi 32, .sti, .ret]

/-- What an interrupt depends on beyond the machine: the link-time addresses,
what C leaves in the caller-saved registers, what `kmalloc` and `pop_io_event`
answer, and what code outside the scheduler does to its data. -/
structure Env where
  trampoline : UInt32
  returnAddr : UInt32
  eax : UInt32
  ecx : UInt32
  edx : UInt32
  procPtr : UInt32
  stackPtr : UInt32
  popped : Bool
  other : SchedState → SchedState
  result : UInt32

/-- `kill_process` on the current process, as far as the scheduler sees it. -/
def killCurrent (s : SchedState) : SchedState :=
  s.setProc s.current { s.procs s.current with alive := false }

/-- `(HookType)arg` -/
def hookTypeOf (n : UInt32) : HookType :=
  if n = 0 then .timeReached else if n = 1 then .signal else .custom

/-- Store a system call's result in the frame. -/
def Outcome.setEax (regs v : UInt32) : Outcome → Outcome
  | .ret s m => .ret s (store32 m (regs + eaxOff) v)
  | o => o

/-- `sys_wait_io_event` and the store of its result: 1 with an event, else 0
after the process was put to wait and another one was looked for. Without a
place for the event the queue is not asked and nobody waits. -/
def sysWaitIoEvent (env : Env) (regs outEvent : UInt32) (s : SchedState) (m : Ram) : Outcome :=
  if s.current = 0 then .ret s (store32 m (regs + eaxOff) 0)
  else if outEvent ≠ 0 ∧ env.popped = true then .ret s (store32 m (regs + eaxOff) 1)
  else
    let s := if outEvent = 0 then s
      else processYieldForEvent s s.current .signal (UInt64.ofInt (s.procs s.current).pid)
    Outcome.setEax regs 0 (schedulerForceSwitchWithRegs env.trampoline regs s m)

/-- The calls that reach the scheduler; the others change only data of their
own and perhaps return a value. -/
def syscallDispatch (env : Env) (regs : UInt32) (s : SchedState) (m : Ram) : Outcome :=
  let num := load32 m (regs + eaxOff)
  let arg1 := load32 m (regs + ebxOff)
  let arg2 := load32 m (regs + ecxOff)
  let arg4 := load32 m (regs + esiOff)
  if num = 0x80 then schedulerForceSwitchWithRegs env.trampoline regs s m
  else if num = 0x81 then
    if s.current = 0 then .ret s m
    else
      schedulerForceSwitchWithRegs env.trampoline regs
        (processYieldForEvent s s.current (hookTypeOf arg1) arg2.toUInt64) m
  else if num = 0x82 then
    let (ptr, s) := kStartProcess arg2 arg4 env.procPtr env.stackPtr s
    .ret s (store32 m (regs + eaxOff)
      (if ptr = 0 then 0xFFFFFFFF else UInt32.ofInt (s.procs ptr).pid))
  else if num = 0x83 then
    let s := if s.current = 0 then s else killCurrent s
    schedulerExitCurrentAndSwitch (env.other s) m
  else if num = 0x85 then sysWaitIoEvent env regs arg1 s m
  else if num = 0x84 ∨ num = 0x87 then .ret (env.other s) (store32 m (regs + eaxOff) env.result)
  else .ret (env.other s) m

/-- `irq_handler` for the timer and for the other lines. -/
def irqHandler (env : Env) (regs : UInt32) (s : SchedState) (m : Ram) : Outcome :=
  if load32 m (regs + intNoOff) = 32 then timerHandler env.trampoline regs s m
  else .ret (env.other s) m

def handler (env : Env) : Source → UInt32 → SchedState → Ram → Outcome
  | .syscall => syscallDispatch env
  | _ => irqHandler env

/-- The CPU's part of an interrupt in ring 0. -/
def cpuInterrupt (s : Machine) : Machine :=
  let s := ((s.push s.cpu.eflags).push s.cpu.cs).push s.cpu.eip
  { s with cpu := { s.cpu with eflags := s.cpu.eflags &&& ~~~ifFlag } }

/-- From the end of the handler on: out through the trampoline when the frame
returns there or the handler jumps there. `none` when the kernel panics. -/
def wayOut (env : Env) (s : Machine) : Outcome → Option Machine
  | .panic => none
  | .jumpTrampoline k m => some (run switchToTrampoline { s with sched := k, mem := m })
  | .ret k m =>
    let cpu := { s.cpu with eax := env.eax, ecx := env.ecx, edx := env.edx }
    let s := run commonStubTail (Machine.drop { cpu := cpu, sched := k, mem := m } 4)
    if s.cpu.eip = env.trampoline then some (run switchToTrampoline s) else some s

/-- The machine at the `call` of a common stub. -/
def atCall (src : Source) (s : Machine) : Machine :=
  run (entryStub src ++ commonStubHead) (cpuInterrupt s)

/-- Interrupt, stub, handler and the way out. The `call` pushes a return
address, above which the handler finds its argument. -/
def interrupt (env : Env) (src : Source) (s : Machine) : Option Machine :=
  let s := (atCall src s).push env.returnAddr
  wayOut env s (handler env src (load32 s.mem (s.cpu.esp + 4)) s.sched s.mem)

end ContinuumOS.Sched.Stubs
