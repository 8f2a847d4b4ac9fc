import ContinuumOS.Sched.Events
import ContinuumOS.Sched.RoundTrip
import Mathlib

/-! # Events and their recipients

Every place of the kernel that queues an event: `dispatch_keyboard_event` of
`src/kernel/keyboard.cpp`, `dispatch_event` of `src/kernel/mouse.cpp`, the
focus events of `src/kernel/scheduler.cpp` and the listeners of
`src/kernel/pci.cpp`; with them the calls by which a process polls its queue or
waits for it. The window manager and the line editor of the shell keep no data
of the scheduler; what they call of it is a step of its own. -/
namespace ContinuumOS.Sched.Delivery
open ContinuumOS.Lib.Stack ContinuumOS.Sched.Events ContinuumOS.Sched.Scheduler

/-- `keyboard_event` -/
structure KeyboardEvent where
  scancode : UInt8
  shift : Bool
  capsLock : Bool
  ctrl : Bool
  alt : Bool
  special : Bool
  release : Bool
  enter : Bool
  backspace : Bool
  upArrow : Bool
  downArrow : Bool
  leftArrow : Bool
  rightArrow : Bool
  deriving DecidableEq, Repr

structure MouseEvent where
  x : Int
  y : Int
  dx : Int
  dy : Int
  scrollX : Int
  scrollY : Int
  buttons : UInt8
  changed : UInt8
  targetPid : Int
  deriving DecidableEq, Repr

/-- `pci_event_data` -/
structure PciEventData where
  bus : UInt8
  device : UInt8
  function : UInt8
  vendorId : UInt16
  deviceId : UInt16
  classCode : UInt8
  subclass : UInt8
  eventType : Nat
  deriving DecidableEq, Repr

inductive IOEvent
  | none
  | keyboard (event : KeyboardEvent)
  | mouse (event : MouseEvent)
  | process (code value : Int)
  | pci (data : PciEventData)
  deriving DecidableEq, Repr

instance : Inhabited IOEvent := ⟨.none⟩

/-- `PROCESS_EVENT_FOCUS_GAINED`, `PROCESS_EVENT_FOCUS_LOST` -/
def focusGained : Int := 1
def focusLost : Int := 2

/-- `PCI_EVENT_DEVICE_ADDED`, `PCI_EVENT_DEVICE_READY`, `PCI_EVENT_INTERRUPT` -/
def pciDeviceAdded : Nat := 1
def pciDeviceReady : Nat := 3
def pciInterrupt : Nat := 4

/-- `MAX_PCI_LISTENERS` -/
def maxPciListeners : Nat := 16

/-- The fields of `pci_device_t` that an event carries. -/
structure PciDevice where
  bus : UInt8
  device : UInt8
  function : UInt8
  vendorId : UInt16
  deviceId : UInt16
  classCode : UInt8
  subclass : UInt8
  deriving DecidableEq, Repr

/-- `pci_listener_t` -/
structure PciListener where
  proc : UInt32
  vendorId : UInt16
  deviceId : UInt16
  deriving DecidableEq, Repr

/-- The scheduler's data, the event queue of each process, and whom the event
sources know. `foregroundStack` has its top first. -/
structure Kernel where
  sched : SchedState
  events : UInt32 → QueueOwner IOEvent
  foregroundProc : UInt32
  foregroundStack : List UInt32
  shellProcess : UInt32
  pciListeners : List PciListener
  pciDevices : List PciDevice

namespace Kernel

/-- `proc->pid` as hooks are compared with it. -/
def signalOf (k : Kernel) (ptr : UInt32) : UInt64 := UInt64.ofInt (k.sched.procs ptr).pid

/-- `push_io_event`, which refuses `NULL`. -/
def push (k : Kernel) (ptr : UInt32) (event : IOEvent) : Kernel :=
  if ptr = 0 then k
  else { k with events := Function.update k.events ptr (pushIoEvent (k.events ptr) event) }

/-- `pop_io_event` -/
def pop (k : Kernel) (ptr : UInt32) : Option IOEvent × Kernel :=
  if ptr = 0 then (.none, k)
  else
    let (event, owner) := popIoEvent (k.events ptr)
    (event, { k with events := Function.update k.events ptr owner })

def resume (k : Kernel) (type : HookType) (value : UInt64) : Kernel :=
  { k with sched := schedulerResumeProcessesForEvent k.sched type value }

/-- `push_io_event` and `scheduler_resume_processes_for_event` in a row. -/
def deliver (k : Kernel) (ptr : UInt32) (event : IOEvent) : Kernel :=
  (k.push ptr event).resume .signal (k.signalOf ptr)

end Kernel

/-! ## Keyboard and mouse -/

/-- Without any process the shell gets the key itself. -/
def dispatchKeyboardEvent (k : Kernel) (event : KeyboardEvent) : Kernel :=
  if k.foregroundProc ≠ 0 then k.deliver k.foregroundProc (.keyboard event)
  else if k.shellProcess ≠ 0 then k.deliver k.shellProcess (.keyboard event)
  else if k.sched.current ≠ 0 then k.deliver k.sched.current (.keyboard event)
  else k

/-- `dispatch_event` of the mouse. -/
def dispatchMouseEvent (k : Kernel) (event : MouseEvent) : Kernel :=
  let target := k.foregroundProc
  let target := if target = 0 then k.shellProcess else target
  let target := if target = 0 then k.sched.current else target
  if target = 0 then k
  else k.deliver target (.mouse { event with targetPid := (k.sched.procs target).pid })

/-! ## The foreground -/

def dispatchFocusEvent (k : Kernel) (ptr : UInt32) (code value : Int) : Kernel :=
  if ptr = 0 ∨ (k.sched.procs ptr).alive = false then k else k.deliver ptr (.process code value)

def schedulerSwitchForeground (k : Kernel) (prev next : UInt32) : Kernel :=
  if prev = next then k
  else
    let k := { k with foregroundProc := next }
    let k := if prev ≠ 0 then
        dispatchFocusEvent k prev focusLost (if next ≠ 0 then (k.sched.procs next).pid else -1)
      else k
    if next ≠ 0 then dispatchFocusEvent k next focusGained (k.sched.procs next).pid else k

def schedulerSetForeground (k : Kernel) (proc : UInt32) : Kernel :=
  if k.foregroundProc = proc then k
  else
    let previous := k.foregroundProc
    let k := if previous ≠ 0 ∧ k.foregroundStack.length < maxProcesses then
        { k with foregroundStack := previous :: k.foregroundStack }
      else k
    schedulerSwitchForeground k previous proc

/-- The hooks of the process that comes back are dropped, whatever they wait
for. -/
def schedulerRestoreForeground (k : Kernel) (owner : UInt32) : Kernel :=
  if owner ≠ 0 ∧ owner ≠ k.foregroundProc then k
  else
    let previous := k.foregroundProc
    let target := k.foregroundStack.headD 0
    let k := { k with foregroundStack := k.foregroundStack.tail }
    let k := if target ≠ 0 ∧ (k.sched.procs target).alive = true then
        { k with sched := k.sched.setProc target { k.sched.procs target with hooks := [] } }
      else k
    schedulerSwitchForeground k previous target

/-- `process_is_valid` comes first. -/
def killProcess (k : Kernel) (ptr : UInt32) : Kernel :=
  if ptr = 0 ∨ (k.events ptr).magic ≠ processMagic then k
  else
    let k := { k with sched := k.sched.setProc ptr { k.sched.procs ptr with alive := false } }
    schedulerRestoreForeground k ptr

/-! ## PCI -/

/-- The filter of a listener; `0xFFFF` matches any. -/
def pciMatches (vendorId deviceId : UInt16) (dev : PciDevice) : Bool :=
  (vendorId == 0xFFFF || dev.vendorId == vendorId) &&
    (deviceId == 0xFFFF || dev.deviceId == deviceId)

def pciEvent (dev : PciDevice) (eventType : Nat) : IOEvent :=
  .pci ⟨dev.bus, dev.device, dev.function, dev.vendorId, dev.deviceId, dev.classCode, dev.subclass,
    eventType⟩

/-- The listener of `proc` gets another filter. -/
def updateFilter (proc : UInt32) (vendorId deviceId : UInt16) : List PciListener → List PciListener
  | [] => []
  | listener :: rest =>
    if listener.proc = proc then ⟨proc, vendorId, deviceId⟩ :: rest
    else listener :: updateFilter proc vendorId deviceId rest

/-- A new listener is told of the devices there are. -/
def pciRegisterProcessListener (k : Kernel) (proc : UInt32) (vendorId deviceId : UInt16) : Kernel :=
  if proc = 0 then k
  else if maxPciListeners ≤ k.pciListeners.length then k
  else if k.pciListeners.any fun listener => listener.proc == proc then
    { k with pciListeners := updateFilter proc vendorId deviceId k.pciListeners }
  else
    let k := { k with pciListeners := k.pciListeners ++ [PciListener.mk proc vendorId deviceId] }
    k.pciDevices.foldl (fun k dev =>
      if pciMatches vendorId deviceId dev then k.push proc (pciEvent dev pciDeviceAdded) else k) k

def pciUnregisterProcessListener (k : Kernel) (proc : UInt32) : Kernel :=
  if proc = 0 then k
  else { k with pciListeners := k.pciListeners.eraseP fun listener => listener.proc == proc }

def pciSendEventToListeners (k : Kernel) (dev : PciDevice) (eventType : Nat) : Kernel :=
  k.pciListeners.foldl (fun k listener =>
    if pciMatches listener.vendorId listener.deviceId dev then
      k.push listener.proc (pciEvent dev eventType)
    else k) k

/-- The device an address stands for. -/
def pciDeviceAt (k : Kernel) (bus device function : UInt8) : Option PciDevice :=
  k.pciDevices.find? fun dev =>
    dev.bus == bus && dev.device == device && dev.function == function

/-- `pci_notify_device_ready` and `pci_notify_interrupt`, which differ in the
type of the event. -/
def pciNotify (eventType : Nat) (k : Kernel) (bus device function : UInt8) : Kernel :=
  match pciDeviceAt k bus device function with
  | some dev => pciSendEventToListeners k dev eventType
  | none => k

def pciNotifyDeviceReady : Kernel → UInt8 → UInt8 → UInt8 → Kernel := pciNotify pciDeviceReady

def pciNotifyInterrupt : Kernel → UInt8 → UInt8 → UInt8 → Kernel := pciNotify pciInterrupt

/-! ## Polling and waiting -/

/-- `outEvent` is the pointer the event is stored through. -/
def processPollIoEvent (k : Kernel) (proc outEvent : UInt32) : Option IOEvent × Kernel :=
  if proc = 0 ∨ outEvent = 0 then (none, k) else k.pop proc

def processWaitForIoEvent (k : Kernel) (proc outEvent : UInt32) : Option IOEvent × Kernel :=
  if proc = 0 ∨ outEvent = 0 then (none, k)
  else
    match k.pop proc with
    | (some event, k) => (some event, k)
    | (none, k) =>
      (none, { k with sched := processYieldForEvent k.sched proc .signal (k.signalOf proc) })

/-- The interrupt frame a handler works on. -/
structure Frame where
  trampoline : UInt32
  regs : UInt32
  mem : Ram

namespace Kernel

/-- The kernel after a handler of the scheduler; `none` when it panics. -/
def ended (k : Kernel) : Outcome → Option Kernel
  | .ret s _ => some { k with sched := s }
  | .jumpTrampoline s _ => some { k with sched := s }
  | .panic => none

end Kernel

/-- `sys_wait_io_event`; without an event another process is looked for. -/
def sysWaitIoEvent (k : Kernel) (frame : Frame) (outEvent : UInt32) : Option Kernel :=
  if k.sched.current = 0 then some k
  else
    match processWaitForIoEvent k k.sched.current outEvent with
    | (some _, k) => some k
    | (none, k) =>
      k.ended (schedulerForceSwitchWithRegs frame.trampoline frame.regs k.sched frame.mem)

/-- What can happen to the kernel: the system calls of the process that runs,
the interrupts, and what windows and other code do to the foreground. -/
inductive Act
  | poll (outEvent : UInt32)
  | wait (frame : Frame) (outEvent : UInt32)
  | yield (frame : Frame)
  | tick (frame : Frame)
  | exit
  | start (entry stackSize procPtr stackPtr : UInt32)
  | becomeShell
  | key (event : KeyboardEvent)
  | mouse (event : MouseEvent)
  | setForeground (proc : UInt32)
  | restoreForeground (owner : UInt32)
  | kill (proc : UInt32)
  | pciRegister (vendorId deviceId : UInt16)
  | pciUnregister
  | pciReady (bus device function : UInt8)
  | pciInterrupt (bus device function : UInt8)

/-- One step; `none` when the kernel panics. -/
def step (k : Kernel) : Act → Option Kernel
  | .poll outEvent => some (processPollIoEvent k k.sched.current outEvent).2
  | .wait frame outEvent => sysWaitIoEvent k frame outEvent
  | .yield frame =>
    k.ended (schedulerForceSwitchWithRegs frame.trampoline frame.regs k.sched frame.mem)
  | .tick frame => k.ended (timerHandler frame.trampoline frame.regs k.sched frame.mem)
  | .exit =>
    let k := killProcess k k.sched.current
    k.ended (schedulerExitCurrentAndSwitch k.sched fun _ => 0)
  | .start entry stackSize procPtr stackPtr =>
    let k := if procPtr = 0 then k
      else { k with events := Function.update k.events procPtr startedProcess }
    some { k with sched := (kStartProcess entry stackSize procPtr stackPtr k.sched).2 }
  | .becomeShell =>
    -- the head of `shell_entry`
    if k.sched.current = 0 then some k
    else some (schedulerSetForeground { k with shellProcess := k.sched.current } k.sched.current)
  | .key event => some (dispatchKeyboardEvent k event)
  | .mouse event => some (dispatchMouseEvent k event)
  | .setForeground proc => some (schedulerSetForeground k proc)
  | .restoreForeground owner => some (schedulerRestoreForeground k owner)
  | .kill proc => some (killProcess k proc)
  | .pciRegister vendorId deviceId =>
    some (pciRegisterProcessListener k k.sched.current vendorId deviceId)
  | .pciUnregister => some (pciUnregisterProcessListener k k.sched.current)
  | .pciReady bus device function => some (pciNotifyDeviceReady k bus device function)
  | .pciInterrupt bus device function => some (pciNotifyInterrupt k bus device function)

/-- The scheduler after `scheduler_init`, before any process was started. -/
def bootedSched : SchedState where
  procs _ := ⟨0, ⟨0, 0, 0, 0, 0, 0, 0, 0, 0, 0⟩, false, [], 0⟩
  processTable _ := 0
  processCount := 0
  currentProcessIdx := -1
  xorshift32State := 2463534242
  quantumCounter := 0
  lastRegs := 0
  gNextContext := 0
  timerTicks := 0
  nextPid := 1

/-- The kernel after `scheduler_init` and `pci_init`, which found `devices`. -/
def booted (devices : List PciDevice) : Kernel where
  sched := bootedSched
  events _ := ⟨0, ⟨0, fun _ => .none, 0, 0, 0, 0⟩⟩
  foregroundProc := 0
  foregroundStack := []
  shellProcess := 0
  pciListeners := []
  pciDevices := devices

/-- The states a run goes through, from `k` on. -/
def visited : List Act → Kernel → List Kernel
  | [], k => [k]
  | act :: acts, k =>
    k :: match step k act with
      | some k' => visited acts k'
      | none => []

end ContinuumOS.Sched.Delivery
