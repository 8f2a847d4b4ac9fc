import ContinuumOS.Interrupts.Controllers
import ContinuumOS.Lib.Runs
import Mathlib.Algebra.Group.Nat.Defs
import Mathlib.Data.List.Induction

/-! # Interrupt delivery

From an edge on an interrupt line to the handler that the kernel calls:
`src/kernel/gdt.cpp`, `src/kernel/idt.cpp`, the entry stubs and `irq_handler` of
`src/kernel/isr.cpp`, over the two controllers. The processor reads segment
descriptors and gates as bytes. A hardware interrupt is one step: its gate
clears the interrupt flag and `iret` restores it, so nothing comes between. The
handlers appear with the commands that they give the controllers. The abstract
machine (`Lines`) knows neither controllers nor tables: it has lines with
pending edges, and calls the handler of the first one in the order of priority
that is not masked. -/
namespace ContinuumOS.Interrupts.Delivery
open ContinuumOS.Interrupts.Controllers

/-! ## The tables -/

/-- A number stored with its low byte first. -/
def word : List UInt8 → Nat
  | [] => 0
  | b :: bs => b.toNat + 256 * word bs

def halves (v : UInt16) : List UInt8 := [v.toUInt8, (v >>> 8).toUInt8]

structure GDTEntry where
  limitLow : UInt16
  baseLow : UInt16
  baseMid : UInt8
  access : UInt8
  granularity : UInt8
  baseHigh : UInt8
  deriving DecidableEq, Repr

def GDTEntry.bytes (e : GDTEntry) : List UInt8 :=
  halves e.limitLow ++ halves e.baseLow ++ [e.baseMid, e.access, e.granularity, e.baseHigh]

structure IDTEntry where
  offsetLow : UInt16
  selector : UInt16
  zero : UInt8
  typeAttr : UInt8
  offsetHigh : UInt16
  deriving DecidableEq, Repr

def IDTEntry.bytes (e : IDTEntry) : List UInt8 :=
  halves e.offsetLow ++ halves e.selector ++ [e.zero, e.typeAttr] ++ halves e.offsetHigh

def setGdtEntry (index : Fin 5) (base limit : UInt32) (access gran : UInt8)
    (gdt : Fin 5 → GDTEntry) : Fin 5 → GDTEntry :=
  Function.update gdt index
    { limitLow := (limit &&& 0xFFFF).toUInt16
      baseLow := (base &&& 0xFFFF).toUInt16
      baseMid := ((base >>> 16) &&& 0xFF).toUInt8
      access
      granularity := ((limit >>> 16) &&& 0x0F).toUInt8 ||| (gran &&& 0xF0)
      baseHigh := ((base >>> 24) &&& 0xFF).toUInt8 }

/-- `init_gdt` up to the `lgdt`. -/
def initGdt (gdt : Fin 5 → GDTEntry) : Fin 5 → GDTEntry :=
  let gdt := setGdtEntry 0 0 0 0 0 gdt
  let gdt := setGdtEntry 1 0 0xFFFFF 0x9A 0xCF gdt
  let gdt := setGdtEntry 2 0 0xFFFFF 0x92 0xCF gdt
  let gdt := setGdtEntry 3 0 0xFFFFF 0xFA 0xCF gdt
  setGdtEntry 4 0 0xFFFFF 0xF2 0xCF gdt

def idtSetGate (num : UInt8) (offset : UInt32) (selector : UInt16) (flags : UInt8)
    (idt : UInt8 → IDTEntry) : UInt8 → IDTEntry :=
  Function.update idt num
    { offsetLow := (offset &&& 0xFFFF).toUInt16
      offsetHigh := ((offset >>> 16) &&& 0xFFFF).toUInt16
      selector
      zero := 0
      typeAttr := flags ||| 0x80 }

/-- The entry stubs of `src/kernel/isr_stub.s` and `src/kernel/syscall_handler.s`. -/
inductive Entry
  | isr (n : Fin 32)
  | irq (n : Fin 16)
  | syscall
  deriving DecidableEq, Repr

/-- The stub of a vector. -/
def Entry.ofVector (v : UInt8) : Option Entry :=
  if h : v.toNat < 32 then some (.isr ⟨v.toNat, h⟩)
  else if h : v.toNat - 32 < 16 then some (.irq ⟨v.toNat - 32, h⟩)
  else if v = 0x80 then some .syscall
  else none

/-- The addresses that the linker gave the stubs. -/
structure Link where
  isrStubTable : Fin 32 → UInt32
  irqStubTable : Fin 16 → UInt32
  syscallHandler : UInt32
  /-- The stub at an address. -/
  codeAt : UInt32 → Option Entry
  isrStub : ∀ n, codeAt (isrStubTable n) = some (.isr n)
  irqStub : ∀ n, codeAt (irqStubTable n) = some (.irq n)
  syscallStub : codeAt syscallHandler = some .syscall

/-- The stubs in a row, from 1 MiB on. -/
def Link.inARow : Link where
  isrStubTable n := 0x100000 + .ofNat n
  irqStubTable n := 0x100020 + .ofNat n
  syscallHandler := 0x100030
  codeAt a :=
    if h : (a - 0x100000).toNat < 32 then some (.isr ⟨_, h⟩)
    else if h : (a - 0x100020).toNat < 16 then some (.irq ⟨_, h⟩)
    else if a = 0x100030 then some .syscall
    else none
  isrStub := by decide
  irqStub := by decide
  syscallStub := by decide

/-- `init_idt` up to the `lidt`. -/
def initIdt (link : Link) (idt : UInt8 → IDTEntry) : UInt8 → IDTEntry :=
  let idt := (List.range 256).foldl (fun idt i => idtSetGate (.ofNat i) 0 0 0 idt) idt
  let idt := (List.finRange 32).foldl
    (fun idt i => idtSetGate (.ofNat i.val) (link.isrStubTable i) 0x08 0x8E idt) idt
  (List.finRange 16).foldl
    (fun idt i => idtSetGate (.ofNat (32 + i.val)) (link.irqStubTable i) 0x08 0x8E idt) idt

def initSyscallHandler (link : Link) (idt : UInt8 → IDTEntry) : UInt8 → IDTEntry :=
  idtSetGate 0x80 link.syscallHandler 0x08 0x8E idt

/-! ## The processor -/

/-- Base and limit of a descriptor, if it is one of a present 32-bit code
segment of ring 0. -/
def codeSegment : List UInt8 → Option (Nat × Nat)
  | [l0, l1, b0, b1, b2, access, gran, b3] =>
    if access &&& 0xF8 = 0x98 ∧ gran &&& 0x40 = 0x40 then
      let limit := word [l0, l1, gran &&& 0x0F]
      some (word [b0, b1, b2, b3],
        -- the limit counts pages when the granularity bit is set
        if gran &&& 0x80 = 0x80 then limit * 4096 + 4095 else limit)
    else none
  | _ => none

/-- Selector and offset of a gate, if it is a present 32-bit interrupt gate. -/
def interruptGate : List UInt8 → Option (Nat × Nat)
  | [o0, o1, s0, s1, _, attr, o2, o3] =>
    if attr &&& 0x9F = 0x8E then some (word [s0, s1], word [o0, o1, o2, o3]) else none
  | _ => none

/-- The descriptor that a selector of the global table stands for. -/
def descriptor (gdt : Fin 5 → GDTEntry) (selector : Nat) : Option (List UInt8) :=
  if h : selector % 8 < 4 ∧ selector / 8 < 5 then some (gdt ⟨selector / 8, h.2⟩).bytes else none

/-- Where an interrupt with a vector enters the kernel; none if the processor
faults instead. -/
def entryPoint (gdt : Fin 5 → GDTEntry) (idt : UInt8 → IDTEntry) (v : UInt8) :
    Option UInt32 := do
  let (selector, offset) ← interruptGate (idt v).bytes
  let (base, limit) ← codeSegment (← descriptor gdt selector)
  if offset ≤ limit then some (.ofNat (base + offset)) else none

/-! ## The kernel -/

/-- The handlers of hardware interrupts. -/
inductive Callback
  | timerHandler
  | keyboardCallback
  | mouseCallback
  deriving DecidableEq, Repr

/-- What a handler does to the controllers. -/
def Callback.run : Callback → Pics → Pics
  | .timerHandler, p => p
  | .keyboardCallback, p => picSendEoi 1 p
  | .mouseCallback, p => picSendEoi 12 p

structure Machine where
  pics : Pics
  gdt : Fin 5 → GDTEntry
  idt : UInt8 → IDTEntry
  /-- `interrupt_handlers` -/
  handlers : UInt8 → Option Callback
  /-- The interrupt flag of the processor. -/
  enabled : Bool
  /-- The calls of `irq_handler`: `int_no`, and what it called. -/
  calls : List (UInt32 × Option Callback)

/-- `irq_handler`; none if it would index `interrupt_handlers` out of bounds. -/
def irqHandler (intNo : UInt32) (m : Machine) : Option Machine :=
  let pics := if intNo ≥ 40 then outb 0xA0 0x20 m.pics else m.pics
  let pics := if intNo ≥ 32 then outb 0x20 0x20 pics else pics
  if intNo < 256 then
    let handler := m.handlers intNo.toUInt8
    some { m with pics := handler.elim pics (·.run pics), calls := m.calls ++ [(intNo, handler)] }
  else none

/-- The processor looks for an interrupt between two instructions. -/
def interrupt (link : Link) (m : Machine) : Option Machine :=
  if m.enabled then
    match m.pics.acknowledge with
    | none => some m
    | some (v, pics) => do
      match ← link.codeAt (← entryPoint m.gdt m.idt v) with
      | .irq n => irqHandler (.ofNat (32 + n)) { m with pics }
      | _ => none
  else some m

/-- The lines of devices. Line 2 of the first controller is none of them. -/
inductive Line
  | master (n : Fin 8) (device : n ≠ cascade)
  | slave (n : Fin 8)
  deriving DecidableEq, Repr

inductive Event
  /-- A device asks for an interrupt. -/
  | edge (l : Line)
  | interrupt
  /-- `sti` and `cli` -/
  | setFlag (on : Bool)
  /-- `register_interrupt_handler` -/
  | register (n : UInt8) (handler : Callback)
  /-- `pic_unmask_irq` -/
  | unmask (irq : Fin 16)
  /-- `keyboard_service_pending` with this many bytes waiting -/
  | servicePending (bytes : Nat)
  deriving DecidableEq, Repr

def edge : Line → Pics → Pics
  | .master n _, p => { p with master := p.master.request n }
  | .slave n, p => { p with slave := p.slave.request n }

def step (link : Link) (m : Machine) : Event → Option Machine
  | .edge l => some { m with pics := edge l m.pics }
  | .interrupt => interrupt link m
  | .setFlag on => some { m with enabled := on }
  | .register n handler => some { m with handlers := Function.update m.handlers n (some handler) }
  | .unmask irq => some { m with pics := (picUnmaskIrq irq m.pics).1 }
  | .servicePending bytes => some { m with pics := (picSendEoi 1)^[bytes] m.pics }

/-- The machine after `init_gdt`, `init_pic`, `init_idt` and
`init_syscall_handler`, on controllers in any state. -/
def boot (link : Link) (pics : Pics) (gdt : Fin 5 → GDTEntry) (idt : UInt8 → IDTEntry) :
    Machine where
  pics := picRemap pics
  gdt := initGdt gdt
  idt := initSyscallHandler link (initIdt link idt)
  handlers := fun _ => none
  enabled := false
  calls := []

/-! ## The abstract machine -/

namespace Line

def irq : Line → Fin 16
  | .master n _ => Fin.castAdd 8 n
  | .slave n => Fin.natAdd 8 n

def intNo (l : Line) : UInt32 := .ofNat (32 + l.irq)

def vector (l : Line) : UInt8 := .ofNat (32 + l.irq)

/-- The lines in the order of their priority: those of the second controller
come where it is connected to the first. -/
def order : List Line :=
  (List.finRange 8).flatMap fun n =>
    if h : n = cascade then (List.finRange 8).map .slave else [.master n h]

end Line

structure Lines where
  pending : Line → Bool
  masked : Fin 16 → Bool
  enabled : Bool
  handlers : UInt8 → Option Callback
  calls : List (UInt32 × Option Callback)

namespace Lines

/-- A line of the second controller is masked with line 2, too. -/
def deliverable (a : Lines) : Line → Bool
  | .master n h => a.pending (.master n h) && !a.masked (Line.master n h).irq
  | .slave n => a.pending (.slave n) && !a.masked (Line.slave n).irq &&
    !a.masked (Fin.castAdd 8 cascade)

def deliver (a : Lines) (l : Line) : Lines :=
  { a with
    pending := Function.update a.pending l false
    calls := a.calls ++ [(l.intNo, a.handlers l.vector)] }

def step (a : Lines) : Event → Lines
  | .edge l => { a with pending := Function.update a.pending l true }
  | .interrupt =>
    if a.enabled then (Line.order.find? a.deliverable).elim a a.deliver else a
  | .setFlag on => { a with enabled := on }
  | .register n handler => { a with handlers := Function.update a.handlers n (some handler) }
  | .unmask irq => { a with masked := Function.update a.masked irq false }
  | .servicePending _ => a

def run (a : Lines) (events : List Event) : Lines := events.foldl step a

/-- Before the first event, with the masks that the firmware left. -/
def initial (masked : Fin 16 → Bool) : Lines where
  pending := fun _ => false
  masked
  enabled := false
  handlers := fun _ => none
  calls := []

end Lines

/-- The edges that a pair of controllers has latched. -/
def pendingIn (p : Pics) : Line → Bool
  | .master n _ => p.master.requested n
  | .slave n => p.slave.requested n

def maskedIn (p : Pics) (irq : Fin 16) : Bool := Fin.addCases p.master.masked p.slave.masked irq

/-- What the abstract machine sees of the concrete one. -/
def Machine.lines (m : Machine) : Lines where
  pending := pendingIn m.pics
  masked := maskedIn m.pics
  enabled := m.enabled
  handlers := m.handlers
  calls := m.calls

/-! ## What the processor reads -/

theorem word_halves (v : UInt16) (bs : List UInt8) :
    word (halves v ++ bs) = v.toNat + 65536 * word bs := by
  have hv := v.toNat_lt
  simp only [halves, word, List.cons_append, List.nil_append, UInt16.toNat_toUInt8,
    UInt16.toNat_shiftRight]
  simp
  omega

theorem low_half (v : UInt32) : (v &&& 0xFFFF).toUInt16.toNat = v.toNat % 65536 := by
  rw [UInt32.toNat_toUInt16, UInt32.toNat_and,
    show UInt32.toNat 0xFFFF = 2 ^ 16 - 1 from rfl, Nat.and_two_pow_sub_one_eq_mod, Nat.mod_mod]

theorem shift_16 (v : UInt32) : (v >>> 16).toNat = v.toNat / 65536 := by
  rw [UInt32.toNat_shiftRight, Nat.shiftRight_eq_div_pow]
  rfl

theorem shift_24 (v : UInt32) : (v >>> 24).toNat = v.toNat / 16777216 := by
  rw [UInt32.toNat_shiftRight, Nat.shiftRight_eq_div_pow]
  rfl

theorem high_half (v : UInt32) :
    ((v >>> 16) &&& 0xFFFF).toUInt16.toNat = v.toNat / 65536 := by
  have hv := v.toNat_lt
  rw [low_half, shift_16]
  omega

theorem low_byte (v : UInt32) : (v &&& 0xFF).toUInt8.toNat = v.toNat % 256 := by
  rw [UInt32.toNat_toUInt8, UInt32.toNat_and,
    show UInt32.toNat 0xFF = 2 ^ 8 - 1 from rfl, Nat.and_two_pow_sub_one_eq_mod, Nat.mod_mod]

/-- **A gate** comes back from its bytes. -/
theorem interruptGate_set (num : UInt8) (offset : UInt32) (selector : UInt16)
    (idt : UInt8 → IDTEntry) :
    interruptGate (idtSetGate num offset selector 0x8E idt num).bytes =
      some (selector.toNat, offset.toNat) := by
  have hgate : ∀ lo hi : UInt16, interruptGate (IDTEntry.bytes ⟨lo, selector, 0, 0x8E, hi⟩) =
      some (word (halves selector ++ []), word (halves lo ++ (halves hi ++ []))) :=
    fun _ _ => if_pos (show (0x8E : UInt8) &&& 0x9F = 0x8E by decide)
  have ho := offset.toNat_lt
  rw [idtSetGate, Function.update_self, show (0x8E ||| 0x80 : UInt8) = 0x8E by decide, hgate]
  simp only [word_halves, high_half, word]
  rw [low_half]
  refine congrArg some (Prod.ext ?_ ?_)
  · omega
  · dsimp only
    omega

theorem interruptGate_clear (num : UInt8) (idt : UInt8 → IDTEntry) :
    interruptGate (idtSetGate num 0 0 0 idt num).bytes = none := by
  rw [idtSetGate, Function.update_self]
  rfl

theorem idtSetGate_other {num v : UInt8} (h : v ≠ num) (offset : UInt32) (selector : UInt16)
    (flags : UInt8) (idt : UInt8 → IDTEntry) :
    idtSetGate num offset selector flags idt v = idt v := by
  rw [idtSetGate, Function.update_of_ne h]

/-- **A code segment** of ring 0 whose limit counts pages comes back from its
bytes. -/
theorem codeSegment_set (index : Fin 5) (base limit : UInt32) (gdt : Fin 5 → GDTEntry)
    (h : limit.toNat < 2 ^ 20) :
    codeSegment (setGdtEntry index base limit 0x9A 0xCF gdt index).bytes =
      some (base.toNat, limit.toNat * 4096 + 4095) := by
  have hbase := base.toNat_lt
  have hgran : ∀ k : Fin 16, (UInt8.ofNat k ||| (0xCF &&& 0xF0)) &&& 0x40 = 0x40 ∧
      (UInt8.ofNat k ||| (0xCF &&& 0xF0)) &&& 0x80 = 0x80 ∧
      ((UInt8.ofNat k ||| (0xCF &&& 0xF0)) &&& 0x0F).toNat = k := by
    decide
  have hhigh : ((limit >>> 16) &&& 0x0F).toUInt8 =
      UInt8.ofNat (⟨limit.toNat / 65536, by omega⟩ : Fin 16) := by
    apply UInt8.toNat_inj.mp
    rw [UInt32.toNat_toUInt8, UInt32.toNat_and, show UInt32.toNat 0x0F = 2 ^ 4 - 1 from rfl,
      Nat.and_two_pow_sub_one_eq_mod, shift_16, UInt8.toNat_ofNat']
    dsimp only
    omega
  obtain ⟨hwide, hpages, hlimit⟩ := hgran ⟨limit.toNat / 65536, by omega⟩
  have hdescriptor : ∀ (l b : UInt16) (b₂ g b₃ : UInt8), g &&& 0x40 = 0x40 → g &&& 0x80 = 0x80 →
      codeSegment (GDTEntry.bytes ⟨l, b, b₂, 0x9A, g, b₃⟩) =
        some (word (halves b ++ [b₂, b₃]), word (halves l ++ [g &&& 0x0F]) * 4096 + 4095) := by
    intro l b b₂ g b₃ h4 h8
    have haccess : (0x9A : UInt8) &&& 0xF8 = 0x98 := by decide
    exact (if_pos ⟨haccess, h4⟩).trans (congrArg (fun n => some (_, n)) (if_pos h8))
  rw [setGdtEntry, Function.update_self, hhigh, hdescriptor _ _ _ _ _ hwide hpages]
  simp only [word_halves, low_half, word, hlimit, low_byte, shift_16, shift_24]
  refine congrArg some (Prod.ext ?_ ?_)
  · dsimp only
    omega
  · dsimp only
    omega

/-! ## The vectors -/

section

variable {α : Type} {num : α → UInt8} {address : α → UInt32} {flags : UInt8}

theorem gates_other (selector : UInt16) (idt : UInt8 → IDTEntry) {xs : List α} {v : UInt8}
    (h : ∀ i ∈ xs, v ≠ num i) :
    xs.foldl (fun idt i => idtSetGate (num i) (address i) selector flags idt) idt v = idt v := by
  induction xs generalizing idt with
  | nil => rfl
  | cons x xs ih =>
    rw [List.foldl_cons, ih _ fun i hi => h i (.tail _ hi), idtSetGate_other (h x (.head _))]

/-- A loop over gates sets the gate of each of its rounds, provided that the
rounds for one vector agree. -/
theorem gates_set (selector : UInt16) (idt : UInt8 → IDTEntry) {xs : List α} {i : α} (hi : i ∈ xs)
    (h : ∀ j, num j = num i → address j = address i) :
    xs.foldl (fun idt i => idtSetGate (num i) (address i) selector flags idt) idt (num i) =
      idtSetGate (num i) (address i) selector flags idt (num i) := by
  induction xs using List.reverseRecOn with
  | nil => cases hi
  | append_singleton xs x ih =>
    rw [List.foldl_append, List.foldl_cons, List.foldl_nil]
    by_cases hx : num x = num i
    · rw [hx, h x hx]
      simp only [idtSetGate, Function.update_self]
    · have hmem : i ∈ xs := (List.mem_append.mp hi).resolve_right fun hlast =>
        hx (congrArg num (List.mem_singleton.mp hlast).symm)
      rw [idtSetGate_other (Ne.symm hx), ih hmem]

end

theorem entryPoint_of_gate (gdt : Fin 5 → GDTEntry) {idt : UInt8 → IDTEntry} {v : UInt8}
    {offset : UInt32} (h : interruptGate (idt v).bytes = some (0x08, offset.toNat)) :
    entryPoint (initGdt gdt) idt v = some offset := by
  have hlt := offset.toNat_lt
  have hsegment : codeSegment (initGdt gdt 1).bytes = some (0, 0xFFFFFFFF) :=
    codeSegment_set 1 0 0xFFFFF gdt (by decide)
  have hdescriptor : descriptor (initGdt gdt) 0x08 = some (initGdt gdt 1).bytes := rfl
  simp only [entryPoint, h, hdescriptor, hsegment, Option.bind_eq_bind, Option.bind_some]
  rw [if_pos (by omega), Nat.zero_add, UInt32.ofNat_toNat]

theorem entryPoint_of_none (gdt : Fin 5 → GDTEntry) {idt : UInt8 → IDTEntry} {v : UInt8}
    (h : interruptGate (idt v).bytes = none) : entryPoint gdt idt v = none := by
  simp only [entryPoint, h, Option.bind_eq_bind, Option.bind_none]

section

variable (link : Link) (pics : Pics) (gdt : Fin 5 → GDTEntry) (idt : UInt8 → IDTEntry)

theorem toNat_isr (i : Fin 32) : (UInt8.ofNat i.val).toNat = i := by
  revert i
  decide

theorem toNat_irq (i : Fin 16) : (UInt8.ofNat (32 + i.val)).toNat = 32 + i := by
  revert i
  decide

theorem entryPoint_isr (i : Fin 32) :
    entryPoint (initGdt gdt) (initSyscallHandler link (initIdt link idt)) (.ofNat i.val) =
      some (link.isrStubTable i) := by
  have hirq : ∀ j ∈ List.finRange 16, UInt8.ofNat i.val ≠ .ofNat (32 + j.val) := fun j _ he => by
    have hnat := congrArg UInt8.toNat he
    rw [toNat_isr, toNat_irq] at hnat
    omega
  have hsyscall : ∀ i : Fin 32, UInt8.ofNat i.val ≠ 0x80 := by decide
  have hsame : ∀ j : Fin 32, UInt8.ofNat j.val = .ofNat i.val →
      link.isrStubTable j = link.isrStubTable i := fun j hj => by
    have hnat := congrArg UInt8.toNat hj
    rw [toNat_isr, toNat_isr] at hnat
    rw [Fin.ext hnat]
  apply entryPoint_of_gate
  rw [initSyscallHandler, idtSetGate_other (hsyscall i), initIdt, gates_other _ _ hirq,
    gates_set _ _ (List.mem_finRange i) hsame]
  exact interruptGate_set _ _ _ _

theorem entryPoint_irq (i : Fin 16) :
    entryPoint (initGdt gdt) (initSyscallHandler link (initIdt link idt)) (.ofNat (32 + i.val)) =
      some (link.irqStubTable i) := by
  have hsyscall : ∀ i : Fin 16, UInt8.ofNat (32 + i.val) ≠ 0x80 := by decide
  have hsame : ∀ j : Fin 16, UInt8.ofNat (32 + j.val) = .ofNat (32 + i.val) →
      link.irqStubTable j = link.irqStubTable i := fun j hj => by
    have hnat := congrArg UInt8.toNat hj
    rw [toNat_irq, toNat_irq] at hnat
    rw [Fin.ext (Nat.add_left_cancel hnat)]
  apply entryPoint_of_gate
  rw [initSyscallHandler, idtSetGate_other (hsyscall i), initIdt,
    gates_set _ _ (List.mem_finRange i) hsame]
  exact interruptGate_set _ _ _ _

theorem entryPoint_syscall :
    entryPoint (initGdt gdt) (initSyscallHandler link (initIdt link idt)) 0x80 =
      some link.syscallHandler :=
  entryPoint_of_gate gdt (interruptGate_set _ _ _ _)

theorem entryPoint_other {v : UInt8} (h : 48 ≤ v.toNat) (hsyscall : v ≠ 0x80) :
    entryPoint (initGdt gdt) (initSyscallHandler link (initIdt link idt)) v = none := by
  have hirq : ∀ j ∈ List.finRange 16, v ≠ .ofNat (32 + j.val) := fun j _ he => by
    rw [he, toNat_irq] at h
    omega
  have hisr : ∀ j ∈ List.finRange 32, v ≠ .ofNat j.val := fun j _ he => by
    rw [he, toNat_isr] at h
    omega
  apply entryPoint_of_none
  rw [initSyscallHandler, idtSetGate_other hsyscall, initIdt, gates_other _ _ hirq,
    gates_other _ _ hisr]
  obtain ⟨i, hi, rfl⟩ : ∃ i ∈ List.range 256, UInt8.ofNat i = v :=
    ⟨v.toNat, List.mem_range.mpr v.toNat_lt, UInt8.ofNat_toNat⟩
  rw [gates_set 0 idt hi (fun _ _ => rfl : ∀ j, _ → (0 : UInt32) = 0)]
  exact interruptGate_clear _ _

/-- **Every vector leads to its stub**: the bytes of the tables that the kernel
sets up take the processor to the stub of the vector, and no vector without a
stub has a gate. -/
theorem vectors_exact (v : UInt8) :
    (entryPoint (boot link pics gdt idt).gdt (boot link pics gdt idt).idt v).bind link.codeAt =
      Entry.ofVector v := by
  change (entryPoint (initGdt gdt) (initSyscallHandler link (initIdt link idt)) v).bind _ = _
  by_cases hisr : v.toNat < 32
  · obtain ⟨i, rfl⟩ : ∃ i : Fin 32, UInt8.ofNat i.val = v := ⟨⟨v.toNat, hisr⟩, UInt8.ofNat_toNat⟩
    rw [entryPoint_isr, Option.bind_some, link.isrStub, Entry.ofVector, dif_pos hisr]
    exact congrArg (fun i => some (Entry.isr i)) (Fin.ext (toNat_isr i).symm)
  by_cases hirq : v.toNat - 32 < 16
  · obtain ⟨i, rfl⟩ : ∃ i : Fin 16, UInt8.ofNat (32 + i.val) = v :=
      ⟨⟨v.toNat - 32, hirq⟩, by rw [Nat.add_sub_cancel' (Nat.le_of_not_lt hisr), UInt8.ofNat_toNat]⟩
    rw [entryPoint_irq, Option.bind_some, link.irqStub, Entry.ofVector, dif_neg hisr, dif_pos hirq]
    refine congrArg (fun i => some (Entry.irq i)) (Fin.ext ?_)
    change i.val = (UInt8.ofNat (32 + i.val)).toNat - 32
    rw [toNat_irq, Nat.add_sub_cancel_left]
  rw [Entry.ofVector, dif_neg hisr, dif_neg hirq]
  by_cases hsyscall : v = 0x80
  · rw [if_pos hsyscall, hsyscall, entryPoint_syscall, Option.bind_some, link.syscallStub]
  · rw [if_neg hsyscall, entryPoint_other link gdt idt (by omega) hsyscall, Option.bind_none]

end

/-- Controllers as the firmware leaves them: only timer and keyboard are not masked. -/
def firmware : Pics where
  master := ⟨fun _ => false, fun _ => false, 0xFC, 8, .mask, false⟩
  slave := ⟨fun _ => false, fun _ => false, 0xFF, 0x70, .mask, false⟩

/-- The kernel is booted on them, over tables of zeros. -/
def booted : Machine :=
  boot .inARow firmware (fun _ => ⟨0, 0, 0, 0, 0, 0⟩) fun _ => ⟨0, 0, 0, 0, 0⟩

/-- The vector of the keyboard. -/
theorem vectors_exact_keyboard :
    (entryPoint booted.gdt booted.idt 33).bind Link.inARow.codeAt = some (.irq 1) :=
  vectors_exact .inARow firmware _ _ 33

/-! ## One interrupt -/

/-- The kernel at work: the controllers are set up with nothing in service, and
the gates of the lines lead to their stubs. -/
structure Working (link : Link) (m : Machine) : Prop where
  settled : m.pics.Settled
  entry : ∀ i : Fin 16, entryPoint m.gdt m.idt (.ofNat (32 + i.val)) = some (link.irqStubTable i)

/-- The controllers when the processor has acknowledged a line. -/
def served : Line → Pics → Pics
  | .master n _, p => { p with master := p.master.serve n }
  | .slave n, p => { master := p.master.serve cascade, slave := p.slave.serve n }

/-- The controllers when the line has left service again. -/
def cleared : Line → Pics → Pics
  | .master n _, p =>
    { p with master := { p.master with requested := Function.update p.master.requested n false } }
  | .slave n, p =>
    { master := { p.master with requested := Function.update p.master.requested cascade false }
      slave := { p.slave with requested := Function.update p.slave.requested n false } }

variable {link : Link} {m : Machine} {p : Pics} {l : Line}

theorem maskedIn_master (p : Pics) (n : Fin 8) :
    maskedIn p (Fin.castAdd 8 n) = p.master.masked n := Fin.addCases_left n

theorem maskedIn_slave (p : Pics) (n : Fin 8) :
    maskedIn p (Fin.natAdd 8 n) = p.slave.masked n := Fin.addCases_right n

theorem find_slave (hp : m.pics.Settled) :
    ((List.finRange 8).map Line.slave).find? m.lines.deliverable =
      if m.pics.master.masked 2 then none
      else (m.pics.slave.select m.pics.slave.requested).map .slave := by
  have hdeliverable : ∀ n, m.lines.deliverable (.slave n) =
      (m.pics.slave.requested n && !m.pics.slave.masked n && !m.pics.master.masked 2) := fun n => by
    rw [← maskedIn_master, ← maskedIn_slave]
    rfl
  rw [List.find?_map, select_settled hp.slave]
  split
  · rename_i hmasked
    rw [List.find?_eq_none.mpr fun n _ => by simp [hdeliverable, hmasked], Option.map_none]
  · rename_i hmasked
    congr 2
    funext n
    simp [hdeliverable, hmasked]

theorem findSome_eq_bind {α β : Type} {f : α → Option β} {q : α → Bool}
    (h : ∀ a, q a = (f a).isSome) (xs : List α) : xs.findSome? f = (xs.find? q).bind f := by
  induction xs with
  | nil => rfl
  | cons x xs ih =>
    have hx := h x
    cases hf : f x with
    | none =>
      rw [hf] at hx
      rw [List.find?_cons_of_neg (by simp [hx]), ← ih]
      simp only [List.findSome?_cons, hf]
    | some y =>
      rw [hf] at hx
      rw [List.find?_cons_of_pos (by simp [hx]), Option.bind_some, hf]
      simp only [List.findSome?_cons, hf]

/-- **An acknowledge cycle** serves the first line that can be delivered, in
the order of priority, and puts its vector on the bus. -/
theorem acknowledge_eq (hp : m.pics.Settled) : m.pics.acknowledge =
    (Line.order.find? m.lines.deliverable).map fun l => (l.vector, served l m.pics) := by
  have hmaster : ∀ n, m.pics.master.vector n = .ofNat (32 + (Fin.castAdd 8 n).val) := by
    intro n
    rw [Chip.vector, hp.master.base]
    revert n
    decide
  have hslave : ∀ n, m.pics.slave.vector n = .ofNat (32 + (Fin.natAdd 8 n).val) := by
    intro n
    rw [Chip.vector, hp.slave.base]
    revert n
    decide
  -- the lines behind each line of the first controller
  have hbehind : ∀ n : Fin 8, (m.pics.requests n && !m.pics.master.masked n) =
      ((if h : n = cascade then (List.finRange 8).map Line.slave else [Line.master n h]).find?
        m.lines.deliverable).isSome := by
    intro n
    by_cases h : n = cascade
    · subst h
      rw [dif_pos rfl, find_slave hp, Pics.requests, Function.update_self]
      cases m.pics.master.masked 2 <;> simp
    · have hdeliverable : m.lines.deliverable (.master n h) =
          (m.pics.master.requested n && !m.pics.master.masked n) := by
        rw [← maskedIn_master]
        rfl
      rw [dif_neg h, Pics.requests, Function.update_of_ne h, ← hdeliverable]
      cases hd : m.lines.deliverable (.master n h) <;> simp [hd]
  rw [Line.order, List.find?_flatMap, findSome_eq_bind hbehind]
  unfold Pics.acknowledge
  rw [select_settled hp.master]
  cases hfind : (List.finRange 8).find? fun n => m.pics.requests n && !m.pics.master.masked n with
  | none => rfl
  | some n =>
    have hn := hbehind n
    rw [List.find?_some hfind] at hn
    by_cases h : n = cascade
    · subst h
      rw [dif_pos rfl, find_slave hp] at hn
      split at hn
      · cases hn
      rename_i hmasked
      cases hk : m.pics.slave.select m.pics.slave.requested with
      | none =>
        rw [hk] at hn
        cases hn
      | some k =>
        rw [Option.bind_some, dif_pos rfl, find_slave hp, if_neg hmasked, hk]
        simp only [Option.bind_eq_bind, Option.bind_some, if_pos, Option.map_some, hslave]
        rfl
    · rw [dif_neg h] at hn
      have hd : m.lines.deliverable (.master n h) = true := by
        cases hd : m.lines.deliverable (.master n h)
        · simp [hd] at hn
        · rfl
      rw [Option.bind_some, dif_neg h, List.find?_cons_of_pos hd]
      simp only [Option.bind_eq_bind, Option.bind_some, if_neg h, Option.map_some, hmaster]
      rfl

theorem settled_cleared (hp : p.Settled) (l : Line) : (cleared l p).Settled := by
  cases l with
  | master n h => exact ⟨⟨hp.master.base, hp.master.stage, hp.master.autoEnd, hp.master.inService⟩,
      hp.slave⟩
  | slave n => exact ⟨⟨hp.master.base, hp.master.stage, hp.master.autoEnd, hp.master.inService⟩,
      ⟨hp.slave.base, hp.slave.stage, hp.slave.autoEnd, hp.slave.inService⟩⟩

theorem pendingIn_cleared (l : Line) (p : Pics) :
    pendingIn (cleared l p) = Function.update (pendingIn p) l false := by
  funext k
  cases k with
  | master j h => cases l <;> simp [pendingIn, cleared, Function.update_apply, h]
  | slave j => cases l <;> simp [pendingIn, cleared, Function.update_apply]

theorem maskedIn_cleared (l : Line) (p : Pics) : maskedIn (cleared l p) = maskedIn p := by
  cases l <;> rfl

/-- The two commands at the head of `irq_handler` end the interrupt that the
processor acknowledged, on both controllers if need be. -/
theorem eoi_served (hp : p.Settled) (l : Line) :
    (if l.intNo ≥ 32 then outb 0x20 0x20 (if l.intNo ≥ 40 then outb 0xA0 0x20 (served l p)
      else served l p) else (if l.intNo ≥ 40 then outb 0xA0 0x20 (served l p) else served l p)) =
      cleared l p := by
  have hfirst : ∀ q : Pics, outb 0x20 0x20 q = { q with master := q.master.endOfInterrupt } :=
    fun q => (if_pos rfl).trans (congrArg (fun c => { q with master := c }) (command_eoi _))
  cases l with
  | master n h =>
    have hrange : ∀ n : Fin 8, UInt32.ofNat (32 + (Fin.castAdd 8 n).val) ≥ 32 ∧
        ¬ UInt32.ofNat (32 + (Fin.castAdd 8 n).val) ≥ 40 := by
      decide
    obtain ⟨hirq, hsecond⟩ : (Line.master n h).intNo ≥ 32 ∧ ¬ (Line.master n h).intNo ≥ 40 :=
      hrange n
    rw [if_neg hsecond, if_pos hirq, hfirst]
    simp only [served, cleared, endOfInterrupt_serve hp.master]
  | slave n =>
    have hrange : ∀ n : Fin 8, UInt32.ofNat (32 + (Fin.natAdd 8 n).val) ≥ 32 ∧
        UInt32.ofNat (32 + (Fin.natAdd 8 n).val) ≥ 40 := by
      decide
    obtain ⟨hirq, hboth⟩ : (Line.slave n).intNo ≥ 32 ∧ (Line.slave n).intNo ≥ 40 := hrange n
    have hsecond : ∀ q : Pics, outb 0xA0 0x20 q = { q with slave := q.slave.endOfInterrupt } :=
      fun q => (if_neg (by decide)).trans ((if_neg (by decide)).trans ((if_pos rfl).trans
        (congrArg (fun c => { q with slave := c }) (command_eoi _))))
    rw [if_pos hboth, if_pos hirq, hsecond, hfirst]
    simp only [served, cleared, endOfInterrupt_serve hp.master, endOfInterrupt_serve hp.slave]

/-- The commands that the handlers give besides change nothing: the interrupt
has been ended before. -/
theorem run_settled (hp : p.Settled) (handler : Callback) : handler.run p = p := by
  cases handler with
  | timerHandler => rfl
  | keyboardCallback => exact picSendEoi_settled hp 1
  | mouseCallback => exact picSendEoi_settled hp 12

/-- **`irq_handler`** on a line that the processor acknowledged: the line has
left service when the handler runs, and the handler of its vector is called. -/
theorem irqHandler_served (hp : m.pics.Settled) (l : Line) :
    irqHandler l.intNo { m with pics := served l m.pics } =
      some { m with
        pics := cleared l m.pics
        calls := m.calls ++ [(l.intNo, m.handlers l.vector)] } := by
  have hrange : ∀ i : Fin 16, (UInt32.ofNat (32 + i.val)).toUInt8 = .ofNat (32 + i.val) ∧
      UInt32.ofNat (32 + i.val) < 256 := by
    decide
  obtain ⟨hvector, hlt⟩ : l.intNo.toUInt8 = l.vector ∧ l.intNo < 256 := hrange l.irq
  have hhandler : ∀ handler : Option Callback,
      handler.elim (cleared l m.pics) (·.run (cleared l m.pics)) = cleared l m.pics := by
    intro handler
    cases handler with
    | none => rfl
    | some handler => exact run_settled (settled_cleared hp l) handler
  unfold irqHandler
  simp only [eoi_served hp l]
  rw [if_pos hlt, hhandler, hvector]

theorem interrupt_refines (hm : Working link m) : ∃ t, interrupt link m = some t ∧
    Working link t ∧ t.lines = m.lines.step .interrupt := by
  unfold interrupt
  by_cases henabled : m.enabled = true
  · have hstep : m.lines.step .interrupt =
        (Line.order.find? m.lines.deliverable).elim m.lines m.lines.deliver := if_pos henabled
    rw [if_pos henabled, hstep, acknowledge_eq hm.settled]
    cases hfind : Line.order.find? m.lines.deliverable with
    | none => exact ⟨m, rfl, hm, rfl⟩
    | some l =>
      simp only [Option.map_some, Line.vector, hm.entry, Option.bind_eq_bind, Option.bind_some,
        link.irqStub]
      refine ⟨_, irqHandler_served hm.settled l, ⟨settled_cleared hm.settled l, hm.entry⟩, ?_⟩
      simp only [Machine.lines, pendingIn_cleared, maskedIn_cleared, Option.elim_some,
        Lines.deliver]
  · rw [if_neg henabled]
    exact ⟨m, rfl, hm, (if_neg henabled).symm⟩

/-! ## Runs -/

theorem edge_settled (hp : p.Settled) (l : Line) : (edge l p).Settled ∧
    pendingIn (edge l p) = Function.update (pendingIn p) l true ∧
    maskedIn (edge l p) = maskedIn p := by
  cases l with
  | master n h =>
    refine ⟨⟨settled_request hp.master n, hp.slave⟩, ?_, rfl⟩
    funext k
    cases k <;> simp [pendingIn, edge, Chip.request, Function.update_apply]
  | slave n =>
    refine ⟨⟨hp.master, settled_request hp.slave n⟩, ?_, rfl⟩
    funext k
    cases k <;> simp [pendingIn, edge, Chip.request, Function.update_apply]

theorem irq_cases (irq : Fin 16) :
    (∃ n : Fin 8, irq = Fin.castAdd 8 n) ∨ ∃ n : Fin 8, irq = Fin.natAdd 8 n := by
  revert irq
  decide

/-- A mask without the bit of a line. -/
def unmasked (c : Chip) (n : Fin 8) : Chip :=
  { c with mask := c.mask &&& ~~~(1 <<< UInt8.ofNat n) }

theorem masked_unmasked (c : Chip) (n k : Fin 8) :
    (unmasked c n).masked k = (c.masked k && decide (k ≠ n)) := getLsbD_clear c.mask k n

theorem unmasked_clear (c : Chip) (n : Fin 8) :
    decide ((unmasked c n).mask &&& (1 <<< UInt8.ofNat n) ≠ 0) = false := by
  rw [unmasked, UInt8.and_assoc, UInt8.not_and_self, UInt8.and_zero]
  rfl

theorem picUnmaskIrq_master (hp : p.Settled) (n : Fin 8) :
    picUnmaskIrq (Fin.castAdd 8 n) p = ({ p with master := unmasked p.master n }, false) := by
  have hirq : ∀ n : Fin 8, (Fin.castAdd 8 n : Fin 16) < 8 := by decide
  have hout : ∀ v, outb pic1Data v p = { p with master := { p.master with mask := v } } := fun v =>
    (if_neg (by decide)).trans ((if_pos rfl).trans (by rw [data_settled hp.master]))
  rw [picUnmaskIrq, if_pos (hirq n), if_pos (hirq n), hout]
  exact Prod.ext rfl (unmasked_clear p.master n)

theorem picUnmaskIrq_slave (hp : p.Settled) (n : Fin 8) :
    picUnmaskIrq (Fin.natAdd 8 n) p = ({ p with slave := unmasked p.slave n }, false) := by
  have hirq : ∀ n : Fin 8, ¬ (Fin.natAdd 8 n : Fin 16) < 8 ∧
      (Fin.natAdd 8 n : Fin 16).val - 8 = n := by decide
  have hout : ∀ v, outb pic2Data v p = { p with slave := { p.slave with mask := v } } := fun v =>
    (if_neg (by decide)).trans ((if_neg (by decide)).trans ((if_neg (by decide)).trans
      ((if_pos rfl).trans (by rw [data_settled hp.slave]))))
  rw [picUnmaskIrq, if_neg (hirq n).1, if_neg (hirq n).1, hout, (hirq n).2]
  exact Prod.ext rfl (unmasked_clear p.slave n)

/-- `pic_unmask_irq` clears the mask of the line and no other, and never finds
it still masked. -/
theorem picUnmaskIrq_settled (hp : p.Settled) (irq : Fin 16) :
    (picUnmaskIrq irq p).1.Settled ∧ pendingIn (picUnmaskIrq irq p).1 = pendingIn p ∧
      maskedIn (picUnmaskIrq irq p).1 = Function.update (maskedIn p) irq false ∧
      (picUnmaskIrq irq p).2 = false := by
  obtain ⟨n, rfl⟩ | ⟨n, rfl⟩ := irq_cases irq
  · rw [picUnmaskIrq_master hp]
    refine ⟨⟨settled_mask hp.master _, hp.slave⟩, rfl, funext fun i => ?_, rfl⟩
    obtain ⟨k, rfl⟩ | ⟨k, rfl⟩ := irq_cases i
    · rw [maskedIn_master, masked_unmasked, Function.update_apply, maskedIn_master]
      obtain rfl | h := eq_or_ne k n
      · simp
      · rw [if_neg fun he => h (Fin.castAdd_injective 8 8 he), decide_eq_true h, Bool.and_true]
    · rw [Function.update_of_ne (by revert n k; decide), maskedIn_slave, maskedIn_slave]
  · rw [picUnmaskIrq_slave hp]
    refine ⟨⟨hp.master, settled_mask hp.slave _⟩, rfl, funext fun i => ?_, rfl⟩
    obtain ⟨k, rfl⟩ | ⟨k, rfl⟩ := irq_cases i
    · rw [Function.update_of_ne (by revert n k; decide), maskedIn_master, maskedIn_master]
    · rw [maskedIn_slave, masked_unmasked, Function.update_apply, maskedIn_slave]
      obtain rfl | h := eq_or_ne k n
      · simp
      · rw [if_neg fun he => h (Fin.natAdd_injective 8 8 he), decide_eq_true h, Bool.and_true]

theorem step_refines (hm : Working link m) (e : Event) : ∃ t, step link m e = some t ∧
    Working link t ∧ t.lines = m.lines.step e := by
  cases e with
  | edge l =>
    obtain ⟨hsettled, hpending, hmasked⟩ := edge_settled hm.settled l
    refine ⟨_, rfl, ⟨hsettled, hm.entry⟩, ?_⟩
    simp only [Machine.lines, Lines.step, hpending, hmasked]
  | interrupt => exact interrupt_refines hm
  | setFlag on => exact ⟨_, rfl, ⟨hm.settled, hm.entry⟩, rfl⟩
  | register n handler => exact ⟨_, rfl, ⟨hm.settled, hm.entry⟩, rfl⟩
  | unmask irq =>
    obtain ⟨hsettled, hpending, hmasked, -⟩ := picUnmaskIrq_settled hm.settled irq
    refine ⟨_, rfl, ⟨hsettled, hm.entry⟩, ?_⟩
    simp only [Machine.lines, Lines.step, hpending, hmasked]
  | servicePending bytes =>
    have hsame : (picSendEoi 1)^[bytes] m.pics = m.pics :=
      Function.iterate_fixed (picSendEoi_settled hm.settled 1) bytes
    refine ⟨_, rfl, ⟨?_, hm.entry⟩, ?_⟩
    · rw [hsame]
      exact hm.settled
    · simp only [Machine.lines, Lines.step, hsame]

theorem run_refines (hm : Working link m) (events : List Event) :
    ∃ t, events.foldlM (step link) m = some t ∧ Working link t ∧ t.lines = m.lines.run events := by
  induction events generalizing m with
  | nil => exact ⟨m, rfl, hm, rfl⟩
  | cons e events ih =>
    obtain ⟨t, ht, hworking, hlines⟩ := step_refines hm e
    obtain ⟨u, hu, hworking', hlines'⟩ := ih hworking
    refine ⟨u, ?_, hworking', ?_⟩
    · rw [List.foldlM_cons, ht]
      exact hu
    · rw [hlines', hlines]
      rfl

theorem working_boot (link : Link) (pics : Pics) (gdt : Fin 5 → GDTEntry)
    (idt : UInt8 → IDTEntry) : Working link (boot link pics gdt idt) :=
  ⟨settled_picRemap pics, entryPoint_irq link gdt idt⟩

theorem lines_boot (link : Link) (pics : Pics) (gdt : Fin 5 → GDTEntry) (idt : UInt8 → IDTEntry) :
    (boot link pics gdt idt).lines = .initial (maskedIn pics) := by
  have hpending : pendingIn (picRemap pics) = fun _ => false := by
    rw [picRemap_eq]
    funext l
    cases l <;> rfl
  simp only [Machine.lines, boot, Lines.initial, hpending]
  rw [picRemap_eq]
  rfl

/-- **Interrupt delivery refines the abstract machine**: after a boot on
controllers in any state, every order of edges, interrupts and driver calls
runs without a fault, and has the effect that it has on the abstract lines. -/
theorem delivery_refines (link : Link) (pics : Pics) (gdt : Fin 5 → GDTEntry)
    (idt : UInt8 → IDTEntry) (events : List Event) :
    ∃ t, events.foldlM (step link) (boot link pics gdt idt) = some t ∧
      t.lines = (Lines.initial (maskedIn pics)).run events := by
  obtain ⟨t, ht, -, hlines⟩ := run_refines (working_boot link pics gdt idt) events
  exact ⟨t, ht, hlines.trans (by rw [lines_boot])⟩

def Line.timer : Line := .master Controllers.timer (by decide)
def Line.keyboard : Line := .master Controllers.keyboard (by decide)
def Line.mouse : Line := .slave Controllers.mouse

/-- A key is pressed twice before the processor looks, and then the timer ticks. -/
def keyAndTick : List Event :=
  [.register 33 .keyboardCallback, .register 32 .timerHandler, .unmask Line.keyboard.irq,
    .setFlag true, .edge .keyboard, .edge .keyboard, .interrupt, .edge .timer, .interrupt]

/-- Both handlers are called, the keyboard's once. -/
theorem delivery_refines_keyAndTick :
    ∃ t, keyAndTick.foldlM (step .inARow) booted = some t ∧
      t.calls = [(33, some .keyboardCallback), (32, some .timerHandler)] := by
  obtain ⟨t, ht, hlines⟩ := delivery_refines .inARow firmware _ _ keyAndTick
  have hcalls : ((Lines.initial (maskedIn firmware)).run keyAndTick).calls =
      [(33, some .keyboardCallback), (32, some .timerHandler)] := by decide +kernel
  exact ⟨t, ht, (congrArg Lines.calls hlines).trans hcalls⟩

/-! ## What is delivered -/

/-- The calls of `irq_handler` for a line. -/
def Lines.served (a : Lines) (l : Line) : Nat := a.calls.countP (·.1 = l.intNo)

/-- The edges on a line, in a run, that find none waiting on it. -/
def latched (link : Link) (l : Line) : List Event → Machine → Nat
  | [], _ => 0
  | e :: events, m =>
    (if e = .edge l ∧ pendingIn m.pics l = false then 1 else 0) +
      (step link m e).elim 0 (latched link l events)

theorem intNo_injective {l k : Line} (h : l.intNo = k.intNo) : l = k := by
  have hinjective : ∀ i j : Fin 16, UInt32.ofNat (32 + i.val) = .ofNat (32 + j.val) → i = j := by
    decide
  have hirq : l.irq.val = k.irq.val := congrArg Fin.val (hinjective _ _ h)
  cases l <;> cases k <;> simp only [Line.irq, Fin.val_castAdd, Fin.val_natAdd] at hirq
  · simpa using Fin.ext hirq
  · omega
  · omega
  · simpa using Fin.ext (Nat.add_left_cancel hirq)

variable {a : Lines}

/-- A line that can be delivered has an edge waiting and is not masked, nor is
line 2 if it belongs to the second controller. -/
theorem deliverable_iff (l : Line) : a.deliverable l = true ↔ a.pending l = true ∧
    a.masked l.irq = false ∧ ((∃ n, l = .slave n) → a.masked 2 = false) := by
  cases l with
  | master n h => simp [Lines.deliverable]
  | slave n =>
    have hline : a.masked (Fin.castAdd 8 cascade) = a.masked 2 := rfl
    simp [Lines.deliverable, and_assoc, hline]

theorem served_deliver (a : Lines) (k l : Line) :
    (a.deliver k).served l = a.served l + if k = l then 1 else 0 := by
  rw [Lines.served, Lines.deliver, List.countP_append, Lines.served, List.countP_singleton]
  by_cases h : k = l
  · simp [h]
  · have hne : k.intNo ≠ l.intNo := fun he => h (intNo_injective he)
    simp [h, hne]

/-- One event: what was served and what waits changes by the edge that is
latched. -/
theorem served_step (a : Lines) (e : Event) (l : Line) :
    (a.step e).served l + ((a.step e).pending l).toNat = a.served l + (a.pending l).toNat +
      if e = .edge l ∧ a.pending l = false then 1 else 0 := by
  cases e with
  | edge k =>
    change a.served l + (Function.update a.pending k true l).toNat = _
    obtain rfl | h := eq_or_ne k l
    · cases hp : a.pending k <;> simp
    · rw [Function.update_of_ne h.symm, if_neg fun he => h (Event.edge.inj he.1)]
      rfl
  | interrupt =>
    rw [if_neg fun he => Event.noConfusion he.1, Nat.add_zero, Lines.step]
    split
    · cases hfind : Line.order.find? a.deliverable with
      | none => rfl
      | some k =>
        rw [Option.elim_some, served_deliver]
        have hpending := ((deliverable_iff k).mp (List.find?_some hfind)).1
        change a.served l + _ + (Function.update a.pending k false l).toNat = _
        obtain rfl | h := eq_or_ne k l
        · simp [hpending]
        · rw [Function.update_of_ne h.symm, if_neg h, Nat.add_zero]
    · rfl
  | setFlag on => rfl
  | register n handler => rfl
  | unmask irq => rfl
  | servicePending bytes => rfl

/-- **Every edge is delivered exactly once.** In every run, the calls of
`irq_handler` for a line and the edge that may still wait on it add up to the
edges that were latched. -/
theorem delivered_exactly_once (link : Link) (pics : Pics) (gdt : Fin 5 → GDTEntry)
    (idt : UInt8 → IDTEntry) (events : List Event) (l : Line) :
    ∃ t, events.foldlM (step link) (boot link pics gdt idt) = some t ∧
      t.calls.countP (·.1 = l.intNo) + (pendingIn t.pics l).toNat =
        latched link l events (boot link pics gdt idt) := by
  have hrun : ∀ {m : Machine}, Working link m → ∀ t, events.foldlM (step link) m = some t →
      t.lines.served l + (t.lines.pending l).toNat =
        m.lines.served l + (m.lines.pending l).toNat + latched link l events m := by
    induction events with
    | nil =>
      rintro m - t ht
      obtain rfl : m = t := Option.some.inj ht
      rfl
    | cons e events ih =>
      intro m hm t ht
      obtain ⟨u, hu, hworking, hlines⟩ := step_refines hm e
      rw [List.foldlM_cons, hu] at ht
      have hone := served_step m.lines e l
      rw [ih hworking t ht, hlines, hone, latched, hu, Option.elim_some, Nat.add_assoc]
      rfl
  obtain ⟨t, ht, -, -⟩ := run_refines (working_boot link pics gdt idt) events
  refine ⟨t, ht, (hrun (working_boot link pics gdt idt) t ht).trans ?_⟩
  rw [lines_boot]
  exact Nat.zero_add _

/-- The second press finds the first one waiting. -/
theorem delivered_exactly_once_keyAndTick :
    ∃ t, keyAndTick.foldlM (step .inARow) booted = some t ∧
      t.calls.countP (·.1 = 33) + (pendingIn t.pics .keyboard).toNat = 1 := by
  obtain ⟨t, ht, hcount⟩ := delivered_exactly_once .inARow firmware _ _ keyAndTick .keyboard
  have hlatched : latched .inARow .keyboard keyAndTick booted = 1 := by decide +kernel
  exact ⟨t, ht, hcount.trans hlatched⟩

theorem pending_deliver (a : Lines) (k l : Line) :
    (a.deliver k).pending l = (a.pending l && decide (l ≠ k)) := by
  change Function.update a.pending k false l = _
  rw [Function.update_apply]
  split <;> simp_all

/-- Once it is served, a line is the only one that can no longer be delivered. -/
theorem deliverable_deliver (a : Lines) (k l : Line) :
    (a.deliver k).deliverable l = (a.deliverable l && decide (l ≠ k)) := by
  rw [Bool.eq_iff_iff, Bool.and_eq_true, deliverable_iff, deliverable_iff, pending_deliver,
    Bool.and_eq_true]
  exact and_right_comm

theorem order_nodup : Line.order.Nodup := by decide

theorem mem_order (l : Line) : l ∈ Line.order := by
  rw [Line.order, List.mem_flatMap]
  cases l with
  | master n h => exact ⟨n, List.mem_finRange n, by rw [dif_neg h]; exact .head _⟩
  | slave n => exact ⟨2, List.mem_finRange 2, List.mem_map_of_mem (List.mem_finRange n)⟩

theorem run_interrupts {ls : List Line} (n : Nat) (henabled : a.enabled = true)
    (hls : Line.order.filter a.deliverable = ls) (hn : ls.length ≤ n) :
    (a.run (List.replicate n .interrupt)).calls =
        a.calls ++ ls.map (fun l => (l.intNo, a.handlers l.vector)) ∧
      (a.run (List.replicate n .interrupt)).pending = fun l => a.pending l && !ls.contains l := by
  induction n generalizing a ls with
  | zero =>
    obtain rfl : ls = [] := List.length_eq_zero_iff.mp (Nat.le_zero.mp hn)
    simp [Lines.run]
  | succ n ih =>
    have hfind : Line.order.find? a.deliverable = ls.head? := by rw [← hls, List.head?_filter]
    rw [List.replicate_succ, Lines.run, List.foldl_cons, ← Lines.run]
    have hstep : a.step .interrupt = ls.head?.elim a a.deliver := by
      rw [Lines.step, if_pos henabled, hfind]
    rw [hstep]
    cases ls with
    | nil => exact ih henabled hls (Nat.zero_le n)
    | cons l ls =>
      have hnodup : (l :: ls).Nodup := hls ▸ order_nodup.filter _
      have hrest : Line.order.filter (a.deliver l).deliverable = ls := by
        calc Line.order.filter (a.deliver l).deliverable
            = (Line.order.filter a.deliverable).filter fun k => decide (k ≠ l) := by
              rw [List.filter_filter]
              congr 1
              funext k
              rw [deliverable_deliver, Bool.and_comm]
          _ = ls.filter fun k => decide (k ≠ l) := by
              rw [hls, List.filter_cons_of_neg (by simp)]
          _ = ls := List.filter_eq_self.mpr fun k hk => decide_eq_true fun he =>
              (List.nodup_cons.mp hnodup).1 (he ▸ hk)
      obtain ⟨hcalls, hpending⟩ := ih (a := a.deliver l) henabled hrest (Nat.le_of_succ_le_succ hn)
      refine ⟨hcalls.trans ?_, hpending.trans ?_⟩
      · rw [Lines.deliver, List.append_assoc]
        rfl
      · funext k
        rw [pending_deliver, List.contains_cons]
        obtain rfl | hk := eq_or_ne k l
        · simp
        · rw [decide_eq_true hk, beq_eq_false_iff_ne.mpr hk, Bool.and_true, Bool.false_or]

/-- **Interrupts come in the order of priority.** After any run, with the
interrupt flag set and nothing else happening, the processor takes exactly the
interrupts that can be delivered, each once and the most urgent first, calls the
handlers of their vectors, and leaves the masked ones waiting. -/
theorem delivered_in_order (link : Link) (pics : Pics) (gdt : Fin 5 → GDTEntry)
    (idt : UInt8 → IDTEntry) (events : List Event) (n : Nat) :
    ∃ t u, events.foldlM (step link) (boot link pics gdt idt) = some t ∧
      (List.replicate (15 + n) .interrupt).foldlM (step link) t = some u ∧
      (t.enabled = true →
        u.calls = t.calls ++ (Line.order.filter t.lines.deliverable).map
          (fun l => (l.intNo, t.handlers l.vector)) ∧
        pendingIn u.pics = fun l => pendingIn t.pics l && !t.lines.deliverable l) := by
  obtain ⟨t, ht, hworking, -⟩ := run_refines (working_boot link pics gdt idt) events
  obtain ⟨u, hu, -, hlines⟩ := run_refines hworking (List.replicate (15 + n) .interrupt)
  refine ⟨t, u, ht, hu, fun henabled => ?_⟩
  have hlength : (Line.order.filter t.lines.deliverable).length ≤ 15 + n :=
    (List.length_filter_le _ _).trans (Nat.le_add_right 15 n)
  obtain ⟨hcalls, hpending⟩ := run_interrupts (15 + n) henabled rfl hlength
  rw [← hlines] at hcalls hpending
  refine ⟨hcalls, hpending.trans (funext fun l => ?_)⟩
  have hcontains : (Line.order.filter t.lines.deliverable).contains l = t.lines.deliverable l := by
    rw [Bool.eq_iff_iff, List.contains_iff_mem, List.mem_filter]
    exact and_iff_right (mem_order l)
  rw [hcontains]
  rfl

/-- Mouse, keyboard and timer ask for an interrupt. -/
def allThree : List Event :=
  [.register 33 .keyboardCallback, .register 32 .timerHandler, .unmask Line.mouse.irq,
    .setFlag true, .edge .mouse, .edge .keyboard, .edge .timer]

/-- The timer comes first. The mouse waits, since line 2 is masked. -/
theorem delivered_in_order_allThree :
    ∃ t u, allThree.foldlM (step .inARow) booted = some t ∧
      (List.replicate 15 .interrupt).foldlM (step .inARow) t = some u ∧
      u.calls = [(32, some .timerHandler), (33, some .keyboardCallback)] := by
  obtain ⟨t, u, ht, hu, hcalls⟩ := delivered_in_order .inARow firmware _ _ allThree 0
  have hrun : (allThree.foldlM (step .inARow) booted).map (fun t => (t.enabled, t.calls ++
      (Line.order.filter t.lines.deliverable).map fun l => (l.intNo, t.handlers l.vector))) =
        some (true, [(32, some .timerHandler), (33, some .keyboardCallback)]) := by decide +kernel
  rw [show allThree.foldlM (step .inARow) booted = some t from ht, Option.map_some,
    Option.some_inj, Prod.mk.injEq] at hrun
  exact ⟨t, u, ht, hu, (hcalls hrun.1).1.trans hrun.2⟩

theorem masked_step (e : Event) {i : Fin 16} (h : (a.step e).masked i = false) :
    a.masked i = false ∨ .unmask i = e := by
  cases e with
  | unmask irq =>
    obtain rfl | hne := eq_or_ne i irq
    · exact .inr rfl
    · exact .inl ((Function.update_of_ne hne _ _).symm.trans h)
  | interrupt =>
    left
    rw [Lines.step] at h
    split at h
    · cases hfind : Line.order.find? a.deliverable <;> rw [hfind] at h <;> exact h
    · exact h
  | edge l => exact .inl h
  | setFlag on => exact .inl h
  | register n handler => exact .inl h
  | servicePending bytes => exact .inl h

theorem calls_step (e : Event) {c : UInt32 × Option Callback} (h : c ∈ (a.step e).calls) :
    c ∈ a.calls ∨ ∃ l : Line, c.1 = l.intNo ∧ a.deliverable l = true := by
  cases e with
  | interrupt =>
    rw [Lines.step] at h
    split at h
    · cases hfind : Line.order.find? a.deliverable with
      | none =>
        rw [hfind] at h
        exact .inl h
      | some l =>
        rw [hfind] at h
        obtain hold | hnew := List.mem_append.mp h
        · exact .inl hold
        · exact .inr ⟨l, by rw [List.mem_singleton.mp hnew], List.find?_some hfind⟩
    · exact .inl h
  | edge l => exact .inl h
  | setFlag on => exact .inl h
  | register n handler => exact .inl h
  | unmask irq => exact .inl h
  | servicePending bytes => exact .inl h

theorem calls_run (events : List Event) {c : UInt32 × Option Callback}
    (h : c ∈ (a.run events).calls) : c ∈ a.calls ∨
      ∃ l : Line, c.1 = l.intNo ∧ (a.masked l.irq = false ∨ .unmask l.irq ∈ events) ∧
        ((∃ n, l = .slave n) → a.masked 2 = false ∨ .unmask 2 ∈ events) := by
  induction events generalizing a with
  | nil => exact .inl h
  | cons e events ih =>
    have hmasked : ∀ i, (a.step e).masked i = false ∨ .unmask i ∈ events →
        a.masked i = false ∨ .unmask i ∈ e :: events := by
      rintro i (hi | hi)
      · exact (masked_step e hi).imp_right fun he => List.mem_cons.mpr (.inl he)
      · exact .inr (.tail _ hi)
    obtain hone | ⟨l, hl, hline, hcascade⟩ := ih h
    · obtain hold | ⟨l, hl, hdeliverable⟩ := calls_step e hone
      · exact .inl hold
      · obtain ⟨-, hline, hcascade⟩ := (deliverable_iff l).mp hdeliverable
        exact .inr ⟨l, hl, .inl hline, fun hslave => .inl (hcascade hslave)⟩
    · exact .inr ⟨l, hl, hmasked _ hline, fun hslave => hmasked _ (hcascade hslave)⟩

/-- **A masked line never interrupts.** In every run, `irq_handler` is called
only for lines whose mask the firmware left clear or the driver has cleared, and
for a line of the second controller the same holds of line 2. The kernel clears the
masks of timer, keyboard and mouse only: where the firmware masked line 2, no line
of the second controller interrupts. -/
theorem masked_never_interrupts (link : Link) (pics : Pics) (gdt : Fin 5 → GDTEntry)
    (idt : UInt8 → IDTEntry) (events : List Event) :
    ∃ t, events.foldlM (step link) (boot link pics gdt idt) = some t ∧
      (∀ c ∈ t.calls, ∃ l : Line, c.1 = l.intNo ∧
        (maskedIn pics l.irq = false ∨ .unmask l.irq ∈ events) ∧
        ((∃ n, l = .slave n) → maskedIn pics 2 = false ∨ .unmask 2 ∈ events)) ∧
      ((∀ irq, .unmask irq ∈ events → irq = 0 ∨ irq = 1 ∨ irq = 12) → maskedIn pics 2 = true →
        ∀ c ∈ t.calls, ∀ n, c.1 ≠ (Line.slave n).intNo) := by
  obtain ⟨t, ht, -, hlines⟩ := run_refines (working_boot link pics gdt idt) events
  rw [lines_boot] at hlines
  have hcalls : t.calls = ((Lines.initial (maskedIn pics)).run events).calls :=
    congrArg Lines.calls hlines
  have hall := fun c (hc : c ∈ t.calls) =>
    (calls_run events (hcalls ▸ hc)).resolve_left List.not_mem_nil
  refine ⟨t, ht, hall, fun hkernel hmasked c hc n he => ?_⟩
  obtain ⟨l, hl, -, hcascade⟩ := hall c hc
  obtain hclear | hunmask := hcascade ⟨n, intNo_injective (hl.symm.trans he)⟩
  · exact absurd (hmasked.symm.trans hclear) Bool.noConfusion
  · exact absurd (hkernel 2 hunmask) (by decide)

/-- The mouse does not interrupt, though its own line is not masked. -/
theorem masked_never_interrupts_allThree :
    ∃ t, (allThree ++ List.replicate 3 Event.interrupt).foldlM (step .inARow) booted = some t ∧
      ∀ c ∈ t.calls, ∀ n, c.1 ≠ (Line.slave n).intNo := by
  obtain ⟨t, ht, -, hnone⟩ := masked_never_interrupts .inARow firmware _ _
    (allThree ++ List.replicate 3 .interrupt)
  have hunmasks : ∀ irq, .unmask irq ∈ allThree ++ List.replicate 3 .interrupt →
      irq = 0 ∨ irq = 1 ∨ irq = 12 := by decide
  exact ⟨t, ht, hnone hunmasks (by decide)⟩

end ContinuumOS.Interrupts.Delivery
