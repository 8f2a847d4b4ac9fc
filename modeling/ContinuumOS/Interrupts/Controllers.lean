import Mathlib.Data.List.FinRange
import Mathlib.Logic.Function.Basic

/-! # The interrupt controllers

The two 8259A controllers of a PC and `src/kernel/pic.cpp`, which drives them
through ports 0x20, 0x21, 0xA0 and 0xA1. A controller latches the edges on its
eight lines, puts the first line that is requested, not masked and not behind a
line in service on the bus when the CPU acknowledges, and keeps that line in
service until an end-of-interrupt command. Line 2 of the first controller is
the output of the second. Of the commands, initialisation and the non-specific
end of interrupt are modelled: the kernel issues no others. -/
namespace ContinuumOS.Interrupts.Controllers

/-- What the next byte for the data port of a controller is. -/
inductive Stage
  /-- the mask of the lines -/
  | mask
  /-- the vector of line 0; the command said whether the controller is alone
  and whether a mode byte ends the sequence -/
  | base (single mode : Bool)
  /-- how the two controllers are connected -/
  | cascade (mode : Bool)
  | mode
  deriving DecidableEq, Repr

structure Chip where
  requested : Fin 8 → Bool
  inService : Fin 8 → Bool
  mask : UInt8
  base : UInt8
  stage : Stage
  /-- Lines leave service as soon as they are acknowledged. -/
  autoEnd : Bool

namespace Chip

def masked (c : Chip) (n : Fin 8) : Bool := c.mask.toBitVec.getLsbD n

/-- The lines from `n` up are not in service. -/
def unblocked (c : Chip) (n : Fin 8) : Bool :=
  (List.finRange 8).all fun m => decide (n < m) || !c.inService m

/-- The line that the controller's output stands for, given the requests. -/
def select (c : Chip) (requests : Fin 8 → Bool) : Option (Fin 8) :=
  (List.finRange 8).find? fun n => requests n && !c.masked n && c.unblocked n

def request (c : Chip) (n : Fin 8) : Chip :=
  { c with requested := Function.update c.requested n true }

/-- The CPU acknowledges line `n`. -/
def serve (c : Chip) (n : Fin 8) : Chip :=
  { c with
    requested := Function.update c.requested n false
    inService := Function.update c.inService n !c.autoEnd }

def vector (c : Chip) (n : Fin 8) : UInt8 := c.base ||| UInt8.ofNat n

/-- The line of the highest priority leaves service. -/
def endOfInterrupt (c : Chip) : Chip :=
  match (List.finRange 8).find? c.inService with
  | some n => { c with inService := Function.update c.inService n false }
  | none => c

/-- A byte for the command port. -/
def command (c : Chip) (v : UInt8) : Chip :=
  if v &&& 0x10 ≠ 0 then
    { requested := fun _ => false
      inService := fun _ => false
      mask := 0
      base := c.base
      stage := .base (v &&& 0x02 ≠ 0) (v &&& 0x01 ≠ 0)
      autoEnd := false }
  else if v &&& 0xF8 = 0x20 then c.endOfInterrupt
  else c

/-- A byte for the data port. What the cascade byte says and the 8086 bit of the
mode byte are not looked at: the wiring is that of a PC, and the CPU takes vectors. -/
def data (c : Chip) (v : UInt8) : Chip :=
  match c.stage with
  | .mask => { c with mask := v }
  | .base single mode =>
    { c with
      base := v &&& 0xF8
      stage := if !single then .cascade mode else if mode then .mode else .mask }
  | .cascade mode => { c with stage := if mode then .mode else .mask }
  | .mode => { c with stage := .mask, autoEnd := v &&& 0x02 ≠ 0 }

end Chip

structure Pics where
  master : Chip
  slave : Chip

/-- The line of the first controller that the second one is connected to. -/
abbrev cascade : Fin 8 := 2

/-- The other lines that the kernel clears the masks of: the timer and the keyboard on
the first controller, the mouse on the second. -/
abbrev timer : Fin 8 := 0
abbrev keyboard : Fin 8 := 1
abbrev mouse : Fin 8 := 4

namespace Pics

/-- What the lines of the first controller ask for. -/
def requests (p : Pics) : Fin 8 → Bool :=
  Function.update p.master.requested cascade (p.slave.select p.slave.requested).isSome

/-- The acknowledge cycle of the CPU: the vector on the bus, unless no
interrupt is asked for. -/
def acknowledge (p : Pics) : Option (UInt8 × Pics) := do
  let n ← p.master.select p.requests
  if n = cascade then
    let m ← p.slave.select p.slave.requested
    return (p.slave.vector m, { master := p.master.serve cascade, slave := p.slave.serve m })
  else
    return (p.master.vector n, { p with master := p.master.serve n })

end Pics

def pic1Command : UInt16 := 0x20
def pic1Data : UInt16 := pic1Command + 1
def pic2Command : UInt16 := 0xA0
def pic2Data : UInt16 := pic2Command + 1

/-- `PIC_EOI` -/
def picEoi : UInt8 := 0x20

/-- `outb`, as far as it reaches the controllers. -/
def outb (port : UInt16) (v : UInt8) (p : Pics) : Pics :=
  if port = pic1Command then { p with master := p.master.command v }
  else if port = pic1Data then { p with master := p.master.data v }
  else if port = pic2Command then { p with slave := p.slave.command v }
  else if port = pic2Data then { p with slave := p.slave.data v }
  else p

/-- `inb` of the data port of a controller reads its mask. -/
def inb (port : UInt16) (p : Pics) : UInt8 :=
  if port = pic1Data then p.master.mask else p.slave.mask

def picRemap (p : Pics) : Pics :=
  let a1 := inb pic1Data p
  let a2 := inb pic2Data p
  let p := outb pic1Command 0x11 p
  let p := outb pic2Command 0x11 p
  let p := outb pic1Data 0x20 p
  let p := outb pic2Data 0x28 p
  let p := outb pic1Data 0x04 p
  let p := outb pic2Data 0x02 p
  let p := outb pic1Data 0x01 p
  let p := outb pic2Data 0x01 p
  let p := outb pic1Data a1 p
  outb pic2Data a2 p

def picSendEoi (irq : UInt8) (p : Pics) : Pics :=
  let p := if irq ≥ 8 then outb pic2Command picEoi p else p
  outb pic1Command picEoi p

/-- `pic_unmask_irq` for the lines there are, and whether it then finds the
line still masked. -/
def picUnmaskIrq (irq : Fin 16) (p : Pics) : Pics × Bool :=
  let port := if irq < 8 then pic1Data else pic2Data
  let bit : UInt8 := 1 <<< UInt8.ofNat (if irq < 8 then irq else irq - 8)
  let p := outb port (inb port p &&& ~~~bit) p
  (p, inb port p &&& bit ≠ 0)

/-! ## Controllers at work -/

/-- A controller that has been initialised with the vector of its line 0 and
has nothing in service. -/
structure Chip.Settled (c : Chip) (base : UInt8) : Prop where
  base : c.base = base
  stage : c.stage = .mask
  autoEnd : c.autoEnd = false
  inService : c.inService = fun _ => false

/-- Both controllers as `pic_remap` sets them up, with nothing in service. -/
structure Pics.Settled (p : Pics) : Prop where
  master : p.master.Settled 0x20
  slave : p.slave.Settled 0x28

variable {c : Chip} {p : Pics} {base : UInt8}

theorem unblocked_settled (h : c.Settled base) (n : Fin 8) : c.unblocked n = true := by
  simp [Chip.unblocked, h.inService]

theorem select_settled (h : c.Settled base) (requests : Fin 8 → Bool) :
    c.select requests = (List.finRange 8).find? fun n => requests n && !c.masked n := by
  simp only [Chip.select, unblocked_settled h, Bool.and_true]

theorem settled_request (h : c.Settled base) (n : Fin 8) : (c.request n).Settled base :=
  ⟨h.base, h.stage, h.autoEnd, h.inService⟩

theorem data_settled (h : c.Settled base) (v : UInt8) : c.data v = { c with mask := v } := by
  rw [Chip.data, h.stage]

theorem settled_mask (h : c.Settled base) (v : UInt8) :
    ({ c with mask := v } : Chip).Settled base :=
  ⟨h.base, h.stage, h.autoEnd, h.inService⟩

theorem command_eoi (c : Chip) : c.command picEoi = c.endOfInterrupt := by
  rw [Chip.command, if_neg (by decide), if_pos (by decide)]

theorem endOfInterrupt_settled (h : c.Settled base) : c.endOfInterrupt = c := by
  have hfind : (List.finRange 8).find? c.inService = none :=
    List.find?_eq_none.mpr fun n _ => by simp [h.inService]
  simp only [Chip.endOfInterrupt, hfind]

/-- The end of the interrupt of the line that was acknowledged last leaves
nothing in service. -/
theorem endOfInterrupt_serve (h : c.Settled base) (n : Fin 8) : (c.serve n).endOfInterrupt =
    { c with requested := Function.update c.requested n false } := by
  have hfind : (List.finRange 8).find? (Function.update c.inService n true) = some n := by
    rw [h.inService]
    revert n
    decide
  simp only [Chip.endOfInterrupt, Chip.serve, h.autoEnd, Bool.not_false, hfind,
    Function.update_idem]
  rw [show Function.update c.inService n false = c.inService from
    Function.update_eq_self_iff.mpr (by rw [h.inService])]

/-! ## The driver -/

/-- **Remapping** works from any state of the controllers, also in the middle
of an initialisation, and keeps the masks. -/
theorem picRemap_eq (p : Pics) : picRemap p =
    { master := ⟨fun _ => false, fun _ => false, p.master.mask, 0x20, .mask, false⟩
      slave := ⟨fun _ => false, fun _ => false, p.slave.mask, 0x28, .mask, false⟩ } := by
  rfl

theorem settled_picRemap (p : Pics) : (picRemap p).Settled := by
  rw [picRemap_eq]
  exact ⟨⟨rfl, rfl, rfl, rfl⟩, ⟨rfl, rfl, rfl, rfl⟩⟩

theorem picSendEoi_settled (h : p.Settled) (irq : UInt8) : picSendEoi irq p = p := by
  have hmaster : outb pic1Command picEoi p = p := by
    rw [outb, if_pos rfl, command_eoi, endOfInterrupt_settled h.master]
  have hslave : outb pic2Command picEoi p = p := by
    rw [outb, if_neg (by decide), if_neg (by decide), if_pos rfl, command_eoi,
      endOfInterrupt_settled h.slave]
  rw [picSendEoi, hslave, ite_self, hmaster]

theorem getLsbD_clear (v : UInt8) (n m : Fin 8) :
    (v &&& ~~~(1 <<< UInt8.ofNat m)).toBitVec.getLsbD n =
      (v.toBitVec.getLsbD n && decide (n ≠ m)) := by
  have hbit : ((1 : UInt8) <<< UInt8.ofNat m).toBitVec.getLsbD n = decide (n = m) := by
    revert n m
    decide
  simp only [UInt8.toBitVec_and, UInt8.toBitVec_not, BitVec.getLsbD_and, BitVec.getLsbD_not, hbit,
    n.isLt, decide_true, Bool.true_and, ne_eq, decide_not]

end ContinuumOS.Interrupts.Controllers
