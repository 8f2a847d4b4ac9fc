import Mathlib.Algebra.Group.Int.Defs
import Mathlib.Algebra.Group.Nat.Defs
import ContinuumOS.Libc.String
import ContinuumOS.Keyboard.Model
import ContinuumOS.Lib.Terminated

/-! # The shell's line

`src/kernel/shell.cpp`: the line that is typed, with a cursor in it, and the
history of commands in a ring. An access outside the line gives no result. What
is drawn is left out, but for the terminator that drawing stores. -/
namespace ContinuumOS.Shell.Model
open ContinuumOS.Lib.Terminated ContinuumOS.Keyboard.Model
open ContinuumOS.TextEditor.Model (kbToAscii)

/-- `SHELL_BUFFER_SIZE`, `SHELL_HISTORY_SIZE` -/
def bufferSize : Nat := 256
def historySize : Nat := 16

/-- A line in an array. -/
abbrev Row := Nat → UInt8

/-- `ShellState` -/
structure ShellState where
  buffer : Row
  cursor : Nat
  length : Nat
  inputEnabled : Bool
  promptVisible : Bool
  history : Nat → Row
  historyCount : Nat
  historyNav : Int

/-- `safe_strncpy` with the size of a row. -/
def safeStrncpy (dst src : Row) : Row :=
  Function.update (copy 0 bufferSize dst src) (bufferSize - 1) 0

def strlen (r : Row) : Option Nat := lengthFrom 0 r bufferSize 0

/-- A number as an `int`. -/
def toInt (n : Int) : Int := n.bmod (2 ^ 32)

/-- What a function of the history returns: no pointer, one to `""`, or one to a row. -/
inductive Entry
  | null
  | emptyText
  | row (i : Int)
  deriving DecidableEq, Repr

/-- What comes with a key: whether there is a window to draw in, what the command of
the line leaves of `input_enabled`, and the memory in front of the history, where a
row with a negative index lies. -/
structure Press where
  key : KeyboardEvent
  graphics : Bool
  leaves : Bool
  outside : Int → Row

namespace ShellState

variable (s : ShellState)

/-! ## The history -/

def historyAdd (cmd : Row) : ShellState :=
  if cmd 0 = 0 then s
  else
    let idx := s.historyCount % historySize
    { s with
      history := Function.update s.history idx (safeStrncpy (s.history idx) cmd)
      historyCount := (s.historyCount + 1) % 2 ^ 32, historyNav := -1 }

def historyPrev : Entry × ShellState :=
  if s.historyCount = 0 then (.null, s)
  else
    let nav := if s.historyNav = -1 then toInt (s.historyCount - 1)
      else if 0 < s.historyNav then s.historyNav - 1 else s.historyNav
    (.row (nav.tmod historySize), { s with historyNav := nav })

def historyNext : Entry × ShellState :=
  if s.historyCount = 0 then (.null, s)
  else if s.historyNav = -1 then (.null, s)
  else if s.historyNav < toInt (s.historyCount - 1) then
    let nav := s.historyNav + 1
    (.row (nav.tmod historySize), { s with historyNav := nav })
  else (.emptyText, { s with historyNav := -1 })

def historyReset : ShellState := { s with historyNav := -1 }

/-- What stands at an entry. -/
def deref (outside : Int → Row) : Entry → Option Row
  | .null => none
  | .emptyText => some fun _ => 0
  | .row i => some (if 0 ≤ i then s.history i.toNat else outside i)

/-- `cmd_history`: the numbers and the rows that it prints. -/
def cmdHistory : List (Nat × Row) :=
  let start := if historySize < s.historyCount then s.historyCount - historySize else 0
  (List.range' start (s.historyCount - start)).map fun i => (i + 1, s.history (i % historySize))

/-! ## The line -/

/-- `shell_render_input`, or that without a window, which stores nothing. -/
def renderInput (graphics : Bool) : Option ShellState :=
  if graphics && s.promptVisible then do
    let buffer ← write bufferSize s.buffer s.length 0
    return { s with buffer }
  else some s

def printPrompt (graphics : Bool) : Option ShellState := do
  let buffer ← write bufferSize s.buffer 0 0
  let s := { s with buffer, cursor := 0, length := 0, promptVisible := true }
  if graphics then s.renderInput true else return s

/-- `shell_init` -/
def init (graphics : Bool) : Option ShellState := do
  let buffer ← write bufferSize s.buffer 0 0
  let s := { s with
    buffer, cursor := 0, length := 0, inputEnabled := true, promptVisible := false
    historyCount := 0, historyNav := -1 }
  s.printPrompt graphics

/-- A row takes the place of the line. -/
def setLine (r : Row) : Option ShellState := do
  let buffer := safeStrncpy s.buffer r
  let length ← strlen buffer
  return { s with buffer, length, cursor := length }

def handleUp (p : Press) : Option ShellState :=
  let (prev, s) := s.historyPrev
  match s.deref p.outside prev with
  | some r => do
    let s ← s.setLine r
    s.renderInput p.graphics
  | none => some s

def handleDown (p : Press) : Option ShellState :=
  let (next, s) := s.historyNext
  match (s.deref p.outside next).filter fun r => r 0 ≠ 0 with
  | some r => do
    let s ← s.setLine r
    s.renderInput p.graphics
  | none => do
    let buffer ← write bufferSize s.buffer 0 0
    let s := { s with buffer, length := 0, cursor := 0 }
    s.renderInput p.graphics

def handleLeft (p : Press) : Option ShellState :=
  if 0 < s.cursor then { s with cursor := s.cursor - 1 }.renderInput p.graphics else some s

def handleRight (p : Press) : Option ShellState :=
  if s.cursor < s.length then { s with cursor := s.cursor + 1 }.renderInput p.graphics else some s

def handleBackspace (p : Press) : Option ShellState :=
  if 0 < s.cursor then do
    let buffer ← move bufferSize s.buffer (s.cursor - 1) s.cursor (s.length - s.cursor + 1)
    let s := { s with
      buffer, cursor := s.cursor - 1, length := if 0 < s.length then s.length - 1 else s.length }
    s.renderInput p.graphics
  else some s

/-- A new prompt is only printed if input is still enabled. -/
def nextPrompt (graphics : Bool) : Option ShellState :=
  if s.inputEnabled then s.printPrompt graphics else some s

/-- The row is what `shell_process_command` gets. -/
def handleEnter (p : Press) : Option (ShellState × Row) := do
  let buffer ← write bufferSize s.buffer s.length 0
  let s := { s with buffer }.historyAdd buffer
  let command := s.buffer
  let s := { s with inputEnabled := p.leaves }
  let buffer ← write bufferSize s.buffer 0 0
  let s := { s with buffer, cursor := 0, length := 0 }.historyReset
  let s ← { s with promptVisible := false }.nextPrompt p.graphics
  return (s, command)

/-- A key that stands for a character. -/
def handleText (p : Press) : Option ShellState :=
  let c := kbToAscii p.key.toKeyboardEvent
  if c ≠ 0 ∧ s.length < bufferSize - 1 then do
    let buffer ← move bufferSize s.buffer (s.cursor + 1) s.cursor (s.length - s.cursor + 1)
    let buffer ← write bufferSize buffer s.cursor c
    let s := { s with buffer, cursor := s.cursor + 1, length := s.length + 1 }
    s.renderInput p.graphics
  else some s

/-- `shell_handle_key`: the shell, and the row that was handed to a command. -/
def handleKey (p : Press) : Option (ShellState × Option Row) := do
  if p.key.release then return (s, none)
  else if s.inputEnabled = false then return (s, none)
  else if p.key.upArrow then return (← s.handleUp p, none)
  else if p.key.downArrow then return (← s.handleDown p, none)
  else if p.key.leftArrow then return (← s.handleLeft p, none)
  else if p.key.rightArrow then return (← s.handleRight p, none)
  else if p.key.backspace then return (← s.handleBackspace p, none)
  else if p.key.enter then
    let (s, command) ← s.handleEnter p
    return (s, some command)
  else return (← s.handleText p, none)

/-- Key after key: the shell, and the rows that were handed to commands. -/
def run : List Press → ShellState → Option (ShellState × List Row)
  | [], s => some (s, [])
  | p :: keys, s => do
    let (s, command) ← s.handleKey p
    let (s, commands) ← run keys s
    return (s, command.toList ++ commands)

/-- From `shell_init` on. -/
def session (graphics : Bool) (keys : List Press) : Option (ShellState × List Row) := do
  let s ← s.init graphics
  run keys s

end ShellState

end ContinuumOS.Shell.Model
