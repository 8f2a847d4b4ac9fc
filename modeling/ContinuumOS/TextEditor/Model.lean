import ContinuumOS.Lib.Terminated
import ContinuumOS.Libc.String

/-! # The text editor

`src/user/editor.cpp`: the lines of a file in an array of rows, the keys that
change them, loading and saving. An access outside the array, or a text that
does not end in its row, gives no result. What is drawn is left out; the rows
that drawing reads are not. -/
namespace ContinuumOS.TextEditor.Model
open ContinuumOS.Lib.Terminated ContinuumOS.Libc.String

/-- `EDITOR_MAX_LINES`, `EDITOR_LINE_LENGTH` -/
def maxLines : Nat := 128
def lineLength : Nat := 128

/-- `VFS_MAX_PATH` -/
def maxPath : Nat := 256

/-- `Terminal::VGA_HEIGHT - 1`, the rows above the status bar. -/
def viewRows : Nat := 24

/-- One line of the buffer. -/
abbrev Row := Nat → UInt8

/-- The bytes of an ASCII text. -/
def ascii (s : String) : CStr := s.toList.map fun c => UInt8.ofNat c.toNat

def newline : UInt8 := 0x0A
def carriageReturn : UInt8 := 0x0D

/-! ## Keys -/

/-- What the editor looks at of a `keyboard_event`. -/
structure KeyboardEvent where
  scancode : UInt8
  shift : Bool
  capsLock : Bool
  release : Bool
  enter : Bool
  backspace : Bool
  deriving DecidableEq, Repr

def keyLeftArrow : UInt8 := 0x4B
def keyRightArrow : UInt8 := 0x4D
def keyUpArrow : UInt8 := 0x48
def keyDownArrow : UInt8 := 0x50

/-- `scancode_to_ascii`; the entries behind are 0. -/
def scancodeToAscii : List UInt8 :=
  [0, 0] ++ ascii "1234567890-=" ++ [0, 0] ++ ascii "qwertyuiop[]" ++ [newline, 0] ++
    ascii "asdfghjkl;'`" ++ [0] ++ ascii "\\zxcvbnm,./" ++ [0] ++ ascii "*" ++ [0] ++ ascii " "

def toupper (c : UInt8) : UInt8 := if 97 ≤ c ∧ c ≤ 122 then c - 32 else c

def kbToAscii (event : KeyboardEvent) : UInt8 :=
  if 128 ≤ event.scancode then 0
  else
    let c := scancodeToAscii.getD event.scancode.toNat 0
    if event.shift ∨ event.capsLock then if 97 ≤ c ∧ c ≤ 122 then toupper c else c else c

/-! ## The state -/

/-- `Editor` -/
structure Editor where
  buffer : Nat → Row
  lineCount : Int
  cursorLine : Int
  cursorCol : Int
  viewportOffset : Int
  filename : CStr
  path : CStr
  active : Bool
  statusMessage : CStr

/-- `VFS_SUCCESS`, `VFS_NOT_FOUND` -/
def vfsSuccess : Int := 0
def vfsNotFound : Int := -2

/-- The results of the calls that `exit` makes; that of `vfs_create` is not
looked at. -/
structure SaveCalls where
  kmalloc : Bool
  remove : Int
  openFile : Int
  seek : Int
  write : Int

/-- A place that is not before the start of an array. -/
def index (i : Int) : Option Nat := if 0 ≤ i then some i.toNat else none

def strlen (r : Row) : Option Nat := lengthFrom 0 r lineLength 0

/-- The text of `len` characters in a row. -/
def textOf (r : Row) (len : Nat) : CStr := (List.range len).map r

/-- `copy_line` -/
def copyLine (dst src : Row) : Row :=
  Function.update (copy 0 lineLength dst src) (lineLength - 1) 0

namespace Editor

variable (e : Editor)

/-- `buffer[i]` -/
def row (i : Int) : Option Row :=
  if 0 ≤ i ∧ i < maxLines then some (e.buffer i.toNat) else none

def setRow (i : Int) (r : Row) : Option Editor :=
  if 0 ≤ i ∧ i < maxLines then some { e with buffer := Function.update e.buffer i.toNat r }
  else none

/-- `copy_line(buffer[i], buffer[j])` -/
def copyRow (i j : Int) : Option Editor := do
  let src ← e.row j
  let dst ← e.row i
  e.setRow i (copyLine dst src)

/-- `copy_line(buffer[i - 1], buffer[i])` for `count` rows from `i` on. -/
def rowsUp : Nat → Int → Editor → Option Editor
  | 0, _, e => some e
  | count + 1, i, e => do
    let e ← e.copyRow (i - 1) i
    rowsUp count (i + 1) e

/-- `copy_line(buffer[i], buffer[i - 1])` for `count` rows from `i` down. -/
def rowsDown : Nat → Int → Editor → Option Editor
  | 0, _, e => some e
  | count + 1, i, e => do
    let e ← e.copyRow i (i - 1)
    rowsDown count (i - 1) e

def setStatusMessage (msg : CStr) : Editor := { e with statusMessage := msg.take (lineLength - 1) }

/-! ## Drawing -/

/-- The rows that are drawn, from `i` on. -/
def drawLines : Nat → Int → Option Unit
  | 0, _ => some ()
  | left + 1, i =>
    if i < e.lineCount then do
      let text ← e.row i
      let _ ← strlen text
      drawLines left (i + 1)
    else drawLines left (i + 1)

/-- The cursor is moved into view. -/
def scrollView : Editor :=
  if e.cursorLine < e.viewportOffset then { e with viewportOffset := e.cursorLine }
  else if e.viewportOffset + viewRows ≤ e.cursorLine then
    { e with viewportOffset := e.cursorLine - viewRows + 1 }
  else e

def render : Option Editor := do
  let e := e.scrollView
  drawLines e viewRows e.viewportOffset
  return e

/-! ## Saving -/

/-- Trailing empty lines are dropped, at most `left`. -/
def trimLines : Nat → Editor → Option Editor
  | 0, e => some e
  | left + 1, e =>
    if 1 < e.lineCount then do
      let last ← e.row (e.lineCount - 1)
      let len ← strlen last
      if len = 0 then trimLines left { e with lineCount := e.lineCount - 1 } else return e
    else some e

/-- The length of `left` lines from `i` on, with their newlines. -/
def totalLength : Nat → Int → Option Nat
  | 0, _ => some 0
  | left + 1, i => do
    let line ← e.row i
    let len ← strlen line
    let rest ← totalLength left (i + 1)
    return len + 1 + rest

/-- `left` lines from `i` on are put behind `data`, with their newlines. -/
def fillData : Nat → Int → CStr → Option CStr
  | 0, _, data => some data
  | left + 1, i, data => do
    let line ← e.row i
    let len ← strlen line
    fillData left (i + 1) (data ++ textOf line len ++ [newline])

/-- The editor and the bytes of the file, when it was written. -/
def exit (save : Bool) (calls : SaveCalls) : Option (Editor × Option CStr) :=
  if save then
    if e.path = [] then return ({ e with active := false }, none)
    else do
      let e ← trimLines e.lineCount.toNat e
      let total ← totalLength e e.lineCount.toNat 0
      if 0 < total ∧ calls.kmalloc = false then return ({ e with active := false }, none)
      let data ← fillData e e.lineCount.toNat 0 []
      if calls.remove ≠ vfsSuccess ∧ calls.remove ≠ vfsNotFound then
        return ({ e with active := false }, none)
      if calls.openFile ≠ vfsSuccess then return ({ e with active := false }, none)
      if calls.seek ≠ vfsSuccess then return ({ e with active := false }, none)
      if 0 < total ∧ calls.write ≠ total then return ({ e with active := false }, none)
      return ({ e with active := false }, some data)
  else return ({ e with active := false }, none)

/-! ## Keys that change the text -/

def handleChar (c : UInt8) : Option Editor := do
  let line ← e.row e.cursorLine
  let len ← strlen line
  if lineLength - 1 ≤ len then return e
  let col ← index e.cursorCol
  let line ← shiftUp lineLength (len - col) len line
  let line ← write lineLength line col c
  let line ← write lineLength line (len + 1) 0
  let e ← e.setRow e.cursorLine line
  return { e with cursorCol := e.cursorCol + 1 }

/-- The line is cut at the cursor; its end becomes a line of its own. -/
def splitLine : Option Editor := do
  let ln ← e.row e.cursorLine
  let len ← strlen ln
  let col ← index e.cursorCol
  -- an array of its own, which is only read up to its terminator
  let right ← blit lineLength (fun _ => 0) 0 ln col (len - col)
  let right ← write lineLength right (len - col) 0
  let ln ← write lineLength ln col 0
  let e ← e.setRow e.cursorLine ln
  let e ← rowsDown (e.lineCount - (e.cursorLine + 1)).toNat e.lineCount e
  let dst ← e.row (e.cursorLine + 1)
  let e ← e.setRow (e.cursorLine + 1) (copyLine dst right)
  return { e with
    lineCount := e.lineCount + 1, cursorLine := e.cursorLine + 1, cursorCol := 0 }

/-- `.save` -/
def saveCommand (calls : SaveCalls) : Option (Editor × Option CStr) := do
  let e := e.setStatusMessage (ascii "Saved.")
  let e ← rowsUp (e.lineCount - 1 - e.cursorLine).toNat (e.cursorLine + 1) e
  let count := e.lineCount - 1
  let e := { e with lineCount := count, cursorLine := count - 1 }
  let last ← e.row e.cursorLine
  let len ← strlen last
  exit { e with cursorCol := len } true calls

def handleEnter (calls : SaveCalls) : Option (Editor × Option CStr) := do
  let ln ← e.row e.cursorLine
  let len ← strlen ln
  if textOf ln len = ascii ".save" then e.saveCommand calls
  else if textOf ln len = ascii ".exit" then
    exit (e.setStatusMessage (ascii "Exited.")) false calls
  else if (maxLines : Int) ≤ e.lineCount then return (e, none)
  else
    let e ← e.splitLine
    return (e, none)

/-- `cp` characters of `ln` go behind the `prevLen` of row `i`. -/
def appendTo (i : Int) (prev : Row) (prevLen : Nat) (ln : Row) (cp : Nat) : Option Editor :=
  if 0 < cp then do
    let prev ← blit lineLength prev prevLen ln 0 cp
    let prev ← write lineLength prev (prevLen + cp) 0
    e.setRow i prev
  else some e

/-- As much of the line as fits goes behind the one above. -/
def joinLine : Option Editor := do
  let ln ← e.row e.cursorLine
  let len ← strlen ln
  let prev ← e.row (e.cursorLine - 1)
  let prevLen ← strlen prev
  let space := lineLength - 1 - prevLen
  let cp := if len < space then len else space
  let e ← e.appendTo (e.cursorLine - 1) prev prevLen ln cp
  let e ← rowsUp (e.lineCount - (e.cursorLine + 1)).toNat (e.cursorLine + 1) e
  return { e with
    lineCount := e.lineCount - 1, cursorLine := e.cursorLine - 1, cursorCol := prevLen }

def handleBackspace : Option Editor := do
  let ln ← e.row e.cursorLine
  let len ← strlen ln
  if 0 < e.cursorCol then
    let col ← index (e.cursorCol - 1)
    let ln ← shiftDown lineLength (len - col) col ln
    let e ← e.setRow e.cursorLine ln
    return { e with cursorCol := e.cursorCol - 1 }
  else if 0 < e.cursorLine then e.joinLine
  else return e

/-- The cursor goes to a line, not behind its end. -/
def toLine (line : Int) : Option Editor := do
  let text ← e.row line
  let len ← strlen text
  return { e with
    cursorLine := line, cursorCol := if (len : Int) < e.cursorCol then len else e.cursorCol }

def handleArrows (scancode : UInt8) : Option Editor :=
  if scancode = keyUpArrow then
    if 0 < e.cursorLine then e.toLine (e.cursorLine - 1) else some e
  else if scancode = keyDownArrow then
    if e.cursorLine < e.lineCount - 1 then e.toLine (e.cursorLine + 1)
    else if e.cursorLine = e.lineCount - 1 ∧ e.lineCount < maxLines then do
      let r ← e.row e.lineCount
      let r ← write lineLength r 0 0
      let e ← e.setRow e.lineCount r
      return { e with
        lineCount := e.lineCount + 1, cursorLine := e.cursorLine + 1, cursorCol := 0 }
    else some e
  else if scancode = keyLeftArrow then
    if 0 < e.cursorCol then some { e with cursorCol := e.cursorCol - 1 }
    else if 0 < e.cursorLine then do
      let text ← e.row (e.cursorLine - 1)
      let len ← strlen text
      return { e with cursorLine := e.cursorLine - 1, cursorCol := len }
    else some e
  else if scancode = keyRightArrow then do
    let text ← e.row e.cursorLine
    let len ← strlen text
    if e.cursorCol < len then return { e with cursorCol := e.cursorCol + 1 }
    else if e.cursorLine < e.lineCount - 1 then
      return { e with cursorLine := e.cursorLine + 1, cursorCol := 0 }
    else return e
  else some e

def isArrow (scancode : UInt8) : Bool :=
  scancode == keyUpArrow || scancode == keyDownArrow || scancode == keyLeftArrow ||
    scancode == keyRightArrow

/-- A key that stands for a character. -/
def handleText (ke : KeyboardEvent) : Option Editor :=
  let c := kbToAscii ke
  if c ≠ 0 then e.handleChar c else some e

/-- The editor, and the file when the key saved it. -/
def handleKey (ke : KeyboardEvent) (calls : SaveCalls) : Option (Editor × Option CStr) := do
  if ke.release then return (e, none)
  else if ke.backspace then
    let e ← e.handleBackspace
    return (← e.render, none)
  else if ke.enter then
    let (e, saved) ← e.handleEnter calls
    if e.active = false then return (e, saved) else return (← e.render, saved)
  else if isArrow ke.scancode then
    let e ← e.handleArrows ke.scancode
    return (← e.render, none)
  else
    let e ← e.handleText ke
    return (← e.render, none)

end Editor

/-! ## Loading -/

/-- The results of the calls that `start` makes: `chunks` are the bytes that
`vfs_read` gives until it gives none. -/
structure LoadCalls where
  openFile : Int
  chunks : List CStr
  create : Int

/-- The state of the loop over the file. -/
structure Loading where
  editor : Editor
  lineBuf : Row
  lineLen : Nat
  truncated : Bool

namespace Loading

/-- The line that was read goes into the buffer. -/
def finishLine (s : Loading) : Option Loading := do
  let lineBuf ← write lineLength s.lineBuf s.lineLen 0
  if s.editor.lineCount < maxLines then
    let dst ← s.editor.row s.editor.lineCount
    let e ← s.editor.setRow s.editor.lineCount (copyLine dst lineBuf)
    return { s with editor := { e with lineCount := e.lineCount + 1 }, lineBuf }
  else return { s with lineBuf, truncated := true }

def loadChar (s : Loading) (c : UInt8) : Option Loading :=
  if c = carriageReturn then some s
  else if c = newline then do
    let s ← s.finishLine
    return { s with lineLen := 0 }
  else if s.lineLen < lineLength - 1 then do
    let lineBuf ← write lineLength s.lineBuf s.lineLen c
    return { s with lineBuf, lineLen := s.lineLen + 1 }
  else some s

def loadChunk (s : Loading) (chunk : CStr) : Option Loading := chunk.foldlM loadChar s

/-- The whole file. -/
def load (s : Loading) (chunks : List CStr) : Option Loading := do
  let s ← chunks.foldlM loadChunk s
  if 0 < s.lineLen ∨ s.editor.lineCount = 0 then s.finishLine else return s

end Loading

namespace Editor

/-- The name that the status bar shows. -/
def filenameOf (path : CStr) : CStr :=
  let name := match strrchr slash path with
    | some i => if path.drop (i + 1) ≠ [] then path.drop (i + 1) else path
    | none => if path ≠ [] then path else ascii "untitled"
  name.take 63

/-- Opening the file: the editor with its lines, and whether some did not fit.
`line_buf` is `lineBuf` at first. -/
def openPath (e : Editor) (calls : LoadCalls) (lineBuf : Row) : Option (Editor × Bool) :=
  if e.path = [] then some (e, false)
  else if calls.openFile = vfsSuccess then do
    let s ← Loading.load ⟨e, lineBuf, 0, false⟩ calls.chunks
    return (s.editor, s.truncated)
  else if calls.openFile = vfsNotFound then
    if calls.create = vfsSuccess then some (e, false)
    else some (e.setStatusMessage (ascii "Could not create file"), false)
  else some (e, false)

/-- There is always a line. -/
def firstLine (e : Editor) : Option Editor :=
  if e.lineCount = 0 then do
    let r ← e.row 0
    let r ← write lineLength r 0 0
    let e ← e.setRow 0 r
    return { e with lineCount := 1 }
  else some e

/-- `path` is `none` for a null pointer. -/
def start (e : Editor) (path : Option CStr) (calls : LoadCalls) (lineBuf : Row) :
    Option Editor := do
  let path := (path.getD []).take (maxPath - 1)
  let e := { e with
    active := true, statusMessage := [], path, filename := filenameOf path, lineCount := 0 }
  let (e, truncated) ← e.openPath calls lineBuf
  let e ← e.firstLine
  let e := if truncated then e.setStatusMessage (ascii "File truncated in editor view") else e
  render { e with cursorLine := 0, cursorCol := 0, viewportOffset := 0 }

end Editor

end ContinuumOS.TextEditor.Model
