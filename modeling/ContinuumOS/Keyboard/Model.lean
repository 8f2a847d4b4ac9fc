import ContinuumOS.TextEditor.Model

/-! # The keyboard

`src/kernel/keyboard.cpp`: the bytes of the keyboard become events, with the
state of the modifier keys in static variables. -/
namespace ContinuumOS.Keyboard.Model

/-- `keyboard_event` -/
structure KeyboardEvent extends TextEditor.Model.KeyboardEvent where
  ctrl : Bool
  alt : Bool
  special : Bool
  upArrow : Bool
  downArrow : Bool
  leftArrow : Bool
  rightArrow : Bool
  deriving DecidableEq, Repr

def kbdScancodeRelease : UInt8 := 0x80
def kbdScancodeShiftLeft : UInt8 := 0x2A
def kbdScancodeShiftRight : UInt8 := 0x36
def kbdScancodeCapsLock : UInt8 := 0x3A
def kbdScancodeBackspace : UInt8 := 0x0E
def kbdScancodeEnter : UInt8 := 0x1C

/-- The byte in front of a second code. -/
def kbdScancodePrefix : UInt8 := 0xE0

/-- The static variables. -/
structure Keyboard where
  shiftPressed : Bool
  capsLockActive : Bool
  extended : Bool
  deriving DecidableEq, Repr

/-- The shift flag behind a code. -/
def shiftAfter (scancode : UInt8) (shiftPressed : Bool) : Bool :=
  if scancode = kbdScancodeShiftLeft ∨ scancode = kbdScancodeShiftRight then true
  else if scancode = kbdScancodeShiftLeft ||| kbdScancodeRelease ∨
      scancode = kbdScancodeShiftRight ||| kbdScancodeRelease then false
  else shiftPressed

/-- `scancode` is what is read from the port. -/
def readKeyboard (scancode : UInt8) (k : Keyboard) : KeyboardEvent × Keyboard :=
  let event : KeyboardEvent := ⟨⟨scancode, k.shiftPressed, k.capsLockActive, false, false, false⟩,
    false, false, false, false, false, false, false⟩
  if scancode = kbdScancodePrefix then ({ event with special := true }, { k with extended := true })
  else
    let event := if k.extended then
      { event with
        special := true, upArrow := scancode = 0x48, downArrow := scancode = 0x50
        leftArrow := scancode = 0x4B, rightArrow := scancode = 0x4D }
      else event
    let shift := shiftAfter scancode k.shiftPressed
    let caps := if scancode = kbdScancodeCapsLock then !k.capsLockActive else k.capsLockActive
    ({ event with
      shift, release := scancode &&& kbdScancodeRelease ≠ 0, capsLock := caps
      enter := scancode = kbdScancodeEnter, backspace := scancode = kbdScancodeBackspace },
      ⟨shift, caps, false⟩)

/-- The variables behind a stream of bytes. -/
def readAll (bytes : List UInt8) (k : Keyboard) : Keyboard :=
  bytes.foldl (fun k b => (readKeyboard b k).2) k

section

variable {k : Keyboard} {b : UInt8}

theorem readAll_concat (bytes : List UInt8) (b : UInt8) (k : Keyboard) :
    readAll (bytes ++ [b]) k = (readKeyboard b (readAll bytes k)).2 := by
  rw [readAll, List.foldl_append, List.foldl_cons, List.foldl_nil, readAll]

theorem readKeyboard_shift : (readKeyboard b k).1.shift = (readKeyboard b k).2.shiftPressed := by
  rw [readKeyboard]
  split <;> rfl

theorem readKeyboard_prefixed (hb : b = kbdScancodePrefix) :
    (readKeyboard b k).2 = { k with extended := true } := by
  rw [readKeyboard, if_pos hb]

theorem readKeyboard_other (hb : b ≠ kbdScancodePrefix) :
    (readKeyboard b k).2.shiftPressed = shiftAfter b k.shiftPressed ∧
      (readKeyboard b k).2.extended = false := by
  rw [readKeyboard, if_neg hb]
  exact ⟨rfl, rfl⟩

end

end ContinuumOS.Keyboard.Model
