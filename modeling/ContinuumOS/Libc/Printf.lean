import ContinuumOS.Libc.String
import Mathlib.Data.Int.Init
import Mathlib.Data.UInt

/-! # Formatted output

`vprintf_internal` of `libc/stdio/stdio.cpp`. What it writes is the list of chunks
that it passes to the console. An `int` and a `size_t` have 32 bits. -/
namespace ContinuumOS.Libc.Printf
open ContinuumOS.Libc.String

/-- A value that is stored in an `int`. -/
def toInt (v : Int) : Int := v.bmod (2 ^ 32)

/-- A value that is stored in a `size_t`. -/
def toSize (v : Nat) : Nat := v % 2 ^ 32

/-! ## The console -/

/-- `console_write` and `console_write_range` of bytes that are there. -/
def consoleWrite (data : List UInt8) : List (List UInt8) := if data = [] then [] else [data]

/-- The loop of `console_write_repeat`; each round writes at least one byte. -/
def repeatLoop (ch : UInt8) : Nat → Nat → List (List UInt8)
  | 0, _ => []
  | rounds + 1, remaining =>
    if remaining > 0 then
      let chunk := if remaining < 32 then remaining else 32
      consoleWrite (List.replicate chunk ch) ++ repeatLoop ch rounds (remaining - chunk)
    else []

def consoleWriteRepeat (ch : UInt8) (count : Int) : List (List UInt8) :=
  if count ≤ 0 then [] else repeatLoop ch count.toNat count.toNat

/-! ## Digits -/

/-- `"0123456789ABCDEF"` or `"0123456789abcdef"` -/
def digitsOf (uppercase : Bool) : List UInt8 :=
  [0x30, 0x31, 0x32, 0x33, 0x34, 0x35, 0x36, 0x37, 0x38, 0x39] ++
    if uppercase then [0x41, 0x42, 0x43, 0x44, 0x45, 0x46]
    else [0x61, 0x62, 0x63, 0x64, 0x65, 0x66]

/-- `temp`, which has room for 65 digits. -/
def digitLoop (digits : List UInt8) (base : Nat) : Nat → Nat → List UInt8
  | 0, _ => []
  | left + 1, value =>
    digits.getD (value % base) 0 ::
      if value / base ≠ 0 then digitLoop digits base left (value / base) else []

/-- The digits that `format_unsigned` puts into its buffer. -/
def formatUnsigned (value base : Nat) (uppercase : Bool) : List UInt8 :=
  (digitLoop (digitsOf uppercase) base 65 value).reverse

/-! ## Conversions -/

structure Flags where
  leftAdjust : Bool
  forceSign : Bool
  forceSpace : Bool
  alternate : Bool
  zeroPad : Bool

inductive Length where
  | none
  | long
  | longLong

/-- What stands between `%` and the specifier. The precision is `-1` if there is none. -/
structure Directive where
  flags : Flags
  width : Int
  precision : Int
  length : Length

/-- The flags in front of a format. -/
def parseFlags : CStr → Flags → Flags × CStr
  | [], flags => (flags, [])
  | c :: format, flags =>
    if c = 0x2D then parseFlags format { flags with leftAdjust := true }
    else if c = 0x2B then parseFlags format { flags with forceSign := true }
    else if c = 0x20 then parseFlags format { flags with forceSpace := true }
    else if c = 0x23 then parseFlags format { flags with alternate := true }
    else if c = 0x30 then parseFlags format { flags with zeroPad := true }
    else (flags, c :: format)

def isDigit (c : UInt8) : Bool := decide (0x30 ≤ c ∧ c ≤ 0x39)

/-- The loop over digits, with the number so far. -/
def parseNumber (value : Int) : CStr → Int × CStr
  | [] => (value, [])
  | c :: format =>
    if isDigit c then parseNumber (toInt (value * 10 + (c.toNat - 0x30))) format
    else (value, c :: format)

def parseLength : CStr → Length × CStr
  | [] => (.none, [])
  | c :: format =>
    if c = 0x6C then
      if format.head? = some 0x6C then (.longLong, format.tail) else (.long, format)
    else (.none, c :: format)

/-- The directive behind a `%`, and the rest of the format from its specifier on. -/
def parseDirective (format : CStr) : Directive × CStr :=
  let afterFlags := parseFlags format ⟨false, false, false, false, false⟩
  let afterWidth := parseNumber 0 afterFlags.2
  if afterWidth.2.head? = some dot then
    let afterPrecision := parseNumber 0 afterWidth.2.tail
    let afterLength := parseLength afterPrecision.2
    -- a precision overrides padding with zeros
    (⟨{ afterFlags.1 with zeroPad := false }, afterWidth.1, afterPrecision.1, afterLength.1⟩,
      afterLength.2)
  else
    let afterLength := parseLength afterWidth.2
    (⟨afterFlags.1, afterWidth.1, -1, afterLength.1⟩, afterLength.2)

/-- An argument: an `int`, a `long` or a pointer, a `long long`, or a string, which is
`none` for a null pointer. -/
inductive Arg where
  | word (v : BitVec 32)
  | dword (v : BitVec 64)
  | text (s : Option CStr)

/-- `va_arg` of a signed type. Without such an argument the behaviour is undefined. -/
def signedArg : Length → List Arg → Option (BitVec 64 × List Arg)
  | .longLong, .dword v :: args => some (v, args)
  | .longLong, _ => none
  | _, .word v :: args => some (v.signExtend 64, args)
  | _, _ => none

/-- `va_arg` of an unsigned type. -/
def unsignedArg : Length → List Arg → Option (BitVec 64 × List Arg)
  | .longLong, .dword v :: args => some (v, args)
  | .longLong, _ => none
  | _, .word v :: args => some (v.setWidth 64, args)
  | _, _ => none

def wordArg : List Arg → Option (BitVec 32 × List Arg)
  | .word v :: args => some (v, args)
  | _ => none

def textArg : List Arg → Option (Option CStr × List Arg)
  | .text s :: args => some (s, args)
  | _ => none

/-- The blanks that a text of `size` characters leaves in its field. -/
def paddingOf (width : Int) (size : Nat) : Int :=
  if width > toInt size then toInt (width - toInt size) else 0

/-- A text in its field. -/
def writeField (leftAdjust : Bool) (padding : Int) (text : List (List UInt8)) :
    List (List UInt8) :=
  (if leftAdjust then [] else consoleWriteRepeat 0x20 padding) ++ text ++
    if leftAdjust then consoleWriteRepeat 0x20 padding else []

/-- How each of the numeric cases ends. -/
def writeNumber (d : Directive) (prefixChars : List UInt8) (zeroes : Nat)
    (digits : List UInt8) : List (List UInt8) :=
  let totalLen := toSize (prefixChars.length + zeroes + digits.length)
  writeField d.flags.leftAdjust (paddingOf d.width totalLen)
    (consoleWrite prefixChars ++ consoleWriteRepeat 0x30 (toInt zeroes) ++ consoleWrite digits)

/-- The zeros that fill a field. -/
def fieldZeroes (d : Directive) (len : Nat) : Nat :=
  if ¬ d.flags.leftAdjust ∧ d.flags.zeroPad ∧ d.width > toInt len then d.width.toNat - len else 0

/-- `%d` and `%i` -/
def convertSigned (d : Directive) (value : BitVec 64) : List (List UInt8) :=
  let negative := value.slt 0
  let magnitude := (if negative then -value else value).toNat
  let digits := if d.precision = 0 ∧ magnitude = 0 then [] else formatUnsigned magnitude 10 false
  let prefixChars : List UInt8 :=
    if negative then [0x2D]
    else if d.flags.forceSign then [0x2B]
    else if d.flags.forceSpace then [0x20]
    else []
  let zeroes :=
    if d.precision > 0 ∧ d.precision.toNat > digits.length then d.precision.toNat - digits.length
    else if digits.length = 0 ∧ d.precision = 0 then 0
    else fieldZeroes d (digits.length + prefixChars.length)
  writeNumber d prefixChars zeroes digits

/-- `%u` -/
def convertUnsigned (d : Directive) (value : BitVec 64) : List (List UInt8) :=
  let digits :=
    if d.precision = 0 ∧ value = 0 then [] else formatUnsigned value.toNat 10 false
  let zeroes :=
    if d.precision > 0 ∧ d.precision.toNat > digits.length then d.precision.toNat - digits.length
    else fieldZeroes d digits.length
  writeNumber d [] zeroes digits

/-- `%x` and `%X` -/
def convertHex (d : Directive) (uppercase : Bool) (value : BitVec 64) : List (List UInt8) :=
  let digits :=
    if d.precision = 0 ∧ value = 0 then [] else formatUnsigned value.toNat 16 uppercase
  let prefixChars : List UInt8 :=
    if d.flags.alternate ∧ value ≠ 0 then [0x30, if uppercase then 0x58 else 0x78] else []
  let zeroes :=
    if d.precision > 0 ∧ d.precision.toNat > digits.length then d.precision.toNat - digits.length
    else fieldZeroes d (digits.length + prefixChars.length)
  writeNumber d prefixChars zeroes digits

/-- `(null)` -/
def nullText : CStr := [0x28, 0x6E, 0x75, 0x6C, 0x6C, 0x29]

/-- `%s` -/
def convertString (d : Directive) (str : Option CStr) : List (List UInt8) :=
  let output := str.getD nullText
  let len := if d.precision ≥ 0 ∧ d.precision.toNat < output.length then d.precision.toNat
    else output.length
  writeField d.flags.leftAdjust (paddingOf d.width len) (consoleWrite (output.take len))

/-- `%c` -/
def convertChar (d : Directive) (v : BitVec 32) : List (List UInt8) :=
  writeField d.flags.leftAdjust (if d.width > 1 then d.width - 1 else 0)
    (consoleWrite [UInt8.ofBitVec (v.setWidth 8)])

/-- `%p` -/
def convertPointer (d : Directive) (v : BitVec 32) : List (List UInt8) :=
  let digits := formatUnsigned v.toNat 16 false
  let zeroes :=
    if d.precision > 0 ∧ d.precision.toNat > digits.length then d.precision.toNat - digits.length
    else 0
  writeNumber d [0x30, 0x78] zeroes digits

/-- The switch over the specifier. -/
def convert (d : Directive) (specifier : UInt8) (args : List Arg) :
    Option (List (List UInt8) × List Arg) :=
  if specifier = 0x64 ∨ specifier = 0x69 then
    (signedArg d.length args).map fun r => (convertSigned d r.1, r.2)
  else if specifier = 0x75 then
    (unsignedArg d.length args).map fun r => (convertUnsigned d r.1, r.2)
  else if specifier = 0x78 ∨ specifier = 0x58 then
    (unsignedArg d.length args).map fun r => (convertHex d (specifier = 0x58) r.1, r.2)
  else if specifier = 0x73 then (textArg args).map fun r => (convertString d r.1, r.2)
  else if specifier = 0x63 then (wordArg args).map fun r => (convertChar d r.1, r.2)
  else if specifier = 0x70 then (wordArg args).map fun r => (convertPointer d r.1, r.2)
  else if specifier = 0x25 then some (consoleWrite [0x25], args)
  else some (consoleWrite [0x25] ++ consoleWrite [specifier], args)

/-! ## The loop over the format -/

/-- `sizeof(literal_buffer)` -/
def literalSize : Nat := 128

/-- The loop, for as many rounds as it is given, with the literal characters that are
still to be written. -/
def vprintfLoop : Nat → CStr → List Arg → List UInt8 → Option (List (List UInt8))
  | 0, format, _, buffer => if format = [] then some (consoleWrite buffer) else none
  | _ + 1, [], _, buffer => some (consoleWrite buffer)
  | rounds + 1, c :: format, args, buffer =>
    if c = 0x25 then
      let parsed := parseDirective format
      match parsed.2 with
      | [] => some (consoleWrite buffer)
      | specifier :: rest =>
        (convert parsed.1 specifier args).bind fun converted =>
          (vprintfLoop rounds rest converted.2 []).map fun chunks =>
            consoleWrite buffer ++ converted.1 ++ chunks
    else if buffer.length ≥ literalSize then
      (vprintfLoop rounds format args [c]).map fun chunks => consoleWrite buffer ++ chunks
    else vprintfLoop rounds format args (buffer ++ [c])

/-- The chunks that are written. Each round steps over a character of the format. -/
def vprintfInternal (format : CStr) (args : List Arg) : Option (List (List UInt8)) :=
  vprintfLoop format.length format args []

/-! ## What the chunks are together -/

theorem toInt_of_lt {v : Int} (hlo : 0 ≤ v) (hhi : v < 2 ^ 31) : toInt v = v := by
  unfold toInt
  exact Int.bmod_eq_of_le (by omega) (by omega)

theorem toSize_of_lt {v : Nat} (h : v < 2 ^ 32) : toSize v = v := Nat.mod_eq_of_lt h

@[simp]
theorem flatten_consoleWrite (data : List UInt8) : (consoleWrite data).flatten = data := by
  unfold consoleWrite
  split
  · next h => simp [h]
  · simp

theorem flatten_repeatLoop (ch : UInt8) (rounds remaining : Nat) (h : remaining ≤ rounds) :
    (repeatLoop ch rounds remaining).flatten = List.replicate remaining ch := by
  induction rounds generalizing remaining with
  | zero =>
    obtain rfl : remaining = 0 := by omega
    rfl
  | succ rounds ih =>
    unfold repeatLoop
    split
    · dsimp only
      generalize hc : (if remaining < 32 then remaining else 32) = chunk
      have hpos : 0 < chunk ∧ chunk ≤ remaining := by
        split at hc <;> omega
      rw [List.flatten_append, flatten_consoleWrite, ih _ (by omega),
        List.replicate_append_replicate]
      congr 1
      omega
    · obtain rfl : remaining = 0 := by omega
      rfl

@[simp]
theorem flatten_consoleWriteRepeat (ch : UInt8) (count : Int) :
    (consoleWriteRepeat ch count).flatten = List.replicate count.toNat ch := by
  unfold consoleWriteRepeat
  split
  · rw [Int.toNat_of_nonpos (by assumption)]
    rfl
  · exact flatten_repeatLoop ch _ _ (Nat.le_refl _)

theorem paddingOf_toNat {width size : Nat} (hw : width < 2 ^ 30) (hs : size < 2 ^ 31) :
    (paddingOf width size).toNat = width - size := by
  unfold paddingOf
  rw [toInt_of_lt (v := (size : Int)) (by omega) (by omega)]
  split
  · rw [toInt_of_lt (by omega) (by omega)]
    omega
  · omega

@[simp]
theorem flatten_writeField (leftAdjust : Bool) (padding : Int) (text : List (List UInt8)) :
    (writeField leftAdjust padding text).flatten =
      if leftAdjust then text.flatten ++ List.replicate padding.toNat 0x20
      else List.replicate padding.toNat 0x20 ++ text.flatten := by
  cases leftAdjust <;> simp [writeField]

end ContinuumOS.Libc.Printf
