import ContinuumOS.Libc.Printf
import Mathlib.Data.Nat.Digits.Lemmas

/-! # What a format means

The formats of `printf` as items with their arguments, the text that the C standard
gives for each, and that `vprintf_internal` writes this text. -/
namespace ContinuumOS.Libc.Formatting
open ContinuumOS.Libc.String ContinuumOS.Libc.Printf

/-! ## Formats -/

inductive Flag where
  | minus
  | plus
  | space
  | hash
  | zero
  deriving DecidableEq

def Flag.char : Flag → UInt8
  | .minus => 0x2D
  | .plus => 0x2B
  | .space => 0x20
  | .hash => 0x23
  | .zero => 0x30

/-- The decimal digits of a width or of a precision. -/
abbrev Numeral := List (Fin 10)

def Numeral.text (ds : Numeral) : CStr := ds.map fun d : Fin 10 => UInt8.ofNat (0x30 + d.val)

/-- The digits behind those of `n`. -/
def Numeral.valueFrom (n : Nat) (ds : Numeral) : Nat := ds.foldl (fun n d => n * 10 + d.val) n

def Numeral.value (ds : Numeral) : Nat := ds.valueFrom 0

/-- The flags, the width and the precision. A `0` in front of a width is a flag, and a
precision is zero where its digits are missing. -/
structure Layout where
  flags : List Flag
  width : Numeral
  precision : Option Numeral
  width_head : width.head? ≠ some 0
  width_lt : width.value < 2 ^ 30
  precision_lt : ∀ ds, precision = some ds → ds.value < 2 ^ 30

def Layout.text (l : Layout) : CStr :=
  l.flags.map Flag.char ++ l.width.text ++ l.precision.elim [] fun ds => dot :: ds.text

def lengthText : Length → CStr
  | .none => []
  | .long => [0x6C]
  | .longLong => [0x6C, 0x6C]

/-- The argument of an integer conversion, by the length that the conversion names. -/
inductive IntArg where
  | int (v : BitVec 32)
  | long (v : BitVec 32)
  | longLong (v : BitVec 64)

namespace IntArg

def length : IntArg → Length
  | .int _ => .none
  | .long _ => .long
  | .longLong _ => .longLong

def arg : IntArg → Arg
  | .int v => .word v
  | .long v => .word v
  | .longLong v => .dword v

def signed : IntArg → Int
  | .int v => v.toInt
  | .long v => v.toInt
  | .longLong v => v.toInt

def unsigned : IntArg → Nat
  | .int v => v.toNat
  | .long v => v.toNat
  | .longLong v => v.toNat

end IntArg

inductive IntKind where
  | d
  | i
  | u
  | x
  | X

def IntKind.letter : IntKind → UInt8
  | .d => 0x64
  | .i => 0x69
  | .u => 0x75
  | .x => 0x78
  | .X => 0x58

/-- What a format consists of, each conversion with its argument. -/
inductive Item where
  | literal (c : UInt8) (not_nul : c ≠ 0) (not_percent : c ≠ 0x25)
  | percent
  | integer (kind : IntKind) (layout : Layout) (arg : IntArg)
  | string (layout : Layout) (only_minus : ∀ f ∈ layout.flags, f = .minus) (s : CStr)
      (no_nul : 0 ∉ s) (length_lt : s.length < 2 ^ 30)
  | char (layout : Layout) (only_minus : ∀ f ∈ layout.flags, f = .minus)
      (no_precision : layout.precision = none) (v : BitVec 32)

namespace Item

def text : Item → CStr
  | .literal c _ _ => [c]
  | .percent => [0x25, 0x25]
  | .integer kind layout arg => 0x25 :: (layout.text ++ lengthText arg.length ++ [kind.letter])
  | .string layout _ _ _ _ => 0x25 :: (layout.text ++ [0x73])
  | .char layout _ _ _ => 0x25 :: (layout.text ++ [0x63])

def args : Item → List Arg
  | .integer _ _ arg => [arg.arg]
  | .string _ _ s _ _ => [.text (some s)]
  | .char _ _ _ v => [.word v]
  | _ => []

end Item

/-! ## The rules of the C standard -/

def digit (uppercase : Bool) (d : Nat) : UInt8 :=
  UInt8.ofNat (if d < 10 then 0x30 + d else (if uppercase then 0x41 else 0x61) + (d - 10))

/-- The digits of a number without leading zeros; there are none for zero. -/
def digits (base : Nat) (uppercase : Bool) (n : Nat) : CStr :=
  ((Nat.digits base n).map (digit uppercase)).reverse

/-- Leading zeros up to the least number of digits. -/
def atLeast (n : Nat) (ds : CStr) : CStr := List.replicate (n - ds.length) 0x30 ++ ds

namespace Layout

/-- A text in its field: blanks stand before it, or behind it with the flag `-`. -/
def field (l : Layout) (text : CStr) : CStr :=
  let blanks := List.replicate (l.width.value - text.length) 0x20
  if .minus ∈ l.flags then text ++ blanks else blanks ++ text

/-- The least number of digits: the precision, or one. With the flag `0` the digits fill
the field, unless there is the flag `-` or a precision. -/
def minDigits (l : Layout) (lead : CStr) : Nat :=
  l.precision.elim
    (if .zero ∈ l.flags ∧ .minus ∉ l.flags then max 1 (l.width.value - lead.length) else 1)
    Numeral.value

/-- A number in its field, behind its sign or base. -/
def number (l : Layout) (lead digits : CStr) : CStr :=
  l.field (lead ++ atLeast (l.minDigits lead) digits)

/-- The flag `+` overrides the blank. -/
def sign (l : Layout) (v : Int) : CStr :=
  if v < 0 then [0x2D]
  else if .plus ∈ l.flags then [0x2B]
  else if .space ∈ l.flags then [0x20]
  else []

/-- `0x` or `0X`; a zero has none. -/
def base (l : Layout) (uppercase : Bool) (v : Nat) : CStr :=
  if .hash ∈ l.flags ∧ v ≠ 0 then [0x30, if uppercase then 0x58 else 0x78] else []

def signed (l : Layout) (v : Int) : CStr := l.number (l.sign v) (digits 10 false v.natAbs)

def unsigned (l : Layout) (v : Nat) : CStr := l.number [] (digits 10 false v)

def hex (l : Layout) (uppercase : Bool) (v : Nat) : CStr :=
  l.number (l.base uppercase v) (digits 16 uppercase v)

/-- A string, of which the precision is the greatest length. -/
def string (l : Layout) (s : CStr) : CStr :=
  l.field (l.precision.elim s fun ds => s.take ds.value)

/-- An `int` as an `unsigned char`. -/
def char (l : Layout) (v : BitVec 32) : CStr := l.field [UInt8.ofNat v.toNat]

end Layout

def IntKind.rendering (l : Layout) (arg : IntArg) : IntKind → CStr
  | .d => l.signed arg.signed
  | .i => l.signed arg.signed
  | .u => l.unsigned arg.unsigned
  | .x => l.hex false arg.unsigned
  | .X => l.hex true arg.unsigned

/-- The text that an item stands for. -/
def Item.rendering : Item → CStr
  | .literal c _ _ => [c]
  | .percent => [0x25]
  | .integer kind layout arg => kind.rendering layout arg
  | .string layout _ s _ _ => layout.string s
  | .char layout _ _ v => layout.char v

/-! ## Digits -/

section

variable {base value m k : Nat} {uppercase : Bool} {ds : CStr}

theorem digitsOf_eq_digit (uppercase : Bool) :
    ∀ d < 16, (digitsOf uppercase).getD d 0 = digit uppercase d := by
  cases uppercase <;> decide

@[simp]
theorem digits_zero : digits base uppercase 0 = [] := by simp [digits]

theorem length_digits_pos (h : value ≠ 0) : 0 < (digits base uppercase value).length := by
  rw [digits, List.length_reverse, List.length_map, List.length_pos_iff]
  exact Nat.digits_ne_nil_iff_ne_zero.2 h

theorem digitLoop_of_pos {left : Nat} (hb : 1 < base) (hb16 : base ≤ 16) (hpos : 0 < value)
    (hv : value < base ^ left) :
    digitLoop (digitsOf uppercase) base left value =
      (Nat.digits base value).map (digit uppercase) := by
  induction left generalizing value with
  | zero =>
    rw [pow_zero] at hv
    omega
  | succ left ih =>
    have hd : value % base < 16 := lt_of_lt_of_le (Nat.mod_lt _ (by omega)) hb16
    rw [Nat.digits_def' hb hpos, digitLoop, List.map_cons, digitsOf_eq_digit _ _ hd]
    by_cases h : value / base = 0
    · simp [h]
    · rw [if_pos h, ih (Nat.pos_of_ne_zero h)]
      rw [Nat.div_lt_iff_lt_mul (by omega)]
      rwa [pow_succ] at hv

theorem length_atLeast : (atLeast m ds).length = max m ds.length := by
  simp only [atLeast, List.length_append, List.length_replicate]
  omega

theorem atLeast_of_le (h : m ≤ ds.length) : atLeast m ds = ds := by
  rw [atLeast, Nat.sub_eq_zero_of_le h, List.replicate_zero, List.nil_append]

theorem zeros_atLeast (h : k ≤ m) :
    List.replicate (m - (atLeast k ds).length) 0x30 ++ atLeast k ds = atLeast m ds := by
  rw [length_atLeast]
  simp only [atLeast, ← List.append_assoc, List.replicate_append_replicate]
  congr 2
  omega

theorem formatUnsigned_eq (hb : 1 < base) (hb16 : base ≤ 16) (hv : value < 2 ^ 64) :
    formatUnsigned value base uppercase = atLeast 1 (digits base uppercase value) := by
  rcases Nat.eq_zero_or_pos value with rfl | hpos
  · rw [digits_zero, formatUnsigned, digitLoop]
    simp [atLeast, digitsOf]
  · have hlt : value < base ^ 65 :=
      calc value < 2 ^ 64 := hv
        _ ≤ base ^ 64 := Nat.pow_le_pow_left hb 64
        _ ≤ base ^ 65 := Nat.pow_le_pow_right (by omega) (by omega)
    rw [atLeast_of_le (length_digits_pos hpos.ne'), formatUnsigned,
      digitLoop_of_pos hb hb16 hpos hlt, digits]

theorem length_digits_le (hb : 1 < base) (hv : value < 2 ^ 64) :
    (digits base uppercase value).length ≤ 64 := by
  rw [digits, List.length_reverse, List.length_map, Nat.digits_length_le_iff hb]
  exact lt_of_lt_of_le hv (Nat.pow_le_pow_left hb 64)

end

/-! ## Fields -/

/-- What `vprintf_internal` makes of a layout. -/
def Layout.directive (l : Layout) (length : Length) : Directive where
  flags := {
    leftAdjust := .minus ∈ l.flags
    forceSign := .plus ∈ l.flags
    forceSpace := .space ∈ l.flags
    alternate := .hash ∈ l.flags
    zeroPad := .zero ∈ l.flags ∧ l.precision = none }
  width := l.width.value
  precision := l.precision.elim (-1) fun ds => ds.value
  length := length

section

variable {l : Layout} {length : Length} {lead ds text : CStr} {zeroes : Nat}

theorem flatten_field (l : Layout) (length : Length) (chunks : List (List UInt8))
    (h : chunks.flatten.length < 2 ^ 31) :
    (writeField (l.directive length).flags.leftAdjust
      (paddingOf (l.directive length).width chunks.flatten.length) chunks).flatten =
      l.field chunks.flatten := by
  simp only [flatten_writeField, Layout.directive, paddingOf_toNat l.width_lt h, Layout.field,
    decide_eq_true_eq]

theorem flatten_writeNumber (hlead : lead.length ≤ 2) (hds : ds.length ≤ 64)
    (hz : zeroes ≤ 2 ^ 30) :
    (writeNumber (l.directive length) lead zeroes ds).flatten =
      l.field (lead ++ List.replicate zeroes 0x30 ++ ds) := by
  have hsize : toSize (lead.length + zeroes + ds.length) = lead.length + zeroes + ds.length :=
    toSize_of_lt (by omega)
  have hzero : toInt zeroes = zeroes := toInt_of_lt (by omega) (by omega)
  have htext : (consoleWrite lead ++ consoleWriteRepeat 0x30 (toInt zeroes) ++
      consoleWrite ds).flatten = lead ++ List.replicate zeroes 0x30 ++ ds := by
    simp [hzero]
  have hfield := flatten_field l length (consoleWrite lead ++
    consoleWriteRepeat 0x30 (toInt zeroes) ++ consoleWrite ds)
  rw [htext] at hfield
  rw [writeNumber, hsize, ← hfield (by simp; omega)]
  simp only [List.length_append, List.length_replicate]

theorem minDigits_le (l : Layout) (lead : CStr) : l.minDigits lead ≤ 2 ^ 30 := by
  have hw := l.width_lt
  cases hp : l.precision with
  | none =>
    simp only [Layout.minDigits, hp, Option.elim_none]
    split <;> omega
  | some ds =>
    simp only [Layout.minDigits, hp, Option.elim_some]
    exact (l.precision_lt ds hp).le

theorem fieldZeroes_eq {n : Nat} (hn : n < 2 ^ 30) :
    fieldZeroes (l.directive length) n =
      if .zero ∈ l.flags ∧ .minus ∉ l.flags ∧ l.precision = none then l.width.value - n
      else 0 := by
  have hint : toInt n = n := toInt_of_lt (by omega) (by omega)
  simp only [fieldZeroes, hint, Layout.directive, decide_eq_true_eq, Nat.cast_lt, gt_iff_lt,
    Int.toNat_natCast]
  by_cases hw : n < l.width.value
  · exact if_congr ⟨fun h => ⟨h.2.1.1, h.1, h.2.1.2⟩, fun h => ⟨h.2.1, ⟨h.1, h.2.2⟩, hw⟩⟩ rfl rfl
  · rw [if_neg fun h => hw h.2.2, Nat.sub_eq_zero_of_le (by omega), ite_self]

theorem zeroes_eq (hlen : ds.length ≤ 65) (hlead : lead.length ≤ 2)
    (hpos : l.precision = none → 0 < ds.length) :
    (if (l.directive length).precision > 0 ∧
        (l.directive length).precision.toNat > ds.length then
      (l.directive length).precision.toNat - ds.length
    else fieldZeroes (l.directive length) (ds.length + lead.length)) =
      l.minDigits lead - ds.length := by
  rw [fieldZeroes_eq (by omega)]
  cases hp : l.precision with
  | none =>
    have := hpos hp
    simp only [Layout.directive, Layout.minDigits, hp, Option.elim_none, and_true]
    rw [if_neg (by omega)]
    split <;> omega
  | some p =>
    simp only [Layout.directive, Layout.minDigits, hp, Option.elim_some, reduceCtorEq,
      and_false, if_false]
    split <;> omega

theorem printed_digits {base n : Nat} {uppercase : Bool} (hb : 1 < base) (hb16 : base ≤ 16)
    (hn : n < 2 ^ 64) (lead : CStr) :
    ∃ k ≤ l.minDigits lead, (l.precision = none → k = 1) ∧ k ≤ 1 ∧
      (if (l.directive length).precision = 0 ∧ n = 0 then []
        else formatUnsigned n base uppercase) = atLeast k (digits base uppercase n) := by
  rw [formatUnsigned_eq hb hb16 hn]
  cases hp : l.precision with
  | none =>
    refine ⟨1, ?_, fun _ => rfl, le_rfl, if_neg ?_⟩
    · simp only [Layout.minDigits, hp, Option.elim_none]
      split <;> omega
    · rintro ⟨h, -⟩
      simp [Layout.directive, hp] at h
  | some p =>
    have hmin : l.minDigits lead = p.value := by simp [Layout.minDigits, hp]
    have hprec : (l.directive length).precision = p.value := by simp [Layout.directive, hp]
    rw [hmin, hprec]
    by_cases hzero : p.value = 0
    · refine ⟨0, by omega, nofun, by omega, ?_⟩
      by_cases h : n = 0
      · subst h
        simp [hzero, atLeast]
      · rw [if_neg (by omega), atLeast_of_le (length_digits_pos h), atLeast_of_le (Nat.zero_le _)]
    · exact ⟨1, by omega, nofun, le_rfl, if_neg (by omega)⟩

/-- **The numeric cases**: with the zeros in front of them the digits are as many as the
layout asks for. -/
theorem flatten_number {base n : Nat} {uppercase : Bool} (hb : 1 < base) (hb16 : base ≤ 16)
    (hn : n < 2 ^ 64) (hlead : lead.length ≤ 2)
    (hds : (if (l.directive length).precision = 0 ∧ n = 0 then []
      else formatUnsigned n base uppercase) = ds) :
    (writeNumber (l.directive length) lead
      (if (l.directive length).precision > 0 ∧
          (l.directive length).precision.toNat > ds.length then
        (l.directive length).precision.toNat - ds.length
      else fieldZeroes (l.directive length) (ds.length + lead.length)) ds).flatten =
      l.number lead (digits base uppercase n) := by
  obtain ⟨k, hk, hnone, hk1, heq⟩ :=
    @printed_digits l length base n uppercase hb hb16 hn lead
  obtain rfl : atLeast k (digits base uppercase n) = ds := heq.symm.trans hds
  have hdigits : (digits base uppercase n).length ≤ 64 := length_digits_le hb hn
  have hlen : (atLeast k (digits base uppercase n)).length ≤ 64 := by
    rw [length_atLeast]
    omega
  have hpos : l.precision = none → 0 < (atLeast k (digits base uppercase n)).length := by
    intro h
    rw [length_atLeast, hnone h]
    omega
  have hmin := minDigits_le l lead
  rw [zeroes_eq (by omega) hlead hpos, flatten_writeNumber hlead hlen (by omega),
    List.append_assoc, zeros_atLeast hk, Layout.number]

end

/-! ## Conversions -/

section

variable {l : Layout} {length : Length}

theorem natAbs_lt (v : BitVec 64) : v.toInt.natAbs < 2 ^ 64 := by
  have h₁ := BitVec.le_toInt v
  have h₂ := @BitVec.toInt_lt 64 v
  omega

theorem slt_zero (v : BitVec 64) : v.slt 0 = decide (v.toInt < 0) := rfl

theorem eq_zero_iff (v : BitVec 64) : v = 0 ↔ v.toNat = 0 := BitVec.toNat_inj.symm

/-- The negation of a negative value is its amount, the smallest value included. -/
theorem magnitude_eq (v : BitVec 64) :
    (if v.slt 0 then -v else v).toNat = v.toInt.natAbs := by
  have hv := v.isLt
  simp only [slt_zero, decide_eq_true_eq]
  rw [BitVec.toInt_eq_toNat_cond]
  by_cases h : 2 * v.toNat < 2 ^ 64
  · rw [if_pos h, if_neg (by omega)]
    omega
  · rw [if_neg h, if_pos (by omega), BitVec.toNat_neg]
    omega

theorem length_sign_le (v : Int) : (l.sign v).length ≤ 2 := by
  unfold Layout.sign
  split_ifs <;> simp

theorem length_base_le (uppercase : Bool) (v : Nat) : (l.base uppercase v).length ≤ 2 := by
  unfold Layout.base
  split_ifs <;> simp

theorem fieldZeroes_of_precision {n : Nat} (h : (l.directive length).precision = 0) :
    fieldZeroes (l.directive length) n = 0 := by
  cases hp : l.precision with
  | none => simp [Layout.directive, hp] at h
  | some p => simp [fieldZeroes, Layout.directive, hp]

theorem flatten_convertSigned (v : BitVec 64) :
    (convertSigned (l.directive length) v).flatten = l.signed v.toInt := by
  have hlead : (if v.slt 0 = true then [0x2D]
      else if (l.directive length).flags.forceSign = true then [0x2B]
      else if (l.directive length).flags.forceSpace = true then [0x20]
      else []) = l.sign v.toInt := by
    simp only [slt_zero, Layout.directive, Layout.sign, decide_eq_true_eq]
  simp only [convertSigned, magnitude_eq, hlead]
  generalize hds : (if (l.directive length).precision = 0 ∧ v.toInt.natAbs = 0 then []
    else formatUnsigned v.toInt.natAbs 10 false) = ds
  rw [Layout.signed,
    ← flatten_number (by omega) (by omega) (natAbs_lt v) (length_sign_le _) hds]
  congr 2
  refine if_congr Iff.rfl rfl ?_
  split
  · next h => rw [fieldZeroes_of_precision h.2]
  · rfl

theorem flatten_convertUnsigned (v : BitVec 64) :
    (convertUnsigned (l.directive length) v).flatten = l.unsigned v.toNat := by
  simp only [convertUnsigned, eq_zero_iff]
  exact flatten_number (by omega) (by omega) v.isLt (by simp) rfl

theorem flatten_convertHex (uppercase : Bool) (v : BitVec 64) :
    (convertHex (l.directive length) uppercase v).flatten = l.hex uppercase v.toNat := by
  have hlead : (if (l.directive length).flags.alternate = true ∧ v.toNat ≠ 0 then
      [0x30, if uppercase then 0x58 else 0x78] else []) = l.base uppercase v.toNat := by
    simp only [Layout.directive, Layout.base, decide_eq_true_eq]
  simp only [convertHex, ne_eq, eq_zero_iff]
  rw [hlead]
  exact flatten_number (by omega) (by omega) v.isLt (length_base_le _ _) rfl

theorem flatten_convertString (s : CStr) (hs : s.length < 2 ^ 30) :
    (convertString (l.directive length) (some s)).flatten = l.string s := by
  generalize hlen : (if (l.directive length).precision ≥ 0 ∧
    (l.directive length).precision.toNat < s.length then (l.directive length).precision.toNat
    else s.length) = len
  have hle : len ≤ s.length := by
    split at hlen <;> omega
  have htake : s.take len = l.precision.elim s fun ds => s.take ds.value := by
    cases hp : l.precision with
    | none =>
      have : len = s.length := by
        simpa [Layout.directive, hp] using hlen.symm
      rw [this, List.take_length, Option.elim_none]
    | some p =>
      simp only [Layout.directive, hp, Option.elim_some, Int.toNat_natCast] at hlen
      split at hlen
      · rw [← hlen, Option.elim_some]
      · rw [← hlen, List.take_length, Option.elim_some, List.take_of_length_le (by omega)]
  have hfield := flatten_field l length (consoleWrite (s.take len))
  simp only [flatten_consoleWrite, List.length_take, Nat.min_eq_left hle] at hfield
  simp only [convertString, Option.getD_some, hlen]
  rw [hfield (by omega), Layout.string, htake]

theorem flatten_convertChar (v : BitVec 32) :
    (convertChar (l.directive length) v).flatten = l.char v := by
  have hbyte : UInt8.ofBitVec (v.setWidth 8) = UInt8.ofNat v.toNat := by
    rw [← UInt8.toNat_inj]
    simp
  have hpad : (if (l.directive length).width > 1 then (l.directive length).width - 1
      else 0).toNat = l.width.value - 1 := by
    have hw : (l.directive length).width = l.width.value := rfl
    rw [hw]
    split <;> omega
  simp only [convertChar, flatten_writeField, flatten_consoleWrite, hpad, hbyte]
  simp only [Layout.char, Layout.field, Layout.directive, decide_eq_true_eq,
    List.length_singleton]

end

/-! ## The text of a layout -/

/-- The specifiers of the items. -/
def letters : List UInt8 := [0x25, 0x63, 0x64, 0x69, 0x73, 0x75, 0x78, 0x58]

section

variable {letter : UInt8} {rest : CStr}

/-- The flags that were read, on top of those before. -/
def addFlags (flags : List Flag) (f : Flags) : Flags where
  leftAdjust := f.leftAdjust ∨ .minus ∈ flags
  forceSign := f.forceSign ∨ .plus ∈ flags
  forceSpace := f.forceSpace ∨ .space ∈ flags
  alternate := f.alternate ∨ .hash ∈ flags
  zeroPad := f.zeroPad ∨ .zero ∈ flags

/-- A format at which the flags end. -/
def NoFlag (format : CStr) : Prop := ∀ f : Flag, format.head? ≠ some f.char

def NoDigit (format : CStr) : Prop := ∀ c, format.head? = some c → isDigit c = false

theorem parseFlags_of_noFlag {format : CStr} (h : NoFlag format) (f : Flags) :
    parseFlags format f = (f, format) := by
  cases format with
  | nil => rfl
  | cons c format =>
    have hne : ∀ g : Flag, c ≠ g.char := fun g hc => h g (by rw [hc, List.head?_cons])
    exact ((if_neg (hne .minus)).trans <| (if_neg (hne .plus)).trans <|
      (if_neg (hne .space)).trans <| (if_neg (hne .hash)).trans <| if_neg (hne .zero))

theorem parseFlags_text {format : CStr} (h : NoFlag format) (flags : List Flag) (f : Flags) :
    parseFlags (flags.map Flag.char ++ format) f = (addFlags flags f, format) := by
  induction flags generalizing f with
  | nil => simp [addFlags, parseFlags_of_noFlag h]
  | cons g flags ih =>
    cases g <;>
      simp [parseFlags, Flag.char, ih, addFlags]

theorem isDigit_char (d : Fin 10) : isDigit (UInt8.ofNat (0x30 + d.val)) = true := by
  revert d
  decide

theorem toNat_digit (d : Fin 10) : (UInt8.ofNat (0x30 + d.val)).toNat = 0x30 + d.val := by
  revert d
  decide

theorem le_valueFrom (n : Nat) (ds : Numeral) : n ≤ ds.valueFrom n := by
  induction ds generalizing n with
  | nil => exact le_rfl
  | cons d ds ih => exact le_trans (by omega) (ih (n * 10 + d))

theorem parseNumber_of_noDigit {format : CStr} (h : NoDigit format) (n : Int) :
    parseNumber n format = (n, format) := by
  cases format with
  | nil => rfl
  | cons c format => rw [parseNumber, h c rfl, if_neg (by simp)]

theorem parseNumber_text {format : CStr} (h : NoDigit format) (n : Nat) (ds : Numeral)
    (hlt : ds.valueFrom n < 2 ^ 30) :
    parseNumber n (ds.text ++ format) = ((ds.valueFrom n : Int), format) := by
  induction ds generalizing n with
  | nil => exact parseNumber_of_noDigit h n
  | cons d ds ih =>
    have hle : n * 10 + d.val < 2 ^ 30 := lt_of_le_of_lt (le_valueFrom (n * 10 + d.val) ds) hlt
    have hstep : toInt ((n : Int) * 10 + ((UInt8.ofNat (0x30 + d.val)).toNat - 0x30)) =
        ((n * 10 + d.val : Nat) : Int) := by
      rw [toNat_digit, toInt_of_lt (by omega) (by omega)]
      omega
    have hrec := ih (n * 10 + d.val) hlt
    rw [Numeral.text, List.map_cons, List.cons_append, parseNumber, isDigit_char, if_pos rfl, hstep]
    exact hrec

/-- What follows the flags and the width starts with a point, an `l` or a specifier. -/
def Ends (format : CStr) : Prop := ∃ c ∈ dot :: 0x6C :: letters, ∃ r, format = c :: r

theorem Ends.noFlag {format : CStr} (h : Ends format) : NoFlag format := by
  obtain ⟨c, hc, r, rfl⟩ := h
  have hchar : ∀ f : Flag, ∀ c ∈ dot :: 0x6C :: letters, c ≠ f.char := by
    intro f
    cases f <;> simp [letters, dot, Flag.char]
  intro f
  rw [List.head?_cons, ne_eq, Option.some.injEq]
  exact hchar f c hc

theorem Ends.noDigit {format : CStr} (h : Ends format) : NoDigit format := by
  obtain ⟨c, hc, r, rfl⟩ := h
  have hchar : ∀ c ∈ dot :: 0x6C :: letters, isDigit c = false := by
    simp [letters, dot, isDigit]
  rintro d hd
  obtain rfl : c = d := Option.some.inj hd
  exact hchar c hc

theorem ends_length (hletter : letter ∈ letters) (length : Length) :
    Ends (lengthText length ++ letter :: rest) := by
  cases length with
  | none => exact ⟨letter, by simp [hletter], rest, rfl⟩
  | long => exact ⟨0x6C, by simp, letter :: rest, rfl⟩
  | longLong => exact ⟨0x6C, by simp, 0x6C :: letter :: rest, rfl⟩

theorem noFlag_width {l : Layout} {format : CStr} (h : Ends format) :
    NoFlag (l.width.text ++ format) := by
  have hhead := l.width_head
  cases hw : l.width with
  | nil => exact h.noFlag
  | cons d ds =>
    have hd : d ≠ 0 := by
      rintro rfl
      exact hhead (by rw [hw, List.head?_cons])
    have hchar : ∀ d : Fin 10, d ≠ 0 → ∀ f : Flag, UInt8.ofNat (0x30 + d.val) ≠ f.char := by
      intro d hd f
      cases f <;> revert d <;> decide
    intro f hf
    exact hchar d hd f (Option.some.inj hf)

theorem parseLength_text (hletter : letter ∈ letters) (length : Length) :
    parseLength (lengthText length ++ letter :: rest) = (length, letter :: rest) := by
  have hne : letter ≠ 0x6C := by
    rintro rfl
    revert hletter
    decide
  cases length <;> simp [lengthText, parseLength, hne]

theorem head_length_ne_dot (hletter : letter ∈ letters) (length : Length) :
    (lengthText length ++ letter :: rest).head? ≠ some dot := by
  have hne : letter ≠ dot := by
    rintro rfl
    revert hletter
    decide
  cases length with
  | none => simpa [lengthText] using hne
  | long => simp [lengthText, dot]
  | longLong => simp [lengthText, dot]

/-- **The directive** that is read from the text of a layout. -/
theorem parseDirective_text (hletter : letter ∈ letters) (l : Layout) (length : Length) :
    parseDirective (l.text ++ lengthText length ++ letter :: rest) =
      (l.directive length, letter :: rest) := by
  have hend := @ends_length letter rest hletter length
  have hflags : ∀ format, Ends format →
      parseFlags (l.flags.map Flag.char ++ (l.width.text ++ format))
        ⟨false, false, false, false, false⟩ =
      (addFlags l.flags ⟨false, false, false, false, false⟩, l.width.text ++ format) :=
    fun format h => parseFlags_text (noFlag_width h) _ _
  have hwidth : ∀ format, Ends format →
      parseNumber 0 (l.width.text ++ format) = ((l.width.value : Int), format) :=
    fun format h => parseNumber_text h.noDigit 0 l.width l.width_lt
  cases hp : l.precision with
  | none =>
    have hdot := @head_length_ne_dot letter rest hletter length
    simp only [parseDirective, Layout.text, hp, Option.elim_none, List.append_nil,
      List.append_assoc, hflags _ hend, hwidth _ hend, if_neg hdot, parseLength_text hletter]
    simp [addFlags, Layout.directive, hp]
  | some p =>
    have hends : Ends (dot :: (p.text ++ (lengthText length ++ letter :: rest))) :=
      ⟨dot, List.mem_cons_self, _, rfl⟩
    have hprec : parseNumber 0 (p.text ++ (lengthText length ++ letter :: rest)) =
        ((p.value : Int), lengthText length ++ letter :: rest) :=
      parseNumber_text hend.noDigit 0 p (l.precision_lt p hp)
    simp only [parseDirective, Layout.text, hp, Option.elim_some, List.append_assoc,
      List.cons_append, hflags _ hends, hwidth _ hends, List.head?_cons, if_true,
      List.tail_cons, hprec, parseLength_text hletter]
    simp [addFlags, Layout.directive, hp]

end

/-! ## The loop over the format -/

section

variable {d : Directive} {letter : UInt8} {format rest : CStr} {args : List Arg}
  {buffer : List UInt8} {rounds : Nat}

@[simp]
theorem directive_length (l : Layout) (length : Length) : (l.directive length).length = length :=
  rfl

theorem signedArg_arg (arg : IntArg) (more : List Arg) :
    ∃ v, signedArg arg.length (arg.arg :: more) = some (v, more) ∧ v.toInt = arg.signed := by
  cases arg with
  | int v => exact ⟨_, rfl, BitVec.toInt_signExtend_of_le (by omega)⟩
  | long v => exact ⟨_, rfl, BitVec.toInt_signExtend_of_le (by omega)⟩
  | longLong v => exact ⟨_, rfl, rfl⟩

theorem unsignedArg_arg (arg : IntArg) (more : List Arg) :
    ∃ v, unsignedArg arg.length (arg.arg :: more) = some (v, more) ∧ v.toNat = arg.unsigned := by
  cases arg with
  | int v => exact ⟨_, rfl, BitVec.toNat_setWidth_of_le (by omega)⟩
  | long v => exact ⟨_, rfl, BitVec.toNat_setWidth_of_le (by omega)⟩
  | longLong v => exact ⟨_, rfl, rfl⟩

/-- A specifier takes its arguments and leaves the others. -/
def Converts (d : Directive) (letter : UInt8) (args : List Arg) (out : CStr) : Prop :=
  ∀ more, ∃ chunks, convert d letter (args ++ more) = some (chunks, more) ∧ chunks.flatten = out

theorem converts_signed (l : Layout) (arg : IntArg) (h : letter = 0x64 ∨ letter = 0x69) :
    Converts (l.directive arg.length) letter [arg.arg] (l.signed arg.signed) := by
  intro more
  obtain ⟨v, hv, hint⟩ := signedArg_arg arg more
  refine ⟨convertSigned (l.directive arg.length) v, ?_, ?_⟩
  · simp [convert, h, hv]
  · rw [flatten_convertSigned, hint]

theorem converts_unsigned (l : Layout) (arg : IntArg) :
    Converts (l.directive arg.length) 0x75 [arg.arg] (l.unsigned arg.unsigned) := by
  intro more
  obtain ⟨v, hv, hnat⟩ := unsignedArg_arg arg more
  refine ⟨convertUnsigned (l.directive arg.length) v, ?_, ?_⟩
  · simp [convert, hv]
  · rw [flatten_convertUnsigned, hnat]

theorem converts_hex (l : Layout) (arg : IntArg) (uppercase : Bool) :
    Converts (l.directive arg.length) (if uppercase then 0x58 else 0x78) [arg.arg]
      (l.hex uppercase arg.unsigned) := by
  intro more
  obtain ⟨v, hv, hnat⟩ := unsignedArg_arg arg more
  refine ⟨convertHex (l.directive arg.length) uppercase v, ?_, ?_⟩
  · cases uppercase <;> simp [convert, hv]
  · rw [flatten_convertHex, hnat]

theorem converts_integer (kind : IntKind) (l : Layout) (arg : IntArg) :
    Converts (l.directive arg.length) kind.letter [arg.arg] (kind.rendering l arg) := by
  cases kind with
  | d => exact converts_signed l arg (.inl rfl)
  | i => exact converts_signed l arg (.inr rfl)
  | u => exact converts_unsigned l arg
  | x => exact converts_hex l arg false
  | X => exact converts_hex l arg true

theorem converts_string (l : Layout) (s : CStr) (hs : s.length < 2 ^ 30) :
    Converts (l.directive .none) 0x73 [.text (some s)] (l.string s) :=
  fun _ => ⟨_, rfl, flatten_convertString s hs⟩

theorem converts_char (l : Layout) (v : BitVec 32) :
    Converts (l.directive .none) 0x63 [.word v] (l.char v) :=
  fun _ => ⟨_, rfl, flatten_convertChar v⟩

theorem converts_percent (d : Directive) : Converts d 0x25 [] [0x25] := fun _ => ⟨_, rfl, rfl⟩

theorem loop_conversion {out body : CStr}
    (hparse : parseDirective body = (d, letter :: rest)) (hconv : Converts d letter args out)
    (more : List Arg) :
    (vprintfLoop (rounds + 1) (0x25 :: body) (args ++ more) buffer).map List.flatten =
      ((vprintfLoop rounds rest more []).map List.flatten).map (buffer ++ out ++ ·) := by
  obtain ⟨chunks, heq, rfl⟩ := hconv more
  simp [vprintfLoop, hparse, heq, Option.map_map, Function.comp_def]

theorem loop_literal {c : UInt8} (hc : c ≠ 0x25) :
    ∃ flushed kept, flushed ++ kept = buffer ++ [c] ∧
      (vprintfLoop (rounds + 1) (c :: format) args buffer).map List.flatten =
        ((vprintfLoop rounds format args kept).map List.flatten).map (flushed ++ ·) := by
  by_cases h : buffer.length ≥ literalSize
  · refine ⟨buffer, [c], rfl, ?_⟩
    simp [vprintfLoop, hc, h, Option.map_map, Function.comp_def]
  · refine ⟨[], buffer ++ [c], rfl, ?_⟩
    simp [vprintfLoop, hc, h, Function.comp_def]

/-- What the loop does with an item: some text is written and some is kept. -/
def Steps (item : Item) : Prop :=
  ∀ (rest : CStr) (more : List Arg) (buffer : List UInt8) (rounds : Nat),
    (item.text ++ rest).length ≤ rounds →
    ∃ flushed kept m, flushed ++ kept = buffer ++ item.rendering ∧ rest.length ≤ m ∧
      (vprintfLoop rounds (item.text ++ rest) (item.args ++ more) buffer).map List.flatten =
        ((vprintfLoop m rest more kept).map List.flatten).map (flushed ++ ·)

theorem steps_conversion {item : Item} {body : CStr} (htext : item.text = 0x25 :: body)
    (hparse : ∀ rest, parseDirective (body ++ rest) = (d, letter :: rest))
    (hconv : Converts d letter item.args item.rendering) : Steps item := by
  intro rest more buffer rounds hrounds
  rw [htext, List.cons_append, List.length_cons, List.length_append] at hrounds
  obtain ⟨m, rfl⟩ : ∃ m, rounds = m + 1 := ⟨rounds - 1, by omega⟩
  refine ⟨buffer ++ item.rendering, [], m, List.append_nil _, by omega, ?_⟩
  rw [htext, List.cons_append]
  exact loop_conversion (hparse rest) hconv more

/-- **A step** of the loop, for each kind of item. -/
theorem steps_item (item : Item) : Steps item := by
  cases item with
  | literal c hnul hpercent =>
    intro rest more buffer rounds hrounds
    obtain ⟨m, rfl⟩ : ∃ m, rounds = m + 1 := ⟨rounds - 1, by simp [Item.text] at hrounds; omega⟩
    obtain ⟨flushed, kept, heq, hloop⟩ := @loop_literal rest more buffer m c hpercent
    exact ⟨flushed, kept, m, heq, by simpa [Item.text] using hrounds, hloop⟩
  | percent =>
    exact steps_conversion rfl (fun _ => rfl)
      (converts_percent ⟨⟨false, false, false, false, false⟩, 0, -1, .none⟩)
  | integer kind l arg =>
    refine steps_conversion rfl (fun rest => ?_) (converts_integer kind l arg)
    rw [List.append_assoc]
    exact parseDirective_text (by cases kind <;> decide) l arg.length
  | string l _ s _ hs =>
    refine steps_conversion rfl (fun rest => ?_) (converts_string l s hs)
    simpa [lengthText] using parseDirective_text (by decide) l .none
  | char l _ _ v =>
    refine steps_conversion rfl (fun rest => ?_) (converts_char l v)
    simpa [lengthText] using parseDirective_text (by decide) l .none

/-- **The run** of the loop over any items. -/
theorem loop_items (items : List Item) (more : List Arg) (buffer : List UInt8) (rounds : Nat)
    (h : (items.flatMap Item.text).length ≤ rounds) :
    (vprintfLoop rounds (items.flatMap Item.text) (items.flatMap Item.args ++ more)
      buffer).map List.flatten = some (buffer ++ items.flatMap Item.rendering) := by
  induction items generalizing buffer rounds with
  | nil => cases rounds <;> simp [vprintfLoop]
  | cons item items ih =>
    rw [List.flatMap_cons] at h
    obtain ⟨flushed, kept, m, heq, hm, hloop⟩ :=
      steps_item item (items.flatMap Item.text) (items.flatMap Item.args ++ more) buffer rounds h
    rw [List.flatMap_cons, List.flatMap_cons, List.append_assoc, hloop, ih kept m hm,
      Option.map_some, List.flatMap_cons, ← List.append_assoc, ← List.append_assoc, heq]

/-- **`printf` follows the rules of C**: for every format of literal characters, `%%` and
conversions, with arguments that match, what is written to the console is the literal
text with each conversion replaced by its rendering. -/
theorem printf_renders (items : List Item) (more : List Arg) :
    (vprintfInternal (items.flatMap Item.text) (items.flatMap Item.args ++ more)).map
      List.flatten = some (items.flatMap Item.rendering) :=
  loop_items items more [] _ le_rfl

/-- `%-05.2d` of -7 -/
def minusSeven : Item :=
  .integer .d ⟨[.minus, .zero], [5], some [2], by decide, by decide, by rintro _ ⟨⟩; decide⟩
    (.int (-7))

example : minusSeven.text = [0x25, 0x2D, 0x30, 0x35, 0x2E, 0x32, 0x64] := by decide

/-- The flag `-` overrides `0`: `-07` and two blanks. -/
example : (vprintfInternal minusSeven.text minusSeven.args).map List.flatten =
    some [0x2D, 0x30, 0x37, 0x20, 0x20] := by decide +kernel

end

end ContinuumOS.Libc.Formatting
