import ContinuumOS.Lib.Words

/-! # C strings and the kernel's string functions

A C string is the list of its bytes before the terminating NUL. `strcmp(a, b)
== 0` is equality of these lists, `strlen` their length, `strcat` their
concatenation and `strcpy` the list itself. The functions with a loop of their
own (`libc/string/string.cpp`) are written out here. -/
namespace ContinuumOS.Libc.String
open ContinuumOS.Lib.Words

/-- The bytes of a C string before its terminating NUL. -/
abbrev CStr := List UInt8

/-- `'/'` -/
def slash : UInt8 := 0x2F

/-- `'.'` -/
def dot : UInt8 := 0x2E

/-- One call of `strtok`. `last` is the text from the static cursor on (the
argument itself on the first call); the result is the token, if there is one,
and the cursor after the call. -/
def strtok (delim last : CStr) : Option CStr × CStr :=
  -- skip leading delimiters
  let start := last.dropWhile fun c => delim.contains c
  if start = [] then (none, [])
  else
    -- the byte that ends the token, if any, becomes NUL and is stepped over
    (some (start.takeWhile fun c => !delim.contains c),
      (start.dropWhile fun c => !delim.contains c).tail)

/-- The position of the last `c`, if there is one. -/
def strrchr (c : UInt8) : CStr → Option Nat
  | [] => none
  | x :: xs =>
    match strrchr c xs with
    | some i => some (i + 1)
    | none => if x = c then some 0 else none

/-- The position of the first `c`, if there is one. -/
def strchr (c : UInt8) : CStr → Option Nat
  | [] => none
  | x :: xs => if x = c then some 0 else (strchr c xs).map (· + 1)

/-- `strtok` is the tokenizer of the library: its cursor always stands before
the words that are still to come. -/
theorem strtok_eq_nextWord (delim last : CStr) :
    strtok delim last = match nextWord (fun c => delim.contains c) last with
      | none => (none, [])
      | some (t, r) => (some t, r) := by
  unfold strtok nextWord
  cases h : last.dropWhile fun c => delim.contains c with
  | nil => simp
  | cons c r =>
    have hc : delim.contains c = false := head_dropWhile_not_sep h
    simp only [reduceCtorEq, if_false, List.takeWhile_cons, List.dropWhile_cons, hc,
      Bool.not_false, if_true]

theorem strtok_of_words_nil {delim last : CStr}
    (h : words (fun c => delim.contains c) last = []) : strtok delim last = (none, []) := by
  rw [strtok_eq_nextWord, nextWord_eq_none.mpr h]

theorem strtok_of_words_cons {delim last w : CStr} {ws : List CStr}
    (h : words (fun c => delim.contains c) last = w :: ws) :
    ∃ r, strtok delim last = (some w, r) ∧ words (fun c => delim.contains c) r = ws := by
  rw [strtok_eq_nextWord]
  cases hn : nextWord (fun c => delim.contains c) last with
  | none => rw [nextWord_eq_none.mp hn] at h; cases h
  | some tr =>
    obtain ⟨t, r⟩ := tr
    rw [nextWord_eq_some hn] at h
    obtain ⟨rfl, hr⟩ := List.cons.inj h
    exact ⟨r, rfl, hr⟩

theorem strrchr_eq_none {c : UInt8} : ∀ {s : CStr}, strrchr c s = none ↔ c ∉ s
  | [] => by simp [strrchr]
  | x :: xs => by
    have ih := strrchr_eq_none (c := c) (s := xs)
    cases h : strrchr c xs with
    | none => simp [strrchr, h, ih.mp h, eq_comm]
    | some i =>
      have : c ∈ xs := by
        by_contra hc
        rw [ih.mpr hc] at h; cases h
      simp [strrchr, h, this]

theorem lt_of_strrchr {c : UInt8} : ∀ {s : CStr} {i : Nat}, strrchr c s = some i → i < s.length
  | x :: xs, i, h => by
    rw [strrchr] at h
    cases hs : strrchr c xs with
    | none =>
      rw [hs] at h
      have hi := (Option.ite_none_right_eq_some.mp h).2
      rw [← Option.some.inj hi]
      exact Nat.zero_lt_succ _
    | some j =>
      rw [hs] at h
      obtain rfl := Option.some.inj h
      exact Nat.succ_lt_succ (lt_of_strrchr hs)

theorem strrchr_append {c : UInt8} {b : CStr} (hb : c ∉ b) :
    ∀ a : CStr, strrchr c (a ++ c :: b) = some a.length
  | [] => by simp [strrchr, strrchr_eq_none.mpr hb]
  | x :: a => by simp [strrchr, strrchr_append hb a]

end ContinuumOS.Libc.String
