import Mathlib.Data.List.TakeWhile
import Mathlib.Data.Nat.Digits.Defs

/-!
# Decimal numbers in C strings

The conversions between numbers and their decimal text that C code performs with `%u` and
`strtoul`: printing is `Nat.toDigits 10` (what `toString` and `snprintf("%u")` write), reading is
`strtoul` (leading white space, an optional sign, the longest run of digits, saturating at
`ULONG_MAX`), and `scanU32` is the `%u` conversion of `sscanf`, which reads like `strtoumax` and
stores the low 32 bits.

The one fact the rest needs is that reading gives back what was printed, when the text after the
digits does not start with a digit (`strtoul_toDigits_append`, `scanU32_toDigits_append`).
-/

set_option autoImplicit false
set_option relaxedAutoImplicit false

namespace Bionic.Lib.Decimal

/-- `ULONG_MAX` on LP64. -/
def ulongMax : ℕ := 2 ^ 64 - 1

/-- The number a run of decimal digits spells, most significant digit first. -/
def digitsValue (cs : List Char) : ℕ := cs.foldl (fun acc c ↦ 10 * acc + (c.toNat - 48)) 0

/-- `isspace` in the C locale. -/
def isSpace (c : Char) : Bool :=
  c == ' ' || c == '\t' || c == '\n' || c == '\x0b' || c == '\x0c' || c == '\r'

/-- The white space and the sign `strtoul` skips before the digits: whether the sign was a minus,
and the text after it. -/
def signAndDigits (s : List Char) : Bool × List Char :=
  match s.dropWhile isSpace with
  | '-' :: u => (true, u)
  | '+' :: u => (false, u)
  | t => (false, t)

/-- `strtoul(s, &end, 10)`: the value and what `end` points at. Without digits nothing is read and
`end` is `s`; a value above `ULONG_MAX` reads as `ULONG_MAX`; a minus sign negates modulo
`2 ^ 64`. -/
def strtoul (s : List Char) : ℕ × List Char :=
  let (neg, u) := signAndDigits s
  let ds := u.takeWhile Char.isDigit
  if ds = [] then (0, s)
  else
    let v := digitsValue ds
    if ulongMax < v then (ulongMax, u.dropWhile Char.isDigit)
    else ((if neg then 2 ^ 64 - v else v) % 2 ^ 64, u.dropWhile Char.isDigit)

/-- The `%u` conversion of `sscanf` on what follows the literal part of the format: `none` when
no digit is read (a matching failure), else the low 32 bits of what `strtoul` reads. -/
def scanU32 (s : List Char) : Option ℕ :=
  if (signAndDigits s).2.takeWhile Char.isDigit = [] then none else some ((strtoul s).1 % 2 ^ 32)

theorem digitsValue_append_singleton (cs : List Char) (c : Char) :
    digitsValue (cs ++ [c]) = 10 * digitsValue cs + (c.toNat - 48) := by
  simp [digitsValue, List.foldl_append]

theorem digitsValue_toDigits (n : ℕ) : digitsValue (Nat.toDigits 10 n) = n := by
  induction n using Nat.strong_induction_on with
  | _ n ih =>
    rw [Nat.toDigits_eq_if (by decide)]
    split
    · next hn =>
      simp [digitsValue, Nat.toNat_digitChar_sub_48_of_lt_ten hn]
    · next hn =>
      rw [digitsValue_append_singleton, ih (n / 10) (by omega),
        Nat.toNat_digitChar_sub_48_of_lt_ten (Nat.mod_lt _ (by decide))]
      omega

theorem isDigit_of_mem_toDigits {n : ℕ} {c : Char} (hc : c ∈ Nat.toDigits 10 n) : c.isDigit :=
  Nat.isDigit_of_mem_toDigits (by decide) (by decide) hc

/-- What follows a printed number: nothing, or a character that is not a digit. -/
def NotDigitHead (rest : List Char) : Prop := ∀ c ∈ rest.head?, c.isDigit = false

theorem takeWhile_toDigits_append {n : ℕ} {rest : List Char} (hrest : NotDigitHead rest) :
    (Nat.toDigits 10 n ++ rest).takeWhile Char.isDigit = Nat.toDigits 10 n := by
  rw [List.takeWhile_append_of_pos fun c hc ↦ isDigit_of_mem_toDigits hc]
  cases rest with
  | nil => simp
  | cons c rest =>
    have hc : c.isDigit = false := hrest c rfl
    simp [hc]

theorem dropWhile_toDigits_append {n : ℕ} {rest : List Char} (hrest : NotDigitHead rest) :
    (Nat.toDigits 10 n ++ rest).dropWhile Char.isDigit = rest := by
  rw [List.dropWhile_append_of_pos fun c hc ↦ isDigit_of_mem_toDigits hc]
  cases rest with
  | nil => simp
  | cons c rest =>
    have hc : c.isDigit = false := hrest c rfl
    simp [hc]

theorem toDigits_append_eq_cons (n : ℕ) (rest : List Char) :
    ∃ c cs, Nat.toDigits 10 n ++ rest = c :: cs ∧ c.isDigit := by
  obtain ⟨c, cs, hcs⟩ := List.exists_cons_of_ne_nil (Nat.toDigits_ne_nil (n := n) (b := 10))
  refine ⟨c, cs ++ rest, by rw [hcs, List.cons_append], ?_⟩
  exact isDigit_of_mem_toDigits (by rw [hcs]; exact List.mem_cons_self)

theorem isSpace_of_isDigit {c : Char} (hc : c.isDigit) : isSpace c = false := by
  simp only [Char.isDigit, Bool.and_eq_true, decide_eq_true_eq] at hc
  simp only [isSpace, Bool.or_eq_false_iff, beq_eq_false_iff_ne, ne_eq]
  refine ⟨⟨⟨⟨⟨?_, ?_⟩, ?_⟩, ?_⟩, ?_⟩, ?_⟩ <;> rintro rfl <;> simp at hc

theorem signAndDigits_cons_of_isDigit {c : Char} {cs : List Char} (hc : c.isDigit) :
    signAndDigits (c :: cs) = (false, c :: cs) := by
  unfold signAndDigits
  rw [List.dropWhile_cons_of_neg (by simp [isSpace_of_isDigit hc])]
  split
  · next u heq =>
    cases heq
    simp at hc
  · next u heq =>
    cases heq
    simp at hc
  · rfl

theorem strtoul_toDigits_append {n : ℕ} {rest : List Char} (hrest : NotDigitHead rest) :
    strtoul (Nat.toDigits 10 n ++ rest) = (min n ulongMax, rest) := by
  obtain ⟨c, cs, hcs, hc⟩ := toDigits_append_eq_cons n rest
  unfold strtoul
  rw [hcs, signAndDigits_cons_of_isDigit hc, ← hcs]
  simp only [takeWhile_toDigits_append hrest, Nat.toDigits_ne_nil, if_false, digitsValue_toDigits,
    dropWhile_toDigits_append hrest, Bool.false_eq_true]
  split
  · next hbig => rw [Nat.min_eq_right hbig.le]
  · next hfit =>
    have hlt : n < 2 ^ 64 := by unfold ulongMax at hfit; omega
    rw [Nat.min_eq_left (Nat.not_lt.mp hfit), Nat.mod_eq_of_lt hlt]

theorem scanU32_toDigits_append {n : ℕ} {rest : List Char} (hrest : NotDigitHead rest) :
    scanU32 (Nat.toDigits 10 n ++ rest) = some (min n ulongMax % 2 ^ 32) := by
  obtain ⟨c, cs, hcs, hc⟩ := toDigits_append_eq_cons n rest
  unfold scanU32
  rw [strtoul_toDigits_append hrest, hcs, signAndDigits_cons_of_isDigit hc, ← hcs,
    takeWhile_toDigits_append hrest]
  simp

end Bionic.Lib.Decimal
