import Mathlib.Data.Int.Bitwise
import Mathlib.Data.List.TakeWhile
import Bionic.Errno
import Bionic.Lib.Horner

/-!
# strtol and its relatives

`StrToI<T, Min, Max, CharT>` (strtol.cpp) is the one parser behind `strtol`, `strtoll`,
`strtoul`, `strtoull`, `strtoimax`, `strtoumax` and their wide versions. A string is the list of
the characters before its NUL, each as the `int` that `c = *p++` gives; a read past the end gives
the NUL (`charAt`). The index of `*end_ptr` in the string is `Result.endIdx`.

The parser is cut where the source has its phases: white space and sign (`skipSpaceAndSign`), the
`0x`/`0b` prefixes and the choice of base (`selectBase`), the digit loop (`digitLoop`, one
`digitStep` per digit) and the returns after it (`finish`).

`c23StrToI` is C23's description of the same functions (7.24.1.7): the subject sequence is the
longest initial part of the text of the expected form, so a `0b` prefix counts only before a
binary digit. The two agree on every string on which the two binary-prefix tests agree
(`strToI_eq_c23StrToI`); on the others, `0b` or `0B` followed by one of `2` to `9` in base 0
or 2, `StrToI` has taken the prefix, finds no digit of base 2 and returns with `*end_ptr = s`,
where C23 reads the `0` (`strToI_binary_prefix_without_binary_digit`).

The loop accumulates a signed type in the negative range, `acc * base - c`, so that `Min` is
reachable; the proofs carry the accumulator as `sgn T * h` for the Horner value `h` of the digits
read so far, and one bound, `magnitude T`, decides overflow for both kinds of type
(`accumulate_sgn`).
-/

set_option autoImplicit false
set_option relaxedAutoImplicit false

namespace Bionic.Stdlib.Strtol

open Bionic.Lib.Horner

/-! ## Character classes of `ctype.h` -/

/-- `isspace`: `' '` or `'\t'` to `'\r'`. -/
def isspace (c : ℤ) : Bool := c == 32 || (9 ≤ c && c ≤ 13)

/-- `isdigit`: `'0'` to `'9'`. -/
def isdigit (c : ℤ) : Bool := 48 ≤ c && c ≤ 57

/-- `isalpha`: `'A'` to `'Z'` or `'a'` to `'z'`. -/
def isalpha (c : ℤ) : Bool := (65 ≤ c && c ≤ 90) || (97 ≤ c && c ≤ 122)

/-- `isxdigit`: `'0'` to `'9'`, `'a'` to `'f'` or `'A'` to `'F'`. -/
def isxdigit (c : ℤ) : Bool := (48 ≤ c && c ≤ 57) || (97 ≤ c && c ≤ 102) || (65 ≤ c && c ≤ 70)

/-- `_tolower`: `c | 0x20`, the lower case of a letter of either case. -/
def _tolower (c : ℤ) : ℤ := Int.lor c 0x20

/-- The letters are the 26 values above `'A'` and above `'a'`, and `_tolower` maps both to the
second. -/
theorem tolower_of_isalpha {c : ℤ} (h : isalpha c = true) : 97 ≤ _tolower c ∧ _tolower c ≤ 122 := by
  have hc : 65 ≤ c ∧ c ≤ 90 ∨ 97 ≤ c ∧ c ≤ 122 := by simpa [isalpha] using h
  obtain ⟨n, rfl⟩ : ∃ n : ℕ, c = n := ⟨c.toNat, by omega⟩
  have hletters : ∀ n < 123, 65 ≤ n ∧ n ≤ 90 ∨ 97 ≤ n ∧ n ≤ 122 →
      97 ≤ n ||| 32 ∧ n ||| 32 ≤ 122 := by decide
  have hn := hletters n (by omega) (by omega)
  change 97 ≤ ((n ||| 32 : ℕ) : ℤ) ∧ ((n ||| 32 : ℕ) : ℤ) ≤ 122
  omega

/-! ## The source -/

/-- An integer type `T` of `StrToI<T, Min, Max, CharT>`, given by its range `[Min, Max]`:
unsigned (`Min = 0`) or two's complement (`Max = -Min - 1`). -/
structure IntType where
  min : ℤ
  max : ℤ
  range : (min = 0 ∧ 0 ≤ max) ∨ (min < 0 ∧ max = -min - 1)

/-- `constexpr bool is_signed = (Min != 0)`. -/
def IntType.isSigned (T : IntType) : Bool := T.min != 0

/-- A signed type of `w + 1` bits. -/
def IntType.signedBits (w : ℕ) : IntType :=
  ⟨-2 ^ w, 2 ^ w - 1, .inr ⟨by simp [pow_pos], by ring⟩⟩

/-- An unsigned type of `w` bits. -/
def IntType.unsignedBits (w : ℕ) : IntType :=
  ⟨0, 2 ^ w - 1, .inl ⟨rfl, by have : (0 : ℤ) < 2 ^ w := pow_pos (by norm_num) w; omega⟩⟩

/-- `*p` for `p = s + i`: past the last character the NUL terminator. -/
def charAt (s : List ℤ) (i : ℕ) : ℤ := s.getD i 0

/-- The white space loop and the sign: whether a `-` was read, and the index of the character `c`
the prefix tests start from. -/
def skipSpaceAndSign (s : List ℤ) : Bool × ℕ :=
  let i := (s.takeWhile isspace).length
  if charAt s i = 45 then (true, i + 1)
  else if charAt s i = 43 then (false, i + 1)
  else (false, i)

/-- `(base == 0 || base == 16) && c == '0' && (*p == 'x' || *p == 'X') && isxdigit(p[1])`, with
`c` at index `i`. -/
def hexPrefix (base : ℤ) (s : List ℤ) (i : ℕ) : Bool :=
  (base == 0 || base == 16) && charAt s i == 48 &&
    (charAt s (i + 1) == 120 || charAt s (i + 1) == 88) && isxdigit (charAt s (i + 2))

/-- `(base == 0 || base == 2) && c == '0' && (*p == 'b' || *p == 'B') && isdigit(p[1])`. -/
def binaryPrefix (base : ℤ) (s : List ℤ) (i : ℕ) : Bool :=
  (base == 0 || base == 2) && charAt s i == 48 &&
    (charAt s (i + 1) == 98 || charAt s (i + 1) == 66) && isdigit (charAt s (i + 2))

/-- The prefixes and the base: the base the digits are read in, and the index of the first
character the digit loop reads. The binary test cannot pass after the hex one, which has set the
base to 16; base 0 without a prefix becomes 8 before a `'0'` and 10 otherwise. -/
def selectBase (base : ℤ) (s : List ℤ) (i : ℕ) : ℤ × ℕ :=
  if hexPrefix base s i then (16, i + 2)
  else if binaryPrefix base s i then (2, i + 2)
  else (if base = 0 then (if charAt s i = 48 then 8 else 10) else base, i)

/-- The value the loop gives a character before comparing it with the base: `c - '0'` for a
decimal digit, `10 + (_tolower(c) - 'a')` for a letter; `none` ends the loop. -/
def digitValue (c : ℤ) : Option ℤ :=
  if isdigit c then some (c - 48) else if isalpha c then some (10 + (_tolower c - 97)) else none

/-- `int any`: no digit yet (0), digits accumulated (1), overflow (-1). -/
inductive Any
  | noDigits
  | digits
  | overflow
  deriving DecidableEq, Repr

/-- `__builtin_mul_overflow(acc, base, &acc)`, then `__builtin_sub_overflow(acc, c, &acc)` for a
signed type or `__builtin_add_overflow(acc, c, &acc)` for an unsigned one; `none` when a result
leaves `[Min, Max]`. -/
def accumulate (T : IntType) (base acc d : ℤ) : Option ℤ :=
  let m := acc * base
  if m < T.min ∨ T.max < m then none
  else
    let a := if T.isSigned then m - d else m + d
    if a < T.min ∨ T.max < a then none else some a

/-- The loop body for a digit below the base: nothing after an overflow (`if (any < 0)
continue`), else one accumulation that sets `any` to 1, or to -1 when it overflows. The wrapped
value the builtins leave in `acc` on overflow is never read again, so the old one is kept. -/
def digitStep (T : IntType) (base d : ℤ) : ℤ × Any → ℤ × Any
  | (acc, .overflow) => (acc, .overflow)
  | (acc, .noDigits) | (acc, .digits) =>
    match accumulate T base acc d with
    | none => (acc, .overflow)
    | some a => (a, .digits)

/-- `for (;; c = *p++)` over the characters from `c` on: the accumulator and `any` at the break,
and how many characters were taken as digits. The end of the list is the NUL, not a digit. -/
def digitLoop (T : IntType) (base : ℤ) : List ℤ → ℤ × Any → (ℤ × Any) × ℕ
  | [], st => (st, 0)
  | c :: rest, st =>
    match digitValue c with
    | none => (st, 0)
    | some d =>
      if base ≤ d then (st, 0)
      else
        let r := digitLoop T base rest (digitStep T base d st)
        (r.1, r.2 + 1)

/-- `is_signed ? (neg ? acc : -acc) : (neg ? -acc : acc)`; the unsigned negation is modulo
`Max + 1`. -/
def applySign (T : IntType) (neg : Bool) (acc : ℤ) : ℤ :=
  if T.isSigned then (if neg then acc else -acc)
  else if neg then (-acc) % (T.max + 1) else acc

/-- The returns after the loop: `Min` or `Max` with `ERANGE` after an overflow, `Max` with
`ERANGE` when the negative accumulator of a positive signed number reached `Min`. -/
def finish (T : IntType) (neg : Bool) (acc : ℤ) : Any → ℤ × Option ℤ
  | .overflow => (if T.isSigned && neg then T.min else T.max, some erange)
  | .digits =>
    if T.isSigned && !neg && acc == T.min then (T.max, some erange) else (applySign T neg acc, none)
  | .noDigits => (applySign T neg acc, none)

/-- What `StrToI` returns, where `*end_ptr` points, and what it stores in `errno` (`none`: left
as it was). -/
structure Result where
  value : ℤ
  endIdx : ℕ
  errno : Option ℤ
  deriving DecidableEq, Repr

/-- `StrToI<T, Min, Max, CharT>(s, &end_ptr, base)`. -/
def strToI (T : IntType) (s : List ℤ) (base : ℤ) : Result :=
  if base < 0 ∨ base = 1 ∨ 36 < base then ⟨0, 0, some einval⟩
  else
    let (neg, i) := skipSpaceAndSign s
    let (base, j) := selectBase base s i
    let ((acc, any), n) := digitLoop T base (s.drop j) (0, .noDigits)
    let (value, errno) := finish T neg acc any
    ⟨value, if any = .noDigits then 0 else j + n, errno⟩

/-! The instantiations. A `char` string and a `wchar_t` string are both lists of the values
`*p` reads, so each wide function is its narrow one on the wide characters; `long` has 64 bits on
LP64 and 32 bits otherwise. -/

/-- `strtoimax`: `StrToI<intmax_t, INTMAX_MIN, INTMAX_MAX, char>`. -/
def strtoimax (s : List ℤ) (base : ℤ) : Result := strToI (.signedBits 63) s base

/-- `wcstoimax`: `StrToI<intmax_t, INTMAX_MIN, INTMAX_MAX, wchar_t>`. -/
def wcstoimax (s : List ℤ) (base : ℤ) : Result := strToI (.signedBits 63) s base

/-- `strtol`: `StrToI<long, LONG_MIN, LONG_MAX, char>`. -/
def strtol (lp64 : Bool) (s : List ℤ) (base : ℤ) : Result :=
  strToI (.signedBits (if lp64 then 63 else 31)) s base

/-- `wcstol`: `StrToI<long, LONG_MIN, LONG_MAX, wchar_t>`. -/
def wcstol (lp64 : Bool) (s : List ℤ) (base : ℤ) : Result :=
  strToI (.signedBits (if lp64 then 63 else 31)) s base

/-- `strtoll`: `StrToI<long long, LLONG_MIN, LLONG_MAX, char>`. -/
def strtoll (s : List ℤ) (base : ℤ) : Result := strToI (.signedBits 63) s base

/-- `wcstoll`: `StrToI<long long, LLONG_MIN, LLONG_MAX, wchar_t>`. -/
def wcstoll (s : List ℤ) (base : ℤ) : Result := strToI (.signedBits 63) s base

/-- `strtoul`: `StrToI<unsigned long, 0, ULONG_MAX, char>`. -/
def strtoul (lp64 : Bool) (s : List ℤ) (base : ℤ) : Result :=
  strToI (.unsignedBits (if lp64 then 64 else 32)) s base

/-- `wcstoul`: `StrToI<unsigned long, 0, ULONG_MAX, wchar_t>`. -/
def wcstoul (lp64 : Bool) (s : List ℤ) (base : ℤ) : Result :=
  strToI (.unsignedBits (if lp64 then 64 else 32)) s base

/-- `strtoull`: `StrToI<unsigned long long, 0, ULLONG_MAX, char>`. -/
def strtoull (s : List ℤ) (base : ℤ) : Result := strToI (.unsignedBits 64) s base

/-- `wcstoull`: `StrToI<unsigned long long, 0, ULLONG_MAX, wchar_t>`. -/
def wcstoull (s : List ℤ) (base : ℤ) : Result := strToI (.unsignedBits 64) s base

/-- `strtoumax`: `StrToI<uintmax_t, 0, UINTMAX_MAX, char>`. -/
def strtoumax (s : List ℤ) (base : ℤ) : Result := strToI (.unsignedBits 64) s base

/-- `wcstoumax`: `StrToI<uintmax_t, 0, UINTMAX_MAX, wchar_t>`. -/
def wcstoumax (s : List ℤ) (base : ℤ) : Result := strToI (.unsignedBits 64) s base

example : strtol true [32, 45, 48, 120, 49, 102, 103] 0 = ⟨-31, 6, none⟩ := by decide

example : strtoul true [45, 49] 10 = ⟨2 ^ 64 - 1, 2, none⟩ := by decide

/-! ## C23 -/

/-- The binary prefix of C23: `0b` or `0B` followed by a binary digit. -/
def c23BinaryPrefix (base : ℤ) (s : List ℤ) (i : ℕ) : Bool :=
  (base == 0 || base == 2) && charAt s i == 48 &&
    (charAt s (i + 1) == 98 || charAt s (i + 1) == 66) &&
    (charAt s (i + 2) == 48 || charAt s (i + 2) == 49)

/-- The base of the subject sequence and the index of its first digit. -/
def c23SelectBase (base : ℤ) (s : List ℤ) (i : ℕ) : ℤ × ℕ :=
  if hexPrefix base s i then (16, i + 2)
  else if c23BinaryPrefix base s i then (2, i + 2)
  else (if base = 0 then (if charAt s i = 48 then 8 else 10) else base, i)

/-- The values of the longest run of characters that are digits below the base. -/
def digitRun (base : ℤ) : List ℤ → List ℤ
  | [] => []
  | c :: rest =>
    match digitValue c with
    | some d => if d < base then d :: digitRun base rest else []
    | none => []

/-- The value of a subject sequence whose digits spell `v`: `-v` after a minus sign (in the
return type, so modulo `Max + 1` for an unsigned one), or `Min` or `Max` with `ERANGE` when the
value is not representable. -/
def c23Value (T : IntType) (neg : Bool) (v : ℤ) : ℤ × Option ℤ :=
  if T.isSigned then
    if neg then (if v ≤ -T.min then (-v, none) else (T.min, some erange))
    else (if v ≤ T.max then (v, none) else (T.max, some erange))
  else if v ≤ T.max then (if neg then (-v) % (T.max + 1) else v, none) else (T.max, some erange)

/-- C23 7.24.1.7: `strtol` and its relatives read the subject sequence, the longest initial part
of the text after the white space that has the expected form; with no digit nothing is read
and `*endptr` is `s`. -/
def c23StrToI (T : IntType) (s : List ℤ) (base : ℤ) : Result :=
  if base < 0 ∨ base = 1 ∨ 36 < base then ⟨0, 0, some einval⟩
  else
    let (neg, i) := skipSpaceAndSign s
    let (base, j) := c23SelectBase base s i
    let ds := digitRun base (s.drop j)
    if ds = [] then ⟨0, 0, none⟩
    else
      let (value, errno) := c23Value T neg (hornerFold base 0 ds)
      ⟨value, j + ds.length, errno⟩

/-! ## The digit loop as a fold -/

/-- `digitStep` over a run of digit values. -/
def digitFold (T : IntType) (base : ℤ) (ds : List ℤ) (st : ℤ × Any) : ℤ × Any :=
  ds.foldl (fun st d ↦ digitStep T base d st) st

section Loop

variable {T : IntType} {base : ℤ}

@[simp] theorem digitFold_nil (st : ℤ × Any) : digitFold T base [] st = st := rfl

@[simp] theorem digitFold_cons (d : ℤ) (ds : List ℤ) (st : ℤ × Any) :
    digitFold T base (d :: ds) st = digitFold T base ds (digitStep T base d st) := rfl

@[simp] theorem digitStep_overflow (d acc : ℤ) :
    digitStep T base d (acc, .overflow) = (acc, .overflow) := rfl

theorem digitFold_overflow (ds : List ℤ) (acc : ℤ) :
    digitFold T base ds (acc, .overflow) = (acc, .overflow) := by
  induction ds with
  | nil => rfl
  | cons d ds ih => rw [digitFold_cons, digitStep_overflow, ih]

theorem digitValue_nonneg {c d : ℤ} (h : digitValue c = some d) : 0 ≤ d := by
  unfold digitValue at h
  split_ifs at h with hdigit halpha
  · cases h
    simp only [isdigit, Bool.and_eq_true, decide_eq_true_eq] at hdigit
    omega
  · cases h
    have := tolower_of_isalpha halpha
    omega

theorem mem_digitRun {t : List ℤ} {d : ℤ} (h : d ∈ digitRun base t) : 0 ≤ d ∧ d < base := by
  induction t with
  | nil => simp [digitRun] at h
  | cons c rest ih =>
    simp only [digitRun] at h
    split at h
    · next d' hd' =>
      split_ifs at h with hlt
      · rcases List.mem_cons.1 h with rfl | h
        · exact ⟨digitValue_nonneg hd', hlt⟩
        · exact ih h
      · simp at h
    · simp at h

/-- The loop is `digitStep` folded over the digit run, and it takes as many characters as the
run has. -/
theorem digitLoop_eq (t : List ℤ) (st : ℤ × Any) :
    digitLoop T base t st = (digitFold T base (digitRun base t) st, (digitRun base t).length) := by
  induction t generalizing st with
  | nil => rfl
  | cons c rest ih =>
    simp only [digitLoop, digitRun]
    cases hc : digitValue c with
    | none => rfl
    | some d =>
      by_cases hd : base ≤ d
      · simp [hd, not_lt.2 hd]
      · simp [hd, not_le.1 hd, ih]

end Loop

/-! ## Overflow, for both kinds of type -/

/-- `-1` for a signed type, whose loop accumulates the negated value, and `1` for an unsigned
one. -/
def sgn (T : IntType) : ℤ := if T.isSigned then -1 else 1

/-- The largest digit value the loop accepts: `-Min` for a signed type, `Max` for an unsigned
one. -/
def magnitude (T : IntType) : ℤ := if T.isSigned then -T.min else T.max

theorem isSigned_eq_false {T : IntType} (h : T.min = 0) : T.isSigned = false := by
  simp [IntType.isSigned, h]

theorem isSigned_eq_true {T : IntType} (h : T.min < 0) : T.isSigned = true := by
  simp only [IntType.isSigned, bne_iff_ne, ne_eq]
  omega

theorem magnitude_nonneg (T : IntType) : 0 ≤ magnitude T := by
  rcases T.range with ⟨hmin, hmax⟩ | ⟨hmin, hmax⟩
  · simp [magnitude, isSigned_eq_false hmin, hmax]
  · simp only [magnitude, isSigned_eq_true hmin, ite_true]
    omega

/-- One accumulation on the value `h` read so far overflows exactly when the next value passes
`magnitude T`: the product alone never overflows where the sum does not. -/
theorem accumulate_sgn (T : IntType) {base h d : ℤ} (hbase : 0 ≤ base) (hh : 0 ≤ h) (hd : 0 ≤ d) :
    accumulate T base (sgn T * h) d =
      if h * base + d ≤ magnitude T then some (sgn T * (h * base + d)) else none := by
  have hm : 0 ≤ h * base := mul_nonneg hh hbase
  rcases T.range with ⟨hmin, hmax⟩ | ⟨hmin, hmax⟩
  · -- unsigned: the accumulator is the value
    have hs := isSigned_eq_false hmin
    have hsgn : sgn T = 1 := by simp [sgn, hs]
    have hmag : magnitude T = T.max := by simp [magnitude, hs]
    rw [hsgn, hmag, one_mul, one_mul]
    simp only [accumulate, hs, Bool.false_eq_true, ite_false, hmin]
    generalize h * base = m at *
    split_ifs <;> first | rfl | omega
  · -- signed: the accumulator is the negated value
    have hs := isSigned_eq_true hmin
    have hsgn : sgn T = -1 := by simp [sgn, hs]
    have hmag : magnitude T = -T.min := by simp [magnitude, hs]
    rw [hsgn, hmag, neg_one_mul, neg_one_mul]
    simp only [accumulate, hs, ite_true, neg_mul]
    generalize h * base = m at *
    split_ifs <;> first | rfl | omega | (congr 1; omega)

theorem digitStep_sgn {T : IntType} {base h d : ℤ} {any : Any} (hany : any ≠ .overflow)
    (hbase : 0 ≤ base) (hh : 0 ≤ h) (hd : 0 ≤ d) :
    digitStep T base d (sgn T * h, any) =
      if h * base + d ≤ magnitude T then (sgn T * (h * base + d), .digits)
      else (sgn T * h, .overflow) := by
  cases any with
  | overflow => exact absurd rfl hany
  | noDigits | digits =>
    simp only [digitStep, accumulate_sgn T hbase hh hd]
    split_ifs <;> rfl

section Fold

variable {T : IntType} {base : ℤ}

theorem digitFold_of_le {h : ℤ} {ds : List ℤ} {any : Any} (hbase : 1 ≤ base) (hh : 0 ≤ h)
    (hds : ∀ d ∈ ds, 0 ≤ d) (hany : any ≠ .overflow) (hle : hornerFold base h ds ≤ magnitude T) :
    digitFold T base ds (sgn T * h, any) =
      (sgn T * hornerFold base h ds, if ds = [] then any else .digits) := by
  induction ds generalizing h any with
  | nil => simp
  | cons d ds ih =>
    have hd : 0 ≤ d := hds d (by simp)
    have hrest : ∀ d ∈ ds, 0 ≤ d := fun d' hd' ↦ hds d' (by simp [hd'])
    have hnext : 0 ≤ h * base + d := add_nonneg (mul_nonneg hh (by omega)) hd
    rw [hornerFold_cons] at hle ⊢
    have hstep : h * base + d ≤ magnitude T := (le_hornerFold hbase hnext hrest).trans hle
    rw [digitFold_cons, digitStep_sgn hany (by omega) hh hd, if_pos hstep,
      ih hnext hrest (by simp) hle]
    simp

/-- A run whose value passes `magnitude T` ends in overflow, from any state that is within the
bound or has already overflowed. -/
theorem digitFold_of_lt {h : ℤ} {ds : List ℤ} {any : Any} (hbase : 1 ≤ base) (hh : 0 ≤ h)
    (hds : ∀ d ∈ ds, 0 ≤ d) (hinv : h ≤ magnitude T ∨ any = .overflow)
    (hlt : magnitude T < hornerFold base h ds) :
    (digitFold T base ds (sgn T * h, any)).2 = .overflow := by
  induction ds generalizing h any with
  | nil =>
    simp only [hornerFold_nil] at hlt
    simpa [show ¬h ≤ magnitude T by omega] using hinv
  | cons d ds ih =>
    rw [digitFold_cons]
    rcases hinv with hinv | rfl
    · have hd : 0 ≤ d := hds d (by simp)
      have hrest : ∀ d ∈ ds, 0 ≤ d := fun d' hd' ↦ hds d' (by simp [hd'])
      have hnext : 0 ≤ h * base + d := add_nonneg (mul_nonneg hh (by omega)) hd
      rw [hornerFold_cons] at hlt
      cases any with
      | overflow => rw [digitStep_overflow, digitFold_overflow]
      | noDigits | digits =>
        rw [digitStep_sgn (by simp) (by omega) hh hd]
        split_ifs with hstep
        · exact ih hnext hrest (.inl hstep) hlt
        · rw [digitFold_overflow]
    · rw [digitStep_overflow, digitFold_overflow]

end Fold

/-! ## The returns against C23's value -/

section Returns

variable (T : IntType) (neg : Bool)

theorem applySign_zero : applySign T neg 0 = 0 := by
  simp [applySign]

theorem c23Value_zero : c23Value T neg 0 = (0, none) := by
  rcases T.range with ⟨hmin, hmax⟩ | ⟨hmin, hmax⟩
  · simp [c23Value, isSigned_eq_false hmin, hmax]
  · cases neg <;> simp [c23Value, isSigned_eq_true hmin] <;> omega

/-- A run accumulated without overflow returns C23's value of the run: for a positive signed
number the accumulator reaching `Min` is the one value above `Max`. -/
theorem finish_digits {v : ℤ} (hle : v ≤ magnitude T) :
    finish T neg (sgn T * v) .digits = c23Value T neg v := by
  rcases T.range with ⟨hmin, hmax⟩ | ⟨hmin, hmax⟩
  · have hs := isSigned_eq_false hmin
    have hmag : magnitude T = T.max := by simp [magnitude, hs]
    rw [hmag] at hle
    simp [finish, applySign, c23Value, sgn, hs, hle]
  · have hs := isSigned_eq_true hmin
    have hmag : magnitude T = -T.min := by simp [magnitude, hs]
    rw [hmag] at hle
    cases neg <;> simp only [finish, applySign, c23Value, sgn, hs] <;> split_ifs <;> simp_all <;>
      omega

theorem finish_overflow (acc : ℤ) {v : ℤ} (hlt : magnitude T < v) :
    finish T neg acc .overflow = c23Value T neg v := by
  rcases T.range with ⟨hmin, hmax⟩ | ⟨hmin, hmax⟩
  · have hs := isSigned_eq_false hmin
    have hmag : magnitude T = T.max := by simp [magnitude, hs]
    rw [hmag] at hlt
    simp [finish, c23Value, hs, not_le.2 hlt]
  · have hs := isSigned_eq_true hmin
    have hmag : magnitude T = -T.min := by simp [magnitude, hs]
    rw [hmag] at hlt
    cases neg <;> simp only [finish, c23Value, hs] <;> split_ifs <;> simp_all <;> omega

/-- After a nonempty run of digits the code returns C23's value of the run, and `any` records
that digits were read. -/
theorem finish_digitFold {base : ℤ} {ds : List ℤ} (hbase : 1 ≤ base) (hds : ∀ d ∈ ds, 0 ≤ d)
    (hne : ds ≠ []) :
    finish T neg (digitFold T base ds (0, .noDigits)).1 (digitFold T base ds (0, .noDigits)).2 =
        c23Value T neg (hornerFold base 0 ds) ∧
      (digitFold T base ds (0, .noDigits)).2 ≠ .noDigits := by
  have hzero : ((0 : ℤ), Any.noDigits) = (sgn T * 0, .noDigits) := by simp
  rw [hzero]
  by_cases hle : hornerFold base 0 ds ≤ magnitude T
  · rw [digitFold_of_le hbase le_rfl hds (by simp) hle, if_neg hne]
    exact ⟨finish_digits T neg hle, by simp⟩
  · have hov : (digitFold T base ds (sgn T * 0, .noDigits)).2 = .overflow :=
      digitFold_of_lt hbase le_rfl hds (.inl (magnitude_nonneg T)) (not_le.1 hle)
    rw [hov]
    exact ⟨finish_overflow T neg _ (not_le.1 hle), by simp⟩

end Returns

/-! ## The code against C23 -/

theorem two_le_c23SelectBase {base : ℤ} (s : List ℤ) (i : ℕ)
    (hvalid : ¬(base < 0 ∨ base = 1 ∨ 36 < base)) : 2 ≤ (c23SelectBase base s i).1 := by
  unfold c23SelectBase
  split_ifs <;> omega

/-- `StrToI` is C23's `strto*` on every string on which its binary-prefix test, which accepts
any decimal digit after `0b`, agrees with C23's, which accepts a binary one. -/
theorem strToI_eq_c23StrToI (T : IntType) (s : List ℤ) (base : ℤ)
    (hbin : binaryPrefix base s (skipSpaceAndSign s).2 =
      c23BinaryPrefix base s (skipSpaceAndSign s).2) :
    strToI T s base = c23StrToI T s base := by
  unfold strToI c23StrToI
  split_ifs with hvalid
  · rfl
  rcases hsk : skipSpaceAndSign s with ⟨neg, i⟩
  rw [hsk] at hbin
  have hsel : selectBase base s i = c23SelectBase base s i := by
    simp only [selectBase, c23SelectBase, hbin]
  have hb := two_le_c23SelectBase s i hvalid
  rcases hc : c23SelectBase base s i with ⟨b, j⟩
  simp only [hc] at hb
  dsimp only
  rw [hsel, hc]
  dsimp only
  rw [digitLoop_eq]
  have hds : ∀ d ∈ digitRun b (s.drop j), 0 ≤ d := fun d hd ↦ (mem_digitRun hd).1
  by_cases hne : digitRun b (s.drop j) = []
  · simp [hne, finish, applySign_zero]
  · obtain ⟨hfin, hany⟩ := finish_digitFold T neg (show (1 : ℤ) ≤ b by omega) hds hne
    rcases hf : digitFold T b (digitRun b (s.drop j)) (0, .noDigits) with ⟨acc, any⟩
    rw [hf] at hfin hany
    simp only [hfin, if_neg hany, if_neg hne]

/-- `strtoimax("9223372036854775808", &end, 10)`, one past `INTMAX_MAX`, is C23's. -/
theorem strtoimax_eq_c23_two_pow_63 :
    strtoimax [57, 50, 50, 51, 51, 55, 50, 48, 51, 54, 56, 53, 52, 55, 55, 53, 56, 48, 56] 10 =
      c23StrToI (.signedBits 63)
        [57, 50, 50, 51, 51, 55, 50, 48, 51, 54, 56, 53, 52, 55, 55, 53, 56, 48, 56] 10 :=
  strToI_eq_c23StrToI _ _ _ (by decide)

example : c23StrToI (.signedBits 63)
    [57, 50, 50, 51, 51, 55, 50, 48, 51, 54, 56, 53, 52, 55, 55, 53, 56, 48, 56] 10 =
      ⟨2 ^ 63 - 1, 19, some erange⟩ := by decide

theorem drop_eq_charAt_cons {s : List ℤ} {i : ℕ} (h : charAt s i ≠ 0) :
    s.drop i = charAt s i :: s.drop (i + 1) := by
  unfold charAt at h ⊢
  rw [List.getD_eq_getElem?_getD] at h ⊢
  have hi : i < s.length := by
    by_contra hi
    rw [List.getElem?_eq_none (by omega)] at h
    exact h rfl
  rw [List.getElem?_eq_getElem hi, Option.getD_some, List.drop_eq_getElem_cons hi]

/-- `0b` or `0B` before one of `2` to `9`, in base 0 or 2: `StrToI` takes the prefix, its loop
finds no binary digit, and it returns 0 with `*end_ptr = s`; C23 has no prefix there and reads
the `0`, so `*endptr` is just past it. -/
theorem strToI_binary_prefix_without_binary_digit (T : IntType) (s : List ℤ) (base : ℤ)
    (hbin : binaryPrefix base s (skipSpaceAndSign s).2 = true)
    (hc23 : c23BinaryPrefix base s (skipSpaceAndSign s).2 = false) :
    strToI T s base = ⟨0, 0, none⟩ ∧
      c23StrToI T s base = ⟨0, (skipSpaceAndSign s).2 + 1, none⟩ := by
  rcases hsk : skipSpaceAndSign s with ⟨neg, i⟩
  rw [hsk] at hbin hc23
  dsimp only
  have hbits := hbin
  simp only [binaryPrefix, isdigit, Bool.and_eq_true, Bool.or_eq_true, beq_iff_eq,
    decide_eq_true_eq] at hbits
  obtain ⟨⟨⟨hbase, hzero⟩, hb⟩, hdigit⟩ := hbits
  -- the character after the prefix is a decimal digit but not a binary one
  have hnonbinary : ¬(charAt s (i + 2) = 48 ∨ charAt s (i + 2) = 49) := by
    intro h01
    have hyes : c23BinaryPrefix base s i = true := by
      simp only [c23BinaryPrefix, Bool.and_eq_true, Bool.or_eq_true, beq_iff_eq]
      exact ⟨⟨⟨hbase, hzero⟩, hb⟩, h01⟩
    simp [hyes] at hc23
  have hvalid : ¬(base < 0 ∨ base = 1 ∨ 36 < base) := by omega
  have hhex : hexPrefix base s i = false := by
    have hx : charAt s (i + 1) ≠ 120 := by omega
    have hX : charAt s (i + 1) ≠ 88 := by omega
    simp [hexPrefix, hx, hX]
  constructor
  · -- the code takes the prefix and its loop stops at once
    have hsel : selectBase base s i = (2, i + 2) := by simp [selectBase, hhex, hbin]
    have hv : digitValue (charAt s (i + 2)) = some (charAt s (i + 2) - 48) := by
      simp [digitValue, isdigit, hdigit.1, hdigit.2]
    unfold strToI
    rw [if_neg hvalid, hsk]
    dsimp only
    rw [hsel]
    dsimp only
    rw [drop_eq_charAt_cons (by omega)]
    simp [digitLoop, hv, show (2 : ℤ) ≤ charAt s (i + 2) - 48 by omega, finish, applySign_zero]
  · -- C23 has no prefix here: the `0` is a digit of base 8 or 2, the `b` is not
    have hsel : c23SelectBase base s i = (if base = 0 then 8 else 2, i) := by
      rcases hbase with rfl | rfl <;> simp [c23SelectBase, hhex, hc23, hzero]
    have hv0 : digitValue 48 = some 0 := by decide
    have hv1 : digitValue (charAt s (i + 1)) = some 11 := by
      rcases hb with h | h <;> rw [h] <;> decide
    have hrun : digitRun (if base = 0 then 8 else 2) (s.drop i) = [0] := by
      rw [drop_eq_charAt_cons (by omega), drop_eq_charAt_cons (i := i + 1) (by omega), hzero]
      rcases hbase with rfl | rfl <;> simp [digitRun, hv0, hv1]
    unfold c23StrToI
    rw [if_neg hvalid, hsk]
    dsimp only
    rw [hsel]
    dsimp only
    rw [hrun]
    simp [c23Value_zero]

/-- `strtol("0b2", &end, 0)` on LP64 returns 0 with `end = s`; C23 has `endptr = s + 1`. -/
theorem strtol_zero_b_two :
    strtol true [48, 98, 50] 0 = ⟨0, 0, none⟩ ∧
      c23StrToI (.signedBits 63) [48, 98, 50] 0 = ⟨0, 1, none⟩ :=
  strToI_binary_prefix_without_binary_digit _ _ _ (by decide) (by decide)

/-! ## Plain numerals

A string of decimal digits, each below a base of at most 10, has no white space, sign or prefix
for `StrToI` to skip; every caller that builds such a text itself (the integer conversions of
`scanf`) gets C23's value of it. -/

section Numerals

variable {s : List ℤ} {base : ℤ}

theorem skipSpaceAndSign_of_digit (h : 48 ≤ charAt s 0 ∧ charAt s 0 ≤ 57) :
    skipSpaceAndSign s = (false, 0) := by
  have hne : charAt s 0 ≠ 0 := by omega
  have hcons := drop_eq_charAt_cons hne
  simp only [List.drop_zero] at hcons
  have hspace : isspace (charAt s 0) = false := by
    simp only [isspace, Bool.or_eq_false_iff, beq_eq_false_iff_ne, Bool.and_eq_false_iff,
      decide_eq_false_iff_not]
    omega
  have hwhite : (s.takeWhile isspace).length = 0 := by
    rw [hcons, List.takeWhile_cons_of_neg (by simp [hspace])]
    rfl
  simp only [skipSpaceAndSign, hwhite]
  rw [if_neg (by omega), if_neg (by omega)]

theorem digitRun_of_digits (hbase : base ≤ 10) (hs : ∀ c ∈ s, 48 ≤ c ∧ c < 48 + base) :
    digitRun base s = s.map (· - 48) := by
  induction s with
  | nil => rfl
  | cons c rest ih =>
    have hc := hs c (by simp)
    have hv : digitValue c = some (c - 48) := by
      simp [digitValue, isdigit, hc.1, show c ≤ 57 by omega]
    simp only [digitRun, hv, List.map_cons]
    rw [if_pos (by omega), ih fun d hd ↦ hs d (by simp [hd])]

/-- `StrToI` on a nonempty numeral in a base from 2 to 10 returns C23's value of its digits and
ends past the last one. -/
theorem strToI_of_digits (T : IntType) (hbase : 2 ≤ base ∧ base ≤ 10)
    (hs : ∀ c ∈ s, 48 ≤ c ∧ c < 48 + base) (hne : s ≠ []) :
    strToI T s base =
      ⟨(c23Value T false (hornerFold base 0 (s.map (· - 48)))).1, s.length,
        (c23Value T false (hornerFold base 0 (s.map (· - 48)))).2⟩ := by
  obtain ⟨c, rest, rfl⟩ := List.exists_cons_of_ne_nil hne
  have hc := hs c (by simp)
  have hsign : skipSpaceAndSign (c :: rest) = (false, 0) :=
    skipSpaceAndSign_of_digit (by simp only [charAt, List.getD_cons_zero]; omega)
  -- neither prefix: the base is not 0 or 16, and no letter follows a leading `0`
  have hsel : selectBase base (c :: rest) 0 = (base, 0) := by
    have hletter : charAt (c :: rest) 1 ≠ 98 ∧ charAt (c :: rest) 1 ≠ 66 := by
      cases rest with
      | nil => simp [charAt]
      | cons c' rest' =>
        have := hs c' (by simp)
        simp only [charAt, List.getD_cons_succ, List.getD_cons_zero]
        omega
    have hhex : hexPrefix base (c :: rest) 0 = false := by
      have hbase' : (base == 0 || base == 16) = false := by
        simp only [Bool.or_eq_false_iff, beq_eq_false_iff_ne]
        omega
      simp [hexPrefix, hbase']
    have hbin : binaryPrefix base (c :: rest) 0 = false := by
      have hb : (charAt (c :: rest) 1 == 98 || charAt (c :: rest) 1 == 66) = false := by
        simp only [Bool.or_eq_false_iff, beq_eq_false_iff_ne]
        exact hletter
      simp [binaryPrefix, hb]
    simp only [selectBase, hhex, hbin, Bool.false_eq_true, ite_false]
    rw [if_neg (by omega)]
  have hrun := digitRun_of_digits (by omega) hs
  have hds : ∀ d ∈ (c :: rest).map (· - 48), 0 ≤ d := by
    intro d hd
    obtain ⟨c', hc', rfl⟩ := List.mem_map.1 hd
    have := hs c' hc'
    omega
  obtain ⟨hfin, hany⟩ := finish_digitFold T false (show (1 : ℤ) ≤ base by omega) hds (by simp)
  unfold strToI
  rw [if_neg (by omega), hsign]
  dsimp only
  rw [hsel]
  dsimp only
  rw [List.drop_zero, digitLoop_eq, hrun]
  rcases hf : digitFold T base ((c :: rest).map (· - 48)) (0, .noDigits) with ⟨acc, any⟩
  rw [hf] at hfin hany
  simp only [hfin, if_neg hany, List.length_map, zero_add]

theorem strtoimax_of_digits_gt (hbase : 2 ≤ base ∧ base ≤ 10)
    (hs : ∀ c ∈ s, 48 ≤ c ∧ c < 48 + base) (hne : s ≠ [])
    (hv : 2 ^ 63 ≤ hornerFold base 0 (s.map (· - 48))) :
    strtoimax s base = ⟨2 ^ 63 - 1, s.length, some erange⟩ := by
  have hs' : (IntType.signedBits 63).isSigned = true := isSigned_eq_true (by simp [IntType.signedBits])
  rw [strtoimax, strToI_of_digits _ hbase hs hne]
  simp only [c23Value, hs', ite_true, Bool.false_eq_true, ite_false]
  rw [if_neg (by simp only [IntType.signedBits]; omega)]
  rfl

theorem strtoumax_of_digits (hbase : 2 ≤ base ∧ base ≤ 10)
    (hs : ∀ c ∈ s, 48 ≤ c ∧ c < 48 + base) (hne : s ≠ []) :
    (strtoumax s base).value = min (hornerFold base 0 (s.map (· - 48))) (2 ^ 64 - 1) := by
  have hu : (IntType.unsignedBits 64).isSigned = false := isSigned_eq_false rfl
  have hmax : (IntType.unsignedBits 64).max = 2 ^ 64 - 1 := rfl
  rw [strtoumax, strToI_of_digits _ hbase hs hne]
  simp only [c23Value, hu, Bool.false_eq_true, ite_false, hmax]
  split_ifs with hle
  · exact (min_eq_left hle).symm
  · exact (min_eq_right (le_of_not_ge hle)).symm

end Numerals

end Bionic.Stdlib.Strtol
