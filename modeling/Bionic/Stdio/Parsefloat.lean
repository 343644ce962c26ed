import Bionic.Lib.LongestMatch
import Bionic.Stdlib.Strtol

/-!
# `parsefloat`

`parsefloat` (parsefloat.c) reads a floating-point number from a stream for `scanf` and
`wcstod`. It is a recogniser of nine states. Each byte goes to the case of the current state,
which may hand it on to a later state (`goto reswitch`). A case that sets `commit = p` marks what
has been read, this byte included, as a number; `goto parsedone` stops. At the end the bytes after
the last commit go back to the stream, and the length up to it is returned: the maximal-munch
scan of `Bionic.Lib.LongestMatch`, so it never exceeds what was read (`parsefloat_le`).

The subject sequence of `strtod` (C11 7.22.1.3) is the grammar `Subject`: an optional sign, then
a decimal significand with an optional `e` exponent, or `0x` and a hexadecimal significand with an
optional `p` exponent, or `inf` or `infinity`, or `nan` or `nan(...)`, letters in either case.

Bytes are the `int` values `0` to `255` of `unsigned char c`. Only the returned length is
modelled: the stream is the list of bytes it delivers, and `buf` then holds the accepted prefix.
-/

set_option autoImplicit false
set_option relaxedAutoImplicit false

namespace Bionic.Stdio.Parsefloat

open Bionic.Stdlib.Strtol Bionic.Lib.LongestMatch

/-- The bytes of an ASCII string. -/
def ascii (s : String) : List ℤ := s.toList.map fun ch ↦ (ch.toNat : ℤ)

/-- `isalnum`. -/
def isalnum (c : ℤ) : Bool := isalpha c || isdigit c

/-! ## The recogniser -/

/-- The states of `parsefloat`. -/
inductive State where
  | start
  | gotSign
  | inf
  | nan
  | maybeHex
  | digits
  | frac
  | exp
  | expDigits
  deriving DecidableEq, Repr

/-- The variables of the loop, the pointers apart: `state`, `infnanpos`, `gotmantdig` and
`ishex`. -/
structure Parse where
  state : State
  infnanpos : ℤ
  gotmantdig : Bool
  ishex : Bool
  deriving DecidableEq, Repr

/-- The variables as the function starts. -/
def Parse.init : Parse := ⟨.start, 0, false, false⟩

/-- `(ishex && isxdigit(c)) || isdigit(c)`: a digit of the significand. -/
def sigDigit (ishex : Bool) (c : ℤ) : Bool := (ishex && isxdigit c) || isdigit c

/-! Each case of the `switch` returns `none` for `goto parsedone`, or the variables after it and
whether it set `commit = p`. -/

/-- `case S_EXPDIGITS`. -/
def onExpDigits (q : Parse) (c : ℤ) : Option (Parse × Bool) :=
  if isdigit c then some (q, true) else none

/-- `case S_EXP`: the sign of the exponent, or on to `S_EXPDIGITS` with this byte. -/
def onExp (q : Parse) (c : ℤ) : Option (Parse × Bool) :=
  if c == 45 || c == 43 then some ({ q with state := .expDigits }, false)
  else onExpDigits { q with state := .expDigits } c

/-- `case S_FRAC`: the exponent mark of the base, once there is a digit, or a digit. -/
def onFrac (q : Parse) (c : ℤ) : Option (Parse × Bool) :=
  if ((c == 69 || c == 101) && !q.ishex) || ((c == 80 || c == 112) && q.ishex) then
    if !q.gotmantdig then none else some ({ q with state := .exp }, false)
  else if sigDigit q.ishex c then some ({ q with gotmantdig := true }, true)
  else none

/-- `case S_DIGITS`: a digit, or on to `S_FRAC`, past the point or with this byte. -/
def onDigits (q : Parse) (c : ℤ) : Option (Parse × Bool) :=
  if sigDigit q.ishex c then some ({ q with gotmantdig := true }, true)
  else if c != 46 then onFrac { q with state := .frac } c
  else some ({ q with state := .frac }, q.gotmantdig)

/-- `case S_MAYBEHEX`: the `x` of a hexadecimal number, or on to `S_DIGITS` after the `0`. -/
def onMaybeHex (q : Parse) (c : ℤ) : Option (Parse × Bool) :=
  if c == 88 || c == 120 then some ({ q with state := .digits, ishex := true }, false)
  else onDigits { q with state := .digits, gotmantdig := true } c

/-- `case S_GOTSIGN`. -/
def onGotSign (q : Parse) (c : ℤ) : Option (Parse × Bool) :=
  if c == 48 then some ({ q with state := .maybeHex }, true)
  else if c == 73 || c == 105 then some ({ q with state := .inf }, false)
  else if c == 78 || c == 110 then some ({ q with state := .nan }, false)
  else onDigits { q with state := .digits } c

/-- `case S_START`: a sign, or on to `S_GOTSIGN` with this byte. -/
def onStart (q : Parse) (c : ℤ) : Option (Parse × Bool) :=
  if c == 45 || c == 43 then some ({ q with state := .gotSign }, false)
  else onGotSign { q with state := .gotSign } c

/-- `case S_INF`: the letters of `nfinity` in either case, committing after `inf` and after
`infinity`. -/
def onInf (q : Parse) (c : ℤ) : Option (Parse × Bool) :=
  if q.infnanpos > 6 || (c != (ascii "nfinity").getD q.infnanpos.toNat 0 &&
      c != (ascii "NFINITY").getD q.infnanpos.toNat 0) then none
  else some ({ q with infnanpos := q.infnanpos + 1 }, q.infnanpos == 1 || q.infnanpos == 6)

/-- `case S_NAN`: `a`, `n` (a commit), `(`, then letters, digits and `_` up to a `)` that
commits and leaves `infnanpos` at `-1`. -/
def onNan (q : Parse) (c : ℤ) : Option (Parse × Bool) :=
  let next (q : Parse) (commit : Bool) := some ({ q with infnanpos := q.infnanpos + 1 }, commit)
  if q.infnanpos == -1 then none
  else if q.infnanpos == 0 then (if c != 65 && c != 97 then none else next q false)
  else if q.infnanpos == 1 then (if c != 78 && c != 110 then none else next q true)
  else if q.infnanpos == 2 then (if c != 40 then none else next q false)
  else if c == 41 then next { q with infnanpos := -2 } true
  else if !isalnum c && c != 95 then none
  else next q false

/-- One byte: the case of the current state. -/
def step (q : Parse) (c : ℤ) : Option (Parse × Bool) :=
  match q.state with
  | .start => onStart q c
  | .gotSign => onGotSign q c
  | .inf => onInf q c
  | .nan => onNan q c
  | .maybeHex => onMaybeHex q c
  | .digits => onDigits q c
  | .frac => onFrac q c
  | .exp => onExp q c
  | .expDigits => onExpDigits q c

/-- `parsefloat(fp, buf, end)` where `fp` delivers `input`: it reads at most `end - buf` bytes and
returns the length of the prefix it accepted. -/
def parsefloat (input : List ℤ) (bufLen : ℕ) : ℕ :=
  scan step Parse.init (input.take bufLen) 0 0

theorem parsefloat_le (input : List ℤ) (bufLen : ℕ) :
    parsefloat input bufLen ≤ (input.take bufLen).length := by
  unfold parsefloat
  simpa using scan_le step (input.take bufLen) Parse.init 0 0 (Nat.le_refl 0)

example : parsefloat (ascii "0x1.8p3z") 8 = 7 := by decide
example : parsefloat (ascii "-infinit") 8 = 4 := by decide
example : parsefloat (ascii "nan(_1)x") 8 = 7 := by decide

/-! ## The subject sequence of `strtod` -/

/-- `c` is `+` or `-`. -/
def IsSign (c : ℤ) : Prop := c = 43 ∨ c = 45

/-- No sign, or one. -/
def OptSign (s : List ℤ) : Prop := s = [] ∨ ∃ c, IsSign c ∧ s = [c]

/-- The lower case of an ASCII letter; other bytes stay. -/
def lower (c : ℤ) : ℤ := if 65 ≤ c ∧ c ≤ 90 then c + 32 else c

/-- A nonempty sequence of `digit`s, optionally containing one decimal point. -/
def Significand (digit : ℤ → Bool) (s : List ℤ) : Prop :=
  (∀ c ∈ s, digit c = true ∨ c = 46) ∧ s.count 46 ≤ 1 ∧ ∃ c ∈ s, digit c = true

/-- After the mark of an exponent: an optional sign and a nonempty sequence of decimal digits. -/
def ExpRest (s : List ℤ) : Prop :=
  ∃ sign ds, s = sign ++ ds ∧ OptSign sign ∧ ds ≠ [] ∧ ∀ d ∈ ds, isdigit d = true

/-- An exponent part: one of the `mark`s and its rest. -/
def ExponentPart (mark : ℤ → Prop) (s : List ℤ) : Prop :=
  ∃ m rest, s = m :: rest ∧ mark m ∧ ExpRest rest

/-- A significand of `digit`s, then an optional exponent part. -/
def Number (digit : ℤ → Bool) (mark : ℤ → Prop) (s : List ℤ) : Prop :=
  ∃ sig e, s = sig ++ e ∧ Significand digit sig ∧ (e = [] ∨ ExponentPart mark e)

/-- `e` or `E`. -/
def IsE (c : ℤ) : Prop := c = 69 ∨ c = 101

/-- `p` or `P`. -/
def IsP (c : ℤ) : Prop := c = 80 ∨ c = 112

/-- `x` or `X`. -/
def IsX (c : ℤ) : Prop := c = 88 ∨ c = 120

/-- A decimal number. -/
def DecimalBody (s : List ℤ) : Prop := Number isdigit IsE s

/-- `0x` and a hexadecimal number. -/
def HexBody (s : List ℤ) : Prop := ∃ x rest, s = 48 :: x :: rest ∧ IsX x ∧ Number isxdigit IsP rest

/-- `inf` or `infinity`, in either case. -/
def InfBody (s : List ℤ) : Prop := s.map lower = ascii "inf" ∨ s.map lower = ascii "infinity"

/-- Letters, digits and `_`: an n-char-sequence. -/
def NChars (s : List ℤ) : Prop := ∀ c ∈ s, isalnum c = true ∨ c = 95

/-- `nan`, or `nan(` an n-char-sequence `)`, in either case. -/
def NanBody (s : List ℤ) : Prop :=
  s.map lower = ascii "nan" ∨
    ∃ head ns, s = head ++ 40 :: (ns ++ [41]) ∧ head.map lower = ascii "nan" ∧ NChars ns

/-- What follows the sign. -/
def Body (s : List ℤ) : Prop := DecimalBody s ∨ HexBody s ∨ InfBody s ∨ NanBody s

/-- The subject sequence of `strtod`: an optional sign and a body. -/
def Subject (s : List ℤ) : Prop := ∃ sign body, s = sign ++ body ∧ OptSign sign ∧ Body body

end Bionic.Stdio.Parsefloat
