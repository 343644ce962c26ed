import Bionic.Stdio.PrintfArgs

/-!
# Integer conversions of `printf`

`__vfprintf` with sequential arguments, for the text between conversions and the integer
conversions `d`, `i`, `u`, `o`, `x`, `X`, `b`, `B` (and `D`, `O`, `U`) with every flag, width,
precision and length modifier. The scan follows the source case by case (`vfprintfLoop`); a
conversion's characters are what `convField` computes from the number's digits, its sign and its
`0x` prefix: left blanks, sign, prefix, zeros, the precision's zeros, the digits, right blanks.

The arguments are a `va_list` of integers (`args`), read as the width of the type each modifier
selects on LP64. Positional `n$` forms are `PrintfArgs`; the other conversions are not modelled.

* `vfprintf_ret`: a call that returns `ret` has written exactly `ret` characters.

What C23 asks of each conversion, and where the two differ, is `PrintfC23`.
-/

set_option autoImplicit false
set_option relaxedAutoImplicit false

namespace Bionic.Stdio.PrintfInt

open Bionic.Stdio.PrintfArgs (intMax readNumber)

/-- The flags of one conversion (`ALT`, `LADJUST`, `ZEROPAD` and the length flags). -/
structure Flags where
  alt : Bool := false
  ladjust : Bool := false
  zeropad : Bool := false
  longDbl : Bool := false
  longInt : Bool := false
  llongInt : Bool := false
  shortInt : Bool := false
  charInt : Bool := false
  maxInt : Bool := false
  ptrInt : Bool := false
  sizeInt : Bool := false
  deriving DecidableEq, Repr

/-- `BIN`, `OCT`, `DEC`, `HEX`. -/
inductive Base where
  | bin | oct | dec | hex
  deriving DecidableEq, Repr

def Base.radix : Base → ℕ
  | .bin => 2
  | .oct => 8
  | .dec => 10
  | .hex => 16

/-- A `w`-bit slot read as a signed number. -/
def toSigned (w : ℕ) (v : ℤ) : ℤ :=
  if 2 ^ (w - 1) ≤ v % 2 ^ w then v % 2 ^ w - 2 ^ w else v % 2 ^ w

/-- A `w`-bit slot read as an unsigned number. -/
def toUnsigned (w : ℕ) (v : ℤ) : ℕ := (v % 2 ^ w).toNat

section TwosComplement

variable {w : ℕ}

theorem two_pow_eq (hw : 0 < w) : (2 : ℤ) ^ w = 2 * 2 ^ (w - 1) := by
  rw [← pow_succ', Nat.sub_add_cancel hw]

theorem toSigned_mem (hw : 0 < w) (v : ℤ) :
    -2 ^ (w - 1) ≤ toSigned w v ∧ toSigned w v < 2 ^ (w - 1) := by
  have h2 := two_pow_eq hw
  have hpos : (0 : ℤ) < 2 ^ (w - 1) := by positivity
  have hlo := Int.emod_nonneg v (by omega : (2 : ℤ) ^ w ≠ 0)
  have hhi := Int.emod_lt_of_pos v (by omega : (0 : ℤ) < 2 ^ w)
  unfold toSigned
  split <;> omega

theorem toSigned_of_mem (hw : 0 < w) {s : ℤ} (hlo : -2 ^ (w - 1) ≤ s) (hhi : s < 2 ^ (w - 1)) :
    toSigned w s = s := by
  have h2 := two_pow_eq hw
  unfold toSigned
  rcases le_or_gt 0 s with hs | hs
  · rw [Int.emod_eq_of_lt hs (by omega), if_neg (by omega)]
  · have hmod : s % 2 ^ w = s + 2 ^ w := by
      rw [← Int.add_emod_right, Int.emod_eq_of_lt (by omega) (by omega)]
    rw [hmod, if_pos (by omega)]
    omega

theorem toSigned_congr {a b : ℤ} (h : a % 2 ^ w = b % 2 ^ w) : toSigned w a = toSigned w b := by
  simp only [toSigned, h]

theorem toUnsigned_congr {a b : ℤ} (h : a % 2 ^ w = b % 2 ^ w) :
    toUnsigned w a = toUnsigned w b := by
  simp only [toUnsigned, h]

theorem toSigned_emod (v : ℤ) : toSigned w v % 2 ^ w = v % 2 ^ w := by
  unfold toSigned
  split
  · rw [Int.sub_emod_right, Int.emod_emod]
  · rw [Int.emod_emod]

theorem emod_toSigned_of_le {k : ℕ} (hk : k ≤ w) (v : ℤ) :
    toSigned w v % 2 ^ k = v % 2 ^ k := by
  have hdvd : (2 : ℤ) ^ k ∣ 2 ^ w := pow_dvd_pow 2 hk
  rw [← Int.emod_emod_of_dvd (toSigned w v) hdvd, toSigned_emod, Int.emod_emod_of_dvd v hdvd]

end TwosComplement

/-- `SARG()` on LP64: the argument as `intmax_t`, through the type the length flags select. -/
def sarg (flags : Flags) (v : ℤ) : ℤ :=
  if flags.maxInt then toSigned 64 v
  else if flags.llongInt then toSigned 64 v
  else if flags.longInt then toSigned 64 v
  else if flags.ptrInt then toSigned 64 v
  else if flags.sizeInt then toSigned 64 v
  else if flags.shortInt then toSigned 16 (toSigned 32 v)
  else if flags.charInt then toSigned 8 (toSigned 32 v)
  else toSigned 32 v

/-- `UARG()` on LP64: the argument as `uintmax_t`, through the type the length flags select. -/
def uarg (flags : Flags) (v : ℤ) : ℕ :=
  if flags.maxInt then toUnsigned 64 v
  else if flags.llongInt then toUnsigned 64 v
  else if flags.longInt then toUnsigned 64 v
  else if flags.ptrInt then toUnsigned 64 v
  else if flags.sizeInt then toUnsigned 64 v
  else if flags.shortInt then toUnsigned 16 (toSigned 32 v)
  else if flags.charInt then toUnsigned 8 (toSigned 32 v)
  else toUnsigned 32 v

/-- `helpers::w_to_flag` on LP64: `none` where it calls `__fortify_fatal`. -/
def wToFlag (flags : Flags) (size : ℕ) (fast : Bool) : Option Flags :=
  if size = 8 then some { flags with charInt := true }
  else if size = 16 then some (if fast then { flags with llongInt := true }
    else { flags with shortInt := true })
  else if size = 32 then some (if fast then { flags with llongInt := true } else flags)
  else if size = 64 then some { flags with llongInt := true }
  else none

/-- The digits of `_umax`, most significant first: the `do`/`while` loops of `BIN`, `OCT` and `HEX`
and the loop of `DEC` write `Nat.toDigits`; `xdigs_upper` for `X`. `#` puts a `0` before an octal
number whose first digit is not `0`. A zero value with precision 0 has no digits. -/
def numberDigits (base : Base) (upper alt : Bool) (umax : ℕ) (prec : ℤ) : List Char :=
  if umax ≠ 0 ∨ prec ≠ 0 then
    let ds := (Nat.toDigits base.radix umax).map fun c ↦ if upper then c.toUpper else c
    if base = .oct ∧ alt ∧ ds.head? ≠ some '0' then '0' :: ds else ds
  else []

/-- `PAD(howmany, with)`. -/
def pad (howmany : ℤ) (c : Char) : List Char := List.replicate howmany.toNat c

/-- The tail of a conversion: `realsz`, the padding, the sign, the `0x` prefix, the precision's
zeros and the string; the characters and the width counted into `ret`. -/
def convField (flags : Flags) (width dprec : ℤ) (sign : Char) (ox : Option Char)
    (body : List Char) : List Char × ℤ :=
  let size : ℤ := body.length
  let realsz := max dprec size + (if sign ≠ '\x00' then 1 else 0) + (if ox.isSome then 2 else 0)
  let out :=
    (if ¬ flags.ladjust ∧ ¬ flags.zeropad then pad (width - realsz) ' ' else []) ++
    (if sign ≠ '\x00' then [sign] else []) ++
    (match ox with
      | some x => ['0', x]
      | none => []) ++
    (if ¬ flags.ladjust ∧ flags.zeropad then pad (width - realsz) '0' else []) ++
    pad (dprec - size) '0' ++ body ++
    (if flags.ladjust then pad (width - realsz) ' ' else [])
  (out, max width realsz)

/-- The characters of `convField` in the order C describes them: the sign and the prefix, the
digits with the precision's zeros, and the padding on the side the flags select. -/
theorem convField_fst (flags : Flags) (width dprec : ℤ) (sign : Char) (ox : Option Char)
    (body : List Char) :
    (convField flags width dprec sign ox body).1 =
      let pre := (if sign ≠ '\x00' then [sign] else []) ++ ox.elim [] fun x ↦ ['0', x]
      let digits := pad (dprec - body.length) '0' ++ body
      let fill := (width - (pre.length + digits.length : ℕ)).toNat
      if flags.ladjust then pre ++ digits ++ List.replicate fill ' '
      else if flags.zeropad then pre ++ List.replicate fill '0' ++ digits
      else List.replicate fill ' ' ++ pre ++ digits := by
  -- `realsz` counts the sign, the prefix and `max dprec size`
  have hreal : max dprec body.length + (if sign ≠ '\x00' then 1 else 0) +
      (if ox.isSome then 2 else 0) =
      (((if sign ≠ '\x00' then [sign] else []) ++ ox.elim [] fun x ↦ ['0', x]).length +
        (pad (dprec - body.length) '0' ++ body).length : ℕ) := by
    have hdigits : ((pad (dprec - body.length) '0' ++ body).length : ℤ) =
        max dprec body.length := by
      simp only [pad, List.length_append, List.length_replicate, Nat.cast_add]
      omega
    rw [Nat.cast_add, hdigits]
    cases ox <;> by_cases hs : sign = '\x00' <;> simp [hs] <;> omega
  unfold convField
  dsimp only
  rw [hreal]
  cases ox <;> cases flags.ladjust <;> cases flags.zeropad <;>
    simp only [pad, List.append_assoc, List.nil_append, List.append_nil, Bool.false_eq_true,
      not_false_eq_true, not_true_eq_false, and_self, and_true, and_false, if_true, if_false,
      Option.elim_none, Option.elim_some]

theorem length_convField (flags : Flags) (width dprec : ℤ) (sign : Char) (ox : Option Char)
    (body : List Char) :
    ((convField flags width dprec sign ox body).1.length : ℤ) =
      (convField flags width dprec sign ox body).2 := by
  -- the precision's zeros and the digits take `max dprec size` places
  have hdigits : ((pad (dprec - body.length) '0').length : ℤ) + body.length =
      max dprec body.length := by
    simp only [pad, List.length_replicate]
    omega
  unfold convField
  -- one of the three paddings fills what `realsz` leaves of the width
  cases ox <;> by_cases hs : sign = '\x00' <;> cases hl : flags.ladjust <;>
    cases hz : flags.zeropad <;>
    simp only [hs, pad, ne_eq, not_true_eq_false, not_false_eq_true, if_true, if_false,
      List.length_append, List.length_replicate, List.length_cons, List.length_nil,
      Option.isSome_none, Option.isSome_some, Bool.false_eq_true, and_true, and_false, true_and,
      false_and, and_self, Nat.cast_add, List.nil_append, List.append_nil] at hdigits ⊢ <;>
    omega

/-- What a call of `__vfprintf` ends with. -/
inductive Outcome where
  /-- It returns `ret`, having written `out`. -/
  | done (out : List Char) (ret : ℕ)
  /-- `goto overflow`: a number in the format above `INT_MAX`, a `*` width of `INT_MIN`, or a
  total above `INT_MAX`; it returns `-1`. -/
  | overflow
  /-- An `n$` form: the argument table of `__find_arguments`, modelled in `PrintfArgs`. -/
  | positional
  /-- A conversion other than the integer ones. -/
  | unsupported
  /-- `%w` with a size `w_to_flag` does not know: `__fortify_fatal`. -/
  | fatal
  deriving DecidableEq, Repr

/-- A call that returns has counted what it wrote. -/
def Outcome.Counted : Outcome → Prop
  | .done out ret => out.length = ret
  | _ => True

/-- The state the scan carries: what was written, `ret`, and the next argument. -/
structure PrintState where
  out : List Char
  ret : ℕ
  nextarg : ℕ
  deriving DecidableEq, Repr

/-- The variables of one conversion. -/
structure Conv where
  flags : Flags := {}
  width : ℤ := 0
  prec : ℤ := -1
  sign : Char := '\x00'
  deriving DecidableEq, Repr

/-- Where the scan is: in the text between conversions, or inside one at `reswitch`. -/
inductive Phase where
  | text
  | spec (conv : Conv)

def Phase.rank : Phase → ℕ
  | .text => 0
  | .spec _ => 1

/-- What an integer conversion character selects: the base, whether the value is signed, the letter
`#` puts after a `0` for a nonzero value, upper case digits, and whether it sets `LONGINT` first
(`D`, `O`, `U`). -/
structure IntConv where
  base : Base
  signed : Bool
  oxLetter : Option Char
  upper : Bool
  long : Bool
  deriving DecidableEq, Repr

/-- The integer conversion characters. -/
def intConv : Char → Option IntConv
  | 'B' => some ⟨.bin, false, some 'B', false, false⟩
  | 'b' => some ⟨.bin, false, some 'b', false, false⟩
  | 'D' => some ⟨.dec, true, none, false, true⟩
  | 'd' | 'i' => some ⟨.dec, true, none, false, false⟩
  | 'O' => some ⟨.oct, false, none, false, true⟩
  | 'o' => some ⟨.oct, false, none, false, false⟩
  | 'U' => some ⟨.dec, false, none, false, true⟩
  | 'u' => some ⟨.dec, false, none, false, false⟩
  | 'X' => some ⟨.hex, false, some 'X', true, false⟩
  | 'x' => some ⟨.hex, false, some 'x', false, false⟩
  | _ => none

/-- The characters that end a conversion the model leaves out. -/
def otherConv (ch : Char) : Bool :=
  ch == 'c' || ch == 'C' || ch == 's' || ch == 'S' || ch == 'p' || ch == 'n' || ch == 'm' ||
  ch == 'a' || ch == 'A' || ch == 'e' || ch == 'E' || ch == 'f' || ch == 'F' || ch == 'g' ||
  ch == 'G'

/-- `_umax` and the sign of an integer conversion: `SARG()` with the `-` of a negative value, or
`UARG()` with no sign (`nosign`). -/
def convValue (flags : Flags) (signed : Bool) (sign : Char) (v : ℤ) : ℕ × Char :=
  if signed then
    let umax := toUnsigned 64 (sarg flags v)
    if toSigned 64 umax < 0 then ((2 ^ 64 - umax) % 2 ^ 64, '-') else (umax, sign)
  else (uarg flags v, '\x00')

/-- One integer conversion: `number`, then the common tail and `ret += width`. -/
def intField (conv : Conv) (ic : IntConv) (v : ℤ) : List Char × ℤ :=
  let (umax, sign) := convValue conv.flags ic.signed conv.sign v
  let ox := if conv.flags.alt ∧ umax ≠ 0 then ic.oxLetter else none
  -- a precision turns `0` off
  let flags := if 0 ≤ conv.prec then { conv.flags with zeropad := false } else conv.flags
  convField flags conv.width conv.prec sign ox
    (numberDigits ic.base ic.upper conv.flags.alt umax conv.prec)

/-- A character of the text between conversions: neither the NUL nor `%`. -/
def textChar (c : Char) : Bool := c ≠ '\x00' ∧ c ≠ '%'

section Loop

variable (args : ℕ → ℤ)

/-- Add a conversion's characters, or `goto overflow` when `ret` would pass `INT_MAX`. -/
def emit (field : List Char × ℤ) (st : PrintState) : Option PrintState :=
  if (intMax : ℤ) - st.ret < field.2 then none
  else some { st with out := st.out ++ field.1, ret := st.ret + field.2.toNat }

/-- The scan of `__vfprintf` for sequential arguments. -/
def vfprintfLoop : Phase → List Char → PrintState → Outcome
  | .text, fmt, st =>
    let run := fmt.takeWhile textChar
    match _h : fmt.dropWhile textChar with
    | '%' :: rest =>
      if (intMax : ℤ) - st.ret < run.length then .overflow
      else vfprintfLoop (.spec {}) rest
        { st with out := st.out ++ run, ret := st.ret + run.length }
    | _ =>
      if (intMax : ℤ) - st.ret < run.length then .overflow
      else .done (st.out ++ run) (st.ret + run.length)
  -- `ch = *fmt++` read the terminating NUL
  | .spec _, [], st => .done st.out st.ret
  | .spec conv, ch :: fmt, st =>
    match ch with
    | ' ' => vfprintfLoop (.spec (if conv.sign = '\x00' then { conv with sign := ' ' } else conv))
      fmt st
    | '#' => vfprintfLoop (.spec { conv with flags := { conv.flags with alt := true } }) fmt st
    | '\'' => vfprintfLoop (.spec conv) fmt st
    | '*' =>
      -- `GETASTER(width)`: the digits after `*` are read, and `*n$` is positional
      match readNumber (fmt.takeWhile Char.isDigit) with
      | .error _ => .overflow
      | .ok _ =>
        if (fmt.dropWhile Char.isDigit).head? = some '$' then .positional
        else
          let width := toSigned 32 (args st.nextarg)
          let st := { st with nextarg := st.nextarg + 1 }
          if 0 ≤ width then vfprintfLoop (.spec { conv with width := width }) fmt st
          else if width = -2 ^ 31 then .overflow
          -- a negative width is `-` with its absolute value
          else vfprintfLoop (.spec { conv with
            width := -width
            flags := { conv.flags with ladjust := true } }) fmt st
    | '-' => vfprintfLoop (.spec { conv with flags := { conv.flags with ladjust := true } }) fmt st
    | '+' => vfprintfLoop (.spec { conv with sign := '+' }) fmt st
    | '.' =>
      match _h : fmt with
      | '*' :: fmt' =>
        match readNumber (fmt'.takeWhile Char.isDigit) with
        | .error _ => .overflow
        | .ok _ =>
          if (fmt'.dropWhile Char.isDigit).head? = some '$' then .positional
          else
            let n := toSigned 32 (args st.nextarg)
            vfprintfLoop (.spec { conv with prec := if n < 0 then -1 else n }) fmt'
              { st with nextarg := st.nextarg + 1 }
      | _ =>
        match readNumber (fmt.takeWhile Char.isDigit) with
        | .error _ => .overflow
        | .ok n =>
          if (fmt.dropWhile Char.isDigit).head? = some '$' then .positional
          else vfprintfLoop (.spec { conv with prec := n }) (fmt.dropWhile Char.isDigit) st
    | '0' => vfprintfLoop (.spec { conv with flags := { conv.flags with zeropad := true } }) fmt st
    | 'L' => vfprintfLoop (.spec { conv with flags := { conv.flags with longDbl := true } }) fmt st
    | 'h' =>
      match _h : fmt with
      | 'h' :: fmt' =>
        vfprintfLoop (.spec { conv with flags := { conv.flags with charInt := true } }) fmt' st
      | _ => vfprintfLoop (.spec { conv with flags := { conv.flags with shortInt := true } }) fmt st
    | 'j' => vfprintfLoop (.spec { conv with flags := { conv.flags with maxInt := true } }) fmt st
    | 'l' =>
      match _h : fmt with
      | 'l' :: fmt' =>
        vfprintfLoop (.spec { conv with flags := { conv.flags with llongInt := true } }) fmt' st
      | _ => vfprintfLoop (.spec { conv with flags := { conv.flags with longInt := true } }) fmt st
    | 'q' => vfprintfLoop (.spec { conv with flags := { conv.flags with llongInt := true } }) fmt st
    | 't' => vfprintfLoop (.spec { conv with flags := { conv.flags with ptrInt := true } }) fmt st
    | 'z' => vfprintfLoop (.spec { conv with flags := { conv.flags with sizeInt := true } }) fmt st
    | 'w' =>
      let fast := fmt.head? = some 'f'
      let fmt1 := if fast then fmt.tail else fmt
      match readNumber (fmt1.takeWhile Char.isDigit) with
      | .error _ => .overflow
      | .ok n =>
        match wToFlag conv.flags n fast with
        | none => .fatal
        | some flags => vfprintfLoop (.spec { conv with flags := flags })
            (fmt1.dropWhile Char.isDigit) st
    | '\x00' => .done st.out st.ret
    | _ =>
      if '1' ≤ ch ∧ ch ≤ '9' then
        -- a width, or `n$`
        match readNumber (ch :: fmt.takeWhile Char.isDigit) with
        | .error _ => .overflow
        | .ok n =>
          if (fmt.dropWhile Char.isDigit).head? = some '$' then .positional
          else vfprintfLoop (.spec { conv with width := n }) (fmt.dropWhile Char.isDigit) st
      else
        match intConv ch with
        | some ic =>
          let conv := if ic.long then { conv with flags := { conv.flags with longInt := true } }
            else conv
          match emit (intField conv ic (args st.nextarg)) { st with nextarg := st.nextarg + 1 } with
          | none => .overflow
          | some st => vfprintfLoop .text fmt st
        | none =>
          if otherConv ch then .unsupported
          -- `"%?"` prints `?`, padded like a one-character string
          else
            match emit (convField conv.flags conv.width 0 '\x00' none [ch]) st with
            | none => .overflow
            | some st => vfprintfLoop .text fmt st
termination_by phase fmt => 2 * fmt.length + phase.rank
decreasing_by
  all_goals simp only [Phase.rank, List.length_cons]
  all_goals grind [List.length_dropWhile_le, List.length_tail]

/-- `vfprintf(fmt, args)` for sequential arguments. -/
def vfprintf (fmt : List Char) : Outcome :=
  vfprintfLoop args .text fmt { out := [], ret := 0, nextarg := 0 }

example : vfprintf (fun _ ↦ 0) ['a'] = .done ['a'] 1 := by
  simp [vfprintf, vfprintfLoop, textChar, intMax]

theorem vfprintfLoop_text (fmt : List Char) (st : PrintState) :
    vfprintfLoop args .text fmt st =
      if (intMax : ℤ) - st.ret < (fmt.takeWhile textChar).length then .overflow
      else
        match fmt.dropWhile textChar with
        | '%' :: rest => vfprintfLoop args (.spec {}) rest
            { st with
              out := st.out ++ fmt.takeWhile textChar
              ret := st.ret + (fmt.takeWhile textChar).length }
        | _ => .done (st.out ++ fmt.takeWhile textChar)
            (st.ret + (fmt.takeWhile textChar).length) := by
  rw [vfprintfLoop]
  split
  · next rest h => simp only [h]
  · next h =>
    congr 1
    split
    · next rest h' => exact absurd h' (h rest)
    · rfl

theorem vfprintfLoop_width {conv : Conv} {ch : Char} {fmt : List Char} {n : ℕ}
    (hdigit : '1' ≤ ch ∧ ch ≤ '9') (hread : readNumber (ch :: fmt.takeWhile Char.isDigit) = .ok n)
    (hdollar : ¬(fmt.dropWhile Char.isDigit).head? = some '$') (st : PrintState) :
    vfprintfLoop args (.spec conv) (ch :: fmt) st =
      vfprintfLoop args (.spec { conv with width := n }) (fmt.dropWhile Char.isDigit) st := by
  rw [vfprintfLoop.eq_23]
  · rw [if_pos hdigit, hread]
    dsimp only
    rw [if_neg hdollar]
  -- the characters with a case of their own are not digits
  all_goals
    rintro rfl
    exact absurd hdigit (by decide)

theorem emit_counted {field : List Char × ℤ} {st st' : PrintState}
    (hfield : (field.1.length : ℤ) = field.2) (h : emit field st = some st')
    (hst : st.out.length = st.ret) : st'.out.length = st'.ret := by
  unfold emit at h
  split at h
  · cases h
  · cases h
    simp only [List.length_append, hst]
    omega

theorem length_intField (conv : Conv) (ic : IntConv) (v : ℤ) :
    ((intField conv ic v).1.length : ℤ) = (intField conv ic v).2 :=
  length_convField _ _ _ _ _ _

theorem counted_vfprintfLoop (phase : Phase) (fmt : List Char) (st : PrintState)
    (hst : st.out.length = st.ret) : (vfprintfLoop args phase fmt st).Counted := by
  fun_induction vfprintfLoop args phase fmt st
  -- an end other than `done`, a `done` with the state as it is, a step of the conversion that
  -- keeps `out` and `ret`, and the text before the next `%` or the end
  all_goals first
    | trivial
    | exact hst
    | (apply_assumption; exact hst)
    | (apply_assumption; simp only [List.length_append, hst])
    | (simp only [Outcome.Counted, List.length_append, hst]; done)
    | skip
  -- `.` with a number, and a width: the branch is the one the number read selects
  case case19 =>
    rw [‹readNumber _ = .error _›]
    trivial
  case case20 =>
    rw [‹readNumber _ = .ok _›]
    dsimp only
    rw [if_pos ‹_ = some '$'›]
    trivial
  case case21 =>
    rename_i ih
    rw [‹readNumber _ = .ok _›]
    dsimp only
    rw [if_neg ‹¬ _ = some '$'›]
    exact ih hst
  case case36 =>
    rw [if_pos ‹_ ∧ _›, ‹readNumber _ = .error _›]
    trivial
  case case37 =>
    rw [if_pos ‹_ ∧ _›, ‹readNumber _ = .ok _›]
    dsimp only
    rw [if_pos ‹_ = some '$'›]
    trivial
  case case38 =>
    rename_i ih
    rw [if_pos ‹_ ∧ _›, ‹readNumber _ = .ok _›]
    dsimp only
    rw [if_neg ‹¬ _ = some '$'›]
    exact ih hst
  -- a conversion: `emit` adds as many characters to `out` as to `ret`
  case case39 =>
    rw [if_neg ‹¬ (_ ∧ _)›, ‹intConv _ = some _›]
    dsimp only
    rw [‹emit _ _ = none›]
    trivial
  case case40 =>
    rename_i ih
    rw [if_neg ‹¬ (_ ∧ _)›, ‹intConv _ = some _›]
    dsimp only
    rw [‹emit _ _ = some _›]
    exact ih (emit_counted (length_intField _ _ _) ‹_› (by exact hst))
  case case41 =>
    rw [if_neg ‹¬ (_ ∧ _)›, ‹intConv _ = none›, if_pos ‹otherConv _ = true›]
    trivial
  case case42 =>
    rw [if_neg ‹¬ (_ ∧ _)›, ‹intConv _ = none›, if_neg ‹¬ otherConv _ = true›, ‹emit _ _ = none›]
    trivial
  case case43 =>
    rename_i ih
    rw [if_neg ‹¬ (_ ∧ _)›, ‹intConv _ = none›, if_neg ‹¬ otherConv _ = true›,
      ‹emit _ _ = some _›]
    exact ih (emit_counted (length_convField _ _ _ _ _ _) ‹_› hst)

/-- A call that returns `ret` has written exactly `ret` characters. -/
theorem vfprintf_ret {fmt out : List Char} {ret : ℕ} (h : vfprintf args fmt = .done out ret) :
    out.length = ret := by
  have hcounted := counted_vfprintfLoop args .text fmt { out := [], ret := 0, nextarg := 0 } rfl
  rw [← vfprintf, h] at hcounted
  exact hcounted

theorem vfprintf_ret_plus :
    vfprintf (fun _ ↦ 7) ['%', '+', 'd'] = .done ['+', '7'] 2 ∧ ['+', '7'].length = 2 := by
  have h : vfprintf (fun _ ↦ 7) ['%', '+', 'd'] = .done ['+', '7'] 2 := by
    have hdigits : Nat.toDigits 10 7 = ['7'] := rfl
    simp [vfprintf, vfprintfLoop_text, textChar, vfprintfLoop, intConv, intField, convValue, sarg,
      toSigned, toUnsigned, emit, convField, numberDigits, pad, PrintfArgs.intMax, Base.radix,
      hdigits]
  exact ⟨h, vfprintf_ret _ h⟩

end Loop

end Bionic.Stdio.PrintfInt
