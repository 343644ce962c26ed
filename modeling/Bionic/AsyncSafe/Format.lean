import Bionic.Stdio.PrintfInt
import Mathlib.Data.Nat.Digits.Defs

/-!
# `async_safe_format_buffer`

The formatter of `async_safe_log.cpp` (`out_vformat`) is a template over its output stream: it
scans the format, sends the text between conversions, and for each conversion formats into a
64-byte scratch buffer and sends that string padded to the width. `async_safe_format_buffer` runs
it on a `BufferOutputStream`, which counts every byte sent and stores what fits before the last
byte of the caller's buffer, then a NUL.

The loop is written once over any `send` (`outVformat`). Sending to a `BufferOutputStream` is an
action of the text on the stream (`BufferOutputStream.send_append`), so the buffer receives the
first `size - 1` bytes of the text `out_vformat` produces and the call returns its length
(`asyncSafeFormatBuffer_eq`).

The text itself is not what `snprintf` writes. `o` is in the source's list of signed conversions,
so an `int` argument of -1 comes out as `-1`, where `vfprintf` writes `37777777777`
(`formatText_octal_of_neg`).

Arguments are a `va_list` (`Arg`): an integer, given by its value and read at the width the length
modifier selects; a string (`none` for `nullptr`); or a pointer. `long`, `size_t` and `ptrdiff_t`
are 8 bytes (LP64). `%m` reads `errno` and `strerror` and is left out.
-/

set_option autoImplicit false
set_option relaxedAutoImplicit false

namespace Bionic.AsyncSafe.Format

open Bionic.Stdio.PrintfInt (toSigned toUnsigned vfprintf)

/-! ## Output streams -/

/-- `BufferOutputStream`: `total` counts every byte sent, `written` holds the bytes stored from the
start of the buffer (a NUL follows them), and `avail` is the room left, that NUL included. -/
structure BufferOutputStream where
  total : ℕ
  written : List Char
  avail : ℕ
  deriving DecidableEq, Repr

/-- `BufferOutputStream(buffer, size)`. -/
def BufferOutputStream.new (size : ℕ) : BufferOutputStream := ⟨0, [], size⟩

/-- `Send(data, len)`: count the bytes, and store those that fit before the buffer's last byte. -/
def BufferOutputStream.send (o : BufferOutputStream) (data : List Char) : BufferOutputStream :=
  let total := o.total + data.length
  if o.avail ≤ 1 then { o with total }
  else
    let len := if o.avail ≤ data.length then o.avail - 1 else data.length
    ⟨total, o.written ++ data.take len, o.avail - len⟩

/-! ## Parsing a conversion -/

/-- `c = format[nn++]` on the rest of the format: its first character, or the NUL at its end. -/
def nextChar : List Char → Char × List Char
  | [] => ('\x00', [])
  | c :: rest => (c, rest)

/-- `parse_decimal`: the digits at the start read into an `unsigned`, and what follows them. -/
def parseDecimal (s : List Char) : ℕ × List Char :=
  ((s.takeWhile Char.isDigit).foldl (fun r ch ↦ (r * 10 + (ch.toNat - 48)) % 2 ^ 32) 0,
    s.dropWhile Char.isDigit)

/-- The variables of one conversion. -/
structure Spec where
  padZero : Bool := false
  padLeft : Bool := false
  sign : Char := '\x00'
  alternate : Bool := false
  width : ℤ := -1
  prec : ℤ := -1
  bytelen : ℕ := 4
  deriving DecidableEq, Repr

/-- The flag loop after `%`: the flags, the first other character and what follows it, or `none`
when the format ends there (a single trailing `%`). -/
def parseFlags (sp : Spec) : List Char → Option (Spec × Char × List Char)
  | [] => none
  | c :: rest =>
    if c = '\x00' then none
    else if c = '0' then parseFlags { sp with padZero := true } rest
    else if c = '-' then parseFlags { sp with padLeft := true } rest
    else if c = ' ' ∨ c = '+' then parseFlags { sp with sign := c } rest
    else if c = '#' then parseFlags { sp with alternate := true } rest
    else some (sp, c, rest)

/-- The field width, when `c` is a digit. -/
def parseWidth : Spec × Char × List Char → Spec × Char × List Char
  | (sp, c, rest) =>
    if '0' ≤ c ∧ c ≤ '9' then
      let (width, rest) := parseDecimal (c :: rest)
      ({ sp with width := toSigned 32 width }, nextChar rest)
    else (sp, c, rest)

/-- The precision, when `c` is `.`. -/
def parsePrec : Spec × Char × List Char → Spec × Char × List Char
  | (sp, c, rest) =>
    if c = '.' then
      let (prec, rest) := parseDecimal rest
      ({ sp with prec := toSigned 32 prec }, nextChar rest)
    else (sp, c, rest)

/-- The length modifier: `bytelen` for `hh`, `h`, `l`, `ll`, `z` and `t`. -/
def parseLength : Spec × Char × List Char → Spec × Char × List Char
  | (sp, 'h', 'h' :: rest) => ({ sp with bytelen := 1 }, nextChar rest)
  | (sp, 'h', rest) => ({ sp with bytelen := 2 }, nextChar rest)
  | (sp, 'l', 'l' :: rest) => ({ sp with bytelen := 8 }, nextChar rest)
  | (sp, 'l', rest) => ({ sp with bytelen := 8 }, nextChar rest)
  | (sp, 'z', rest) => ({ sp with bytelen := 8 }, nextChar rest)
  | (sp, 't', rest) => ({ sp with bytelen := 8 }, nextChar rest)
  | x => x

/-- The variables of a conversion after `%`, its conversion character and the format after it. -/
def parseSpec (fmt : List Char) : Option (Spec × Char × List Char) :=
  (parseFlags {} fmt).map fun x ↦ parseLength (parsePrec (parseWidth x))

/-! ## Formatting numbers -/

/-- The character of a digit: `'0' + d`, or a letter from `a` (`A` with `caps`). -/
def digitChar (caps : Bool) (d : ℕ) : Char :=
  if d < 10 then Char.ofNat (48 + d) else Char.ofNat ((if caps then 65 else 97) + (d - 10))

/-- `format_unsigned(buf, buf_size, value, base, caps)`: the digits from the least significant on,
as many as fit before the buffer's last byte, a `0` for zero when there is room, read back most
significant first. -/
def formatUnsigned (bufSize value base : ℕ) (caps : Bool) : List Char :=
  let ds := ((Nat.digits base value).take (bufSize - 1)).map (digitChar caps)
  -- `if (p == buf) { if (p != end) *p++ = '0'; }`
  let ds := if ds = [] ∧ 1 < bufSize then ['0'] else ds
  ds.reverse

/-- `format_integer(buf, buf_size, value, conversion)`: `d`, `i` and `o` are signed; a negative
value is `-` and the digits of its absolute value. -/
def formatInteger (bufSize value : ℕ) (conversion : Char) : List Char :=
  let isSigned := conversion = 'd' ∨ conversion = 'i' ∨ conversion = 'o'
  let base :=
    if conversion.toLower = 'x' then 16
    else if conversion = 'o' then 8
    else if conversion.toLower = 'b' then 2
    else 10
  let caps := conversion = 'X'
  if isSigned ∧ 2 ^ 63 ≤ value then
    '-' :: formatUnsigned (bufSize - 1) ((2 ^ 64 - value) % 2 ^ 64) base caps
  else formatUnsigned bufSize value base caps

/-! ## The conversions -/

/-- An argument of the `va_list`. -/
inductive Arg where
  /-- An integer, by its value. -/
  | int (v : ℤ)
  /-- A `const char*`: the characters before its NUL, or `none` for `nullptr`. -/
  | str (s : Option (List Char))
  /-- A `void*`. -/
  | ptr (p : ℕ)
  deriving DecidableEq, Repr

/-- How a call of `out_vformat` ends, short of its normal end. -/
inductive Stop where
  /-- `__assert`: an unsupported conversion, or a sign flag or precision. -/
  | abort
  /-- The `va_list` has no argument of the type the conversion reads (undefined behaviour). -/
  | badArg
  /-- `return` from the `switch (bytelen)`. -/
  | early
  /-- `%m`, not modelled. -/
  | unmodelled
  deriving DecidableEq, Repr

/-- The value read for a length: `int` cut to `uint8_t` or `uint16_t`, or `uint32_t`,
`uint64_t`. -/
def readValue (bytelen : ℕ) (v : ℤ) : ℕ := (v % 2 ^ (8 * bytelen)).toNat

/-- The sign extension of a `bytelen`-byte value to 64 bits. -/
def signExtend (bytelen value : ℕ) : ℕ := (toSigned (8 * bytelen) value % 2 ^ 64).toNat

/-- An integer conversion: `b`, `B`, `d`, `i`, `o`, `u`, `x`, `X`. -/
def isIntConv (c : Char) : Bool :=
  c.toLower = 'b' || c = 'd' || c = 'i' || c = 'o' || c = 'u' || c.toLower = 'x'

/-- An integer conversion of `value`, with the `0x`, `0b` or `0` of `#` for a nonzero value. -/
def intString (sp : Spec) (c : Char) (value : ℕ) : List Char :=
  if sp.alternate ∧ value ≠ 0 ∧ (c.toLower = 'x' ∨ c = 'o' ∨ c.toLower = 'b') then
    if c.toLower = 'x' ∨ c.toLower = 'b' then '0' :: c :: formatInteger 62 value c
    else '0' :: formatInteger 63 value c
  else formatInteger 64 value c

/-- The string a conversion formats into `str`, and the rest of the `va_list`. -/
def convert (sp : Spec) (c : Char) (args : List Arg) : Except Stop (List Char × List Arg) :=
  if c = 's' then
    match args with
    | .str s :: args => .ok (s.getD "(null)".toList, args)
    | _ => .error .badArg
  else if c = 'c' then
    match args with
    -- `buffer[0] = (char)va_arg(args, int)`; a NUL character is an empty string
    | .int v :: args =>
      let ch := (v % 256).toNat
      .ok (if ch = 0 then [] else [Char.ofNat ch], args)
    | _ => .error .badArg
  else if c = 'p' then
    match args with
    | .ptr p :: args => .ok ('0' :: 'x' :: formatInteger 62 (p % 2 ^ 64) 'x', args)
    | _ => .error .badArg
  else if c = 'm' then .error .unmodelled
  else if isIntConv c then
    match args with
    | .int v :: args =>
      if sp.bytelen ∈ [1, 2, 4, 8] then
        let value := readValue sp.bytelen v
        let isSigned := c = 'd' ∨ c = 'i' ∨ c = 'o'
        let value := if isSigned then signExtend sp.bytelen value else value
        .ok (intString sp c value, args)
      else .error .early
    | _ => .error .badArg
  else if c = '%' then .ok (['%'], args)
  else .error .abort

/-! ## The loop -/

/-- How `out_vformat` ends: it returns with its stream, or stops. -/
inductive Outcome (σ : Type) where
  | done (o : σ)
  | stop (e : Stop)
  deriving DecidableEq, Repr

def Outcome.map {σ τ : Type} (f : σ → τ) : Outcome σ → Outcome τ
  | .done o => .done (f o)
  | .stop e => .stop e

@[simp]
theorem Outcome.map_done {σ τ : Type} (f : σ → τ) (o : σ) : (Outcome.done o).map f = .done (f o) := rfl

@[simp]
theorem Outcome.map_stop {σ τ : Type} (f : σ → τ) (e : Stop) : (Outcome.stop e : Outcome σ).map f = .stop e :=
  rfl

/-- A character of the text between conversions. -/
def textChar (c : Char) : Bool := c ≠ '\x00' ∧ c ≠ '%'

theorem length_nextChar_le (s : List Char) : (nextChar s).2.length ≤ s.length := by
  cases s <;> simp [nextChar]

theorem length_parseFlags_lt {sp sp' : Spec} {c : Char} {rest : List Char} :
    ∀ {s : List Char}, parseFlags sp s = some (sp', c, rest) → rest.length < s.length := by
  intro s
  induction s generalizing sp with
  | nil => simp [parseFlags]
  | cons d s ih =>
    intro h
    simp only [parseFlags] at h
    split_ifs at h
    all_goals first
      | (have hlt := ih h; simp only [List.length_cons]; omega)
      | (simp only [Option.some.injEq, Prod.mk.injEq] at h; obtain ⟨-, -, rfl⟩ := h; simp)

theorem length_parseWidth_le (x : Spec × Char × List Char) :
    (parseWidth x).2.2.length ≤ x.2.2.length := by
  obtain ⟨sp, c, rest⟩ := x
  simp only [parseWidth]
  split_ifs with hc
  · -- the width's first digit is `c` itself
    have hdigit : Char.isDigit c = true := by
      simp only [Char.isDigit, Bool.and_eq_true, decide_eq_true_eq]
      exact hc
    have := length_nextChar_le (List.dropWhile Char.isDigit rest)
    simpa [parseDecimal, List.dropWhile_cons, hdigit] using this.trans (List.length_dropWhile_le _ _)
  · exact le_rfl

theorem length_parsePrec_le (x : Spec × Char × List Char) :
    (parsePrec x).2.2.length ≤ x.2.2.length := by
  obtain ⟨sp, c, rest⟩ := x
  simp only [parsePrec]
  split_ifs
  · exact (length_nextChar_le _).trans (List.length_dropWhile_le _ _)
  · exact le_rfl

theorem length_parseLength_le (x : Spec × Char × List Char) :
    (parseLength x).2.2.length ≤ x.2.2.length := by
  unfold parseLength
  split
  all_goals first
    | exact le_rfl
    | exact (length_nextChar_le _).trans (by simp)

theorem length_parseSpec_lt {fmt : List Char} {sp : Spec} {c : Char} {rest : List Char}
    (h : parseSpec fmt = some (sp, c, rest)) : rest.length < fmt.length := by
  obtain ⟨x, hx, hrest⟩ := Option.map_eq_some_iff.1 h
  obtain ⟨sp₀, c₀, rest₀⟩ := x
  have h₁ := length_parseFlags_lt hx
  have h₂ := length_parseWidth_le (sp₀, c₀, rest₀)
  have h₃ := length_parsePrec_le (parseWidth (sp₀, c₀, rest₀))
  have h₄ := length_parseLength_le (parsePrec (parseWidth (sp₀, c₀, rest₀)))
  rw [hrest] at h₄
  simp only at h₂ h₄
  omega

section Loop

variable {σ : Type} (send : σ → List Char → σ)

/-- `SendRepeat(o, ch, count)`: `count` copies of `ch`, sent eight at a time. -/
def sendRepeat (o : σ) (ch : Char) (count : ℕ) : σ :=
  if count = 0 then o
  else
    let avail := min count 8
    sendRepeat (send o (List.replicate avail ch)) ch (count - avail)
termination_by count

/-- The end of a conversion: the padding before `str` unless `-`, `str`, the padding after it
with `-`; `0` pads with zeros. -/
def sendField (o : σ) (sp : Spec) (str : List Char) : σ :=
  let slen : ℤ := str.length
  let padChar := if sp.padZero then '0' else ' '
  let o := if slen < sp.width ∧ ¬ sp.padLeft then sendRepeat send o padChar (sp.width - slen).toNat else o
  let o := send o str
  if slen < sp.width ∧ sp.padLeft then sendRepeat send o padChar (sp.width - slen).toNat else o

theorem sendField_of_width_le (o : σ) (sp : Spec) (str : List Char) (hw : sp.width ≤ str.length) :
    sendField send o sp str = send o str := by
  simp only [sendField]
  rw [if_neg fun h ↦ absurd h.1 (by omega), if_neg fun h ↦ absurd h.1 (by omega)]

/-- `out_vformat(o, format, args)`. -/
def outVformat (o : σ) (fmt : List Char) (args : List Arg) : Outcome σ :=
  let run := fmt.takeWhile textChar
  let o := if run ≠ [] then send o run else o
  match h : fmt.dropWhile textChar with
  | '%' :: spec =>
    match hs : parseSpec spec with
    -- a single trailing `%`
    | none => .done (send o ['%'])
    | some (sp, c, rest) =>
      match convert sp c args with
      | .error .early => .done o
      | .error e => .stop e
      | .ok (str, args) =>
        if sp.sign ≠ '\x00' ∨ sp.prec ≠ -1 then .stop .abort
        else outVformat (sendField send o sp str) rest args
  | _ => .done o
termination_by fmt.length
decreasing_by
  have hlen := List.length_dropWhile_le textChar fmt
  rw [h, List.length_cons] at hlen
  have := length_parseSpec_lt hs
  omega

theorem outVformat_of_text (o : σ) (run : List Char) (hrun : ∀ ch ∈ run, textChar ch = true)
    (args : List Arg) : outVformat send o run args = .done (if run ≠ [] then send o run else o) := by
  have htake : run.takeWhile textChar = run := List.takeWhile_eq_self_iff.2 hrun
  have hdrop : run.dropWhile textChar = [] := List.dropWhile_eq_nil_iff.2 hrun
  rw [outVformat]
  split
  · rename_i spec heq
    rw [hdrop] at heq
    cases heq
  · rw [htake]

/-- Text, then a conversion without sign or precision: the text is sent, then the field, and the
scan goes on after the conversion character with the rest of the `va_list`. -/
theorem outVformat_of_conv (o : σ) (run : List Char) {spec rest str : List Char} {args args' : List Arg} {sp : Spec}
    {c : Char} (hrun : ∀ ch ∈ run, textChar ch = true) (hspec : parseSpec spec = some (sp, c, rest))
    (hconv : convert sp c args = .ok (str, args')) (hsign : sp.sign = '\x00') (hprec : sp.prec = -1) :
    outVformat send o (run ++ '%' :: spec) args =
      outVformat send (sendField send (if run ≠ [] then send o run else o) sp str) rest args' := by
  have htake : (run ++ '%' :: spec).takeWhile textChar = run := by
    rw [List.takeWhile_append_of_pos hrun]
    simp [textChar]
  have hdrop : (run ++ '%' :: spec).dropWhile textChar = '%' :: spec := by
    rw [List.dropWhile_append_of_pos hrun]
    simp [textChar]
  rw [outVformat]
  split
  · rename_i spec' heq
    rw [hdrop] at heq
    obtain rfl : spec = spec' := (List.cons.inj heq).2
    split
    · rename_i hs
      rw [hspec] at hs
      cases hs
    · rename_i sp' c' rest' hs
      rw [hspec] at hs
      cases hs
      rw [hconv]
      dsimp only
      rw [if_neg (by simp [hsign, hprec]), htake]
  · rename_i hne
    exact absurd hdrop (hne spec)

end Loop

/-- The text `out_vformat` sends, in order. -/
def formatText (fmt : List Char) (args : List Arg) : Outcome (List Char) :=
  outVformat (fun acc s ↦ acc ++ s) [] fmt args

/-- `async_safe_format_buffer(buffer, size, format, ...)`: the `int` it returns and the bytes
written from `buffer[0]` on (the NUL after the text included, when `size > 0`). -/
def asyncSafeFormatBuffer (size : ℕ) (fmt : List Char) (args : List Arg) : Outcome (ℤ × List Char) :=
  (outVformat BufferOutputStream.send (BufferOutputStream.new size) fmt args).map fun os ↦
    (toSigned 32 os.total, if size = 0 then [] else os.written ++ ['\x00'])

example : formatText "a%5dz".toList [.int 1234] = .done "a 1234z".toList := by decide +kernel

/-! ## What the buffer receives -/

namespace BufferOutputStream

theorem send_of_avail_le (o : BufferOutputStream) (data : List Char) (h : o.avail ≤ 1) :
    o.send data = { o with total := o.total + data.length } := by
  rw [send, if_pos h]

theorem send_of_lt_avail (o : BufferOutputStream) (data : List Char) (h : 1 < o.avail) :
    o.send data = ⟨o.total + data.length, o.written ++ data.take (o.avail - 1),
      o.avail - min data.length (o.avail - 1)⟩ := by
  rw [send, if_neg (by omega)]
  split_ifs with hlen
  · rw [Nat.min_eq_right (by omega)]
  · dsimp only
    rw [List.take_of_length_le (le_refl _), List.take_of_length_le (by omega : data.length ≤ o.avail - 1),
      Nat.min_eq_left (by omega)]

@[simp]
theorem send_nil (o : BufferOutputStream) : o.send [] = o := by
  by_cases h : o.avail ≤ 1
  · simp [send_of_avail_le o [] h]
  · simp [send_of_lt_avail o [] (by omega)]

theorem send_append (o : BufferOutputStream) (a b : List Char) :
    (o.send a).send b = o.send (a ++ b) := by
  by_cases h₁ : o.avail ≤ 1
  · simp [send, h₁, Nat.add_assoc]
  rw [send_of_lt_avail o a (by omega), send_of_lt_avail o (a ++ b) (by omega)]
  by_cases h₂ : o.avail - 1 ≤ a.length
  · -- `a` fills the buffer: nothing of `b` is stored
    rw [send_of_avail_le _ _ (by simp only; omega), List.take_append_of_le_length h₂]
    simp only [List.length_append, mk.injEq, Nat.add_assoc, true_and]
    omega
  · -- all of `a` is stored, and what fits of `b` after it
    rw [send_of_lt_avail _ _ (by simp only; omega), List.take_append, List.take_of_length_le (by omega)]
    simp only [List.length_append, List.append_assoc, mk.injEq, Nat.add_assoc, true_and]
    rw [Nat.min_eq_left (by omega), show o.avail - a.length - 1 = o.avail - 1 - a.length by omega]
    constructor
    · rfl
    · omega

theorem new_send (size : ℕ) (text : List Char) :
    (new size).send text = ⟨text.length, text.take (size - 1), size - min text.length (size - 1)⟩ := by
  by_cases h : size ≤ 1
  · rw [send_of_avail_le _ _ h]
    simp [new, show size - 1 = 0 by omega]
  · rw [send_of_lt_avail _ _ (by simp only [new]; omega)]
    simp [new]

end BufferOutputStream

section Stream

variable {σ : Type} (send : σ → List Char → σ) (hnil : ∀ o, send o [] = o)
  (happ : ∀ o a b, send (send o a) b = send o (a ++ b))

include hnil happ in
theorem sendRepeat_eq (o : σ) (ch : Char) (count : ℕ) :
    sendRepeat send o ch count = send o (List.replicate count ch) := by
  induction count using Nat.strong_induction_on generalizing o with
  | _ count ih =>
    rw [sendRepeat]
    split_ifs with h
    · rw [h, List.replicate_zero, hnil]
    · rw [ih _ (by omega), happ, List.replicate_append_replicate, Nat.add_sub_cancel' (by omega)]

include hnil happ in
theorem sendField_send (o : σ) (acc : List Char) (sp : Spec) (str : List Char) :
    sendField send (send o acc) sp str = send o (sendField (fun acc s ↦ acc ++ s) acc sp str) := by
  have hlist : ∀ (acc' : List Char) ch n, sendRepeat (fun acc s ↦ acc ++ s) acc' ch n =
      acc' ++ List.replicate n ch :=
    sendRepeat_eq (fun acc s ↦ acc ++ s) List.append_nil List.append_assoc
  unfold sendField
  simp only [sendRepeat_eq send hnil happ, hlist]
  split_ifs <;> simp [happ]

include hnil happ in
theorem outVformat_send (o : σ) (fmt acc : List Char) (args : List Arg) :
    outVformat send (send o acc) fmt args =
      (outVformat (fun acc s ↦ acc ++ s) acc fmt args).map (send o) := by
  have hrun : ∀ run : List Char, (if run ≠ [] then send (send o acc) run else send o acc) =
      send o (if run ≠ [] then acc ++ run else acc) := by
    intro run
    split_ifs <;> simp [happ]
  rw [outVformat, outVformat, hrun]
  split
  · rename_i spec hspec
    split
    · -- a trailing `%`
      simp [happ]
    · rename_i sp c rest hs
      split
      · rfl
      · rfl
      · rename_i str args' _
        by_cases hsign : sp.sign ≠ '\x00' ∨ sp.prec ≠ -1
        · rw [if_pos hsign, if_pos hsign]
          rfl
        · rw [if_neg hsign, if_neg hsign, sendField_send send hnil happ]
          exact outVformat_send _ rest _ _
  · rfl
termination_by fmt.length
decreasing_by
  have hlen := List.length_dropWhile_le textChar fmt
  rw [‹List.dropWhile textChar fmt = '%' :: _›, List.length_cons] at hlen
  have := length_parseSpec_lt ‹parseSpec _ = some _›
  omega

end Stream

/-! ## What `async_safe_format_buffer` returns -/

theorem Outcome.map_map {σ τ υ : Type} (f : σ → τ) (g : τ → υ) (r : Outcome σ) :
    (r.map f).map g = r.map (g ∘ f) := by
  cases r <;> rfl

/-- `async_safe_format_buffer` stores the first `size - 1` bytes of the text `out_vformat` produces
and a NUL, and returns the length of the whole text as an `int`. -/
theorem asyncSafeFormatBuffer_eq (size : ℕ) (fmt : List Char) (args : List Arg) :
    asyncSafeFormatBuffer size fmt args = (formatText fmt args).map fun text ↦
      (toSigned 32 text.length, if size = 0 then [] else text.take (size - 1) ++ ['\x00']) := by
  have h := outVformat_send BufferOutputStream.send BufferOutputStream.send_nil
    BufferOutputStream.send_append (BufferOutputStream.new size) fmt [] args
  rw [BufferOutputStream.send_nil] at h
  rw [asyncSafeFormatBuffer, h, formatText, Outcome.map_map]
  congr 1
  funext text
  simp [BufferOutputStream.new_send]

/-! ## `o` is signed -/

theorem signExtend_readValue_four {v : ℤ} (hlo : -2 ^ 31 ≤ v) (hhi : v < 2 ^ 31) :
    signExtend 4 (readValue 4 v) = (v % 2 ^ 64).toNat := by
  have hcast : ((readValue 4 v : ℕ) : ℤ) % 2 ^ 32 = v % 2 ^ 32 := by
    rw [readValue, Int.toNat_of_nonneg (Int.emod_nonneg v (by decide)), Int.emod_emod_of_dvd _ (dvd_refl _)]
  rw [signExtend, show 8 * 4 = 32 by rfl, Bionic.Stdio.PrintfInt.toSigned_congr hcast,
    Bionic.Stdio.PrintfInt.toSigned_of_mem (by decide) (by simpa using hlo) (by simpa using hhi)]

theorem formatInteger_of_neg {value : ℕ} (bufSize : ℕ) (c : Char) (hc : c = 'd' ∨ c = 'i' ∨ c = 'o')
    (h₁ : 2 ^ 63 ≤ value) (h₂ : value < 2 ^ 64) :
    formatInteger bufSize value c =
      '-' :: formatUnsigned (bufSize - 1) (2 ^ 64 - value)
        (if c.toLower = 'x' then 16 else if c = 'o' then 8 else if c.toLower = 'b' then 2 else 10) false := by
  have hcaps : ¬ c = 'X' := by rcases hc with rfl | rfl | rfl <;> decide
  rw [formatInteger, if_pos ⟨hc, h₁⟩, Nat.mod_eq_of_lt (by omega)]
  simp [hcaps]

theorem convert_octal_of_neg {v : ℤ} (hlo : -2 ^ 31 ≤ v) (hneg : v < 0) :
    convert {} 'o' [.int v] = .ok ('-' :: formatUnsigned 63 (-v).toNat 8 false, []) := by
  have hval : signExtend 4 (readValue 4 v) = 2 ^ 64 - (-v).toNat := by
    rw [signExtend_readValue_four hlo (by omega)]
    omega
  have hfmt : intString {} 'o' (2 ^ 64 - (-v).toNat) = '-' :: formatUnsigned 63 (-v).toNat 8 false := by
    rw [intString, if_neg (by simp), formatInteger_of_neg 64 'o' (by decide) (by omega) (by omega),
      show 2 ^ 64 - (2 ^ 64 - (-v).toNat) = (-v).toNat by omega]
    rfl
  unfold convert
  simp +decide only [if_false, if_true, hval, hfmt]

/-- `%o` of a negative `int`: `out_vformat` writes a minus sign and the octal digits of the absolute
value, where `vfprintf` writes the octal digits of the value as an `unsigned int`, with no sign. -/
theorem formatText_octal_of_neg (v : ℤ) (hlo : -2 ^ 31 ≤ v) (hneg : v < 0) :
    formatText ['%', 'o'] [.int v] = .done ('-' :: formatUnsigned 63 (-v).toNat 8 false) ∧
      vfprintf (fun _ ↦ v) ['%', 'o'] =
        .done (Nat.toDigits 8 (toUnsigned 32 v)) (Nat.toDigits 8 (toUnsigned 32 v)).length ∧
      '-' ∉ Nat.toDigits 8 (toUnsigned 32 v) := by
  refine ⟨?_, ?_, fun h ↦ absurd (Nat.isDigit_of_mem_toDigits (by decide) (by decide) h) (by decide)⟩
  · -- the conversion, then the end of the format
    have hspec : parseSpec ['o'] = some ({}, 'o', []) := by decide
    have h := outVformat_of_conv (fun acc s ↦ acc ++ s) [] [] (by simp) hspec
      (convert_octal_of_neg hlo hneg) rfl rfl
    rw [formatText, show ['%', 'o'] = [] ++ '%' :: ['o'] from rfl, h,
      outVformat_of_text _ _ [] (by simp)]
    rw [if_neg (by simp), sendField_of_width_le _ _ _ _ (by simp; omega), if_neg (by simp)]
    rfl
  · -- the printf of stdio prints the 32-bit pattern in octal
    have hu : toUnsigned 32 v < 8 ^ 11 := by
      unfold toUnsigned
      have := Int.emod_lt_of_pos v (by decide : (0 : ℤ) < 2 ^ 32)
      omega
    have hlen := Nat.toDigits_length 8 _ 11 (by decide) hu
    have hfield : Stdio.PrintfInt.intField {} ⟨.oct, false, none, false, false⟩ v =
        (Nat.toDigits 8 (toUnsigned 32 v), ((Nat.toDigits 8 (toUnsigned 32 v)).length : ℤ)) := by
      simp [Stdio.PrintfInt.intField, Stdio.PrintfInt.convValue, Stdio.PrintfInt.uarg,
        Stdio.PrintfInt.numberDigits, Stdio.PrintfInt.convField, Stdio.PrintfInt.pad,
        Stdio.PrintfInt.Base.radix]
    have hemit : ¬(Stdio.PrintfArgs.intMax : ℤ) < (Nat.toDigits 8 (toUnsigned 32 v)).length := by
      simp only [Stdio.PrintfArgs.intMax]
      omega
    simp [vfprintf, Stdio.PrintfInt.vfprintfLoop_text, Stdio.PrintfInt.textChar,
      Stdio.PrintfInt.vfprintfLoop, Stdio.PrintfInt.intConv, hfield, Stdio.PrintfInt.emit, hemit]

theorem formatText_octal_of_neg_minus_one :
    formatText ['%', 'o'] [.int (-1)] = .done ('-' :: formatUnsigned 63 (-(-1 : ℤ)).toNat 8 false) ∧
      vfprintf (fun _ ↦ -1) ['%', 'o'] =
        .done (Nat.toDigits 8 (toUnsigned 32 (-1))) (Nat.toDigits 8 (toUnsigned 32 (-1))).length ∧
      '-' ∉ Nat.toDigits 8 (toUnsigned 32 (-1)) :=
  formatText_octal_of_neg (-1) (by decide) (by decide)

example : formatText "%o".toList [.int (-1)] = .done "-1".toList := by decide +kernel

example : vfprintf (fun _ ↦ -1) "%o".toList = .done "37777777777".toList 11 := by decide +kernel

end Bionic.AsyncSafe.Format
