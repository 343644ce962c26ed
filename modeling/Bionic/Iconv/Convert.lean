import Bionic.Uchar.Utf8
import Bionic.Lib.ByteOrder
import Bionic.Errno

/-!
# `iconv`

`__iconv_t::Convert` runs a loop while source bytes are left: `GetNext` reads one character of the
source encoding into the `char32_t` `wc`, and `Convert` writes it in the destination encoding into
`buf`, which `Emit` copies to the destination when it fits. Each of them advances the caller's
pointer and count of the source by `src_bytes_used`, and `Emit` those of the destination by
`dst_bytes_used`. With `//IGNORE` a character that cannot be read or written is skipped, with
`//TRANSLIT` it is replaced by `'?'`.

The model keeps the source buffer as a list and the caller's pointers as offsets into it, so that
a read outside the buffer is a result of its own (`Halt.readOutside`). `GetNext`, `Convert` and the
loop carry fuel. Every step keeps the caller's pointer and count of the source summing to the end
of the buffer, and those of the destination to its size (`iconv_balanced`).

`GetNext`'s switch is `readNext`, `Convert`'s is `writeNext`. On a Unicode scalar value the
latter writes what each destination encoding's definition writes (`writeNext_scalar`, with
`scalarBytes` the encodings as the standards give them).

Not modelled: `iconv_open`'s parsing of encoding names, `iconv` on a null `src_buf` (it returns 0)
and on `INVALID_ICONV_T` (`EBADF`).
-/

set_option autoImplicit false

namespace Bionic.Iconv

open Bionic.Uchar
open Bionic.Lib.ByteOrder (bswap16 bswap32 leBytes beBytes)

/-! ### The model -/

/-- The encodings `__parse_encoding` knows. -/
inductive Encoding where
  | usAscii
  | utf8
  | utf16Le
  | utf16Be
  | utf32Le
  | utf32Be
  | wcharT
  deriving DecidableEq, Repr

/-- What `iconv` does with a character it cannot read or write: stop (`ERROR`), skip it
(`//IGNORE`) or write `'?'` in its place (`//TRANSLIT`). -/
inductive Mode where
  | error
  | ignore
  | translit
  deriving DecidableEq, Repr

/-- An `iconv_t` as `iconv_open` leaves it. -/
structure IconvT where
  srcEncoding : Encoding
  dstEncoding : Encoding
  mode : Mode
  deriving DecidableEq, Repr

/-- Why a run of the model ends without a result. -/
inductive Halt where
  /-- The code reads the byte at this offset from the start of the source buffer, which lies
  outside the buffer. -/
  | readOutside (offset : ℤ)
  /-- The run takes more steps than the fuel. -/
  | outOfFuel
  deriving DecidableEq, Repr

/-- The fields of `__iconv_t` during `Convert`, with the four variables of the caller that it
updates through pointers. The source pointer is an offset from the start of the source buffer,
and the destination pointer stands past the bytes `written` from the start of the destination
buffer. `src_bytes_used` and `*src_bytes_left` are integers: the code adds the one to the pointer
and subtracts it from the other, so a `(size_t)-1` from `mbrtoc32` moves them back by one. -/
structure Conv where
  wc : UInt32
  /-- `buf[0 .. dst_bytes_used)`, the bytes `Convert` has prepared for `Emit`. -/
  buf : List UInt8
  srcBytesUsed : ℤ
  ps : MbState
  replacementCount : ℕ
  ignored : Bool
  /-- `*src_buf`. -/
  src : ℤ
  /-- `*src_bytes_left`. -/
  srcBytesLeft : ℤ
  written : List UInt8
  /-- `*dst_bytes_left`. -/
  dstBytesLeft : ℕ
  errno : ℤ
  deriving DecidableEq

/-- The byte at offset `pos` of the source buffer. -/
def readByte (input : List UInt8) (pos : ℤ) : Except Halt UInt8 :=
  if 0 ≤ pos then
    match input[pos.toNat]? with
    | some b => .ok b
    | none => .error (.readOutside pos)
  else .error (.readOutside pos)

/-- The `n` bytes from offset `pos` that `mbrtoc32` is given. -/
def readBytes (input : List UInt8) (pos : ℤ) (n : ℕ) : Except Halt (List UInt8) :=
  if pos < 0 then .error (.readOutside pos)
  else if input.length < pos.toNat + n then .error (.readOutside input.length)
  else .ok ((input.drop pos.toNat).take n)

/-- `In16`: the 16-bit unit at `pos`, low byte first, then swapped for big-endian. -/
def in16 (input : List UInt8) (pos : ℤ) (swap : Bool) : Except Halt UInt16 := do
  let b0 ← readByte input pos
  let b1 ← readByte input (pos + 1)
  let wc := b0.toUInt16 ||| (b1.toUInt16 <<< 8)
  pure (if swap then bswap16 wc else wc)

/-- `In32`: the 32-bit unit at `pos`, low byte first, then swapped for big-endian. -/
def in32 (input : List UInt8) (pos : ℤ) (swap : Bool) : Except Halt UInt32 := do
  let b0 ← readByte input pos
  let b1 ← readByte input (pos + 1)
  let b2 ← readByte input (pos + 2)
  let b3 ← readByte input (pos + 3)
  let wc := b0.toUInt32 ||| (b1.toUInt32 <<< 8) ||| (b2.toUInt32 <<< 16) ||| (b3.toUInt32 <<< 24)
  pure (if swap then bswap32 wc else wc)

/-- `Out16`: the bytes of `ch`, swapped for big-endian, low byte first. -/
def out16 (ch : UInt16) (swap : Bool) : List UInt8 :=
  let ch := if swap then bswap16 ch else ch
  [ch.toUInt8, (ch >>> 8).toUInt8]

/-- `Out32`: the bytes of `ch`, swapped for big-endian, low byte first. -/
def out32 (ch : UInt32) (swap : Bool) : List UInt8 :=
  let ch := if swap then bswap32 ch else ch
  [ch.toUInt8, (ch >>> 8).toUInt8, (ch >>> 16).toUInt8, (ch >>> 24).toUInt8]

/-- The UTF-16 case of `GetNext`'s switch: a unit, or a high surrogate and the unit after it. -/
def readNext16 (swap : Bool) (input : List UInt8) (c : Conv) : Except Halt (Bool × Conv) :=
  if c.srcBytesLeft < 2 then .ok (false, { c with errno := einval })
  else do
    let hi ← in16 input c.src swap
    let c := { c with wc := hi.toUInt32, srcBytesUsed := 2 }
    -- 0xd800-0xdbff are the high surrogates, 0xdc00-0xdfff the low ones
    if 0xd800 ≤ hi ∧ hi ≤ 0xdfff then
      if 0xdc00 ≤ hi then .ok (false, { c with errno := eilseq })
      else if c.srcBytesLeft < 4 then .ok (false, { c with errno := einval })
      else do
        -- the second unit is taken as the low surrogate, whatever it is
        let lo ← in16 input (c.src + 2) swap
        pure (true, { c with
          wc := (0x10000 : UInt32) + ((hi.toUInt32 - 0xd800) <<< 10) + (lo.toUInt32 - 0xdc00)
          srcBytesUsed := 4 })
    else pure (true, c)

/-- The UTF-32 case of `GetNext`'s switch, which `wchar_t` shares little-endian. -/
def readNext32 (swap : Bool) (input : List UInt8) (c : Conv) : Except Halt (Bool × Conv) :=
  if c.srcBytesLeft < 4 then .ok (false, { c with errno := einval })
  else do
    let wc ← in32 input c.src swap
    pure (true, { c with wc := wc, srcBytesUsed := 4 })

/-- The switch of `GetNext` on the source encoding: it reads a character into `wc` and sets
`src_bytes_used` and `errno`; `false` where `GetNext` returns `false` from inside it. -/
def readNext (enc : Encoding) (input : List UInt8) (c : Conv) : Except Halt (Bool × Conv) :=
  match enc with
  | .usAscii => do
    -- `wc = **src_buf` reads a plain `char`: a byte above 0x7f is refused whatever its sign
    let b ← readByte input c.src
    pure (true, { c with
      wc := b.toUInt32
      srcBytesUsed := 1
      errno := if b.toUInt32 > 0x7f then eilseq else c.errno })
  | .utf8 => do
    let s ← readBytes input c.src c.srcBytesLeft.toNat
    match mbrtoc32 s c.ps with
    | (.char wc ret, ps) => pure (true, { c with wc := wc, ps := ps, srcBytesUsed := ret })
    -- `(size_t)-1`, with `errno` set by `mbrtoc32`
    | (.illegal e, ps) => pure (true, { c with ps := ps, srcBytesUsed := -1, errno := e })
    -- `(size_t)-2`
    | (.incomplete, ps) => pure (false, { c with ps := ps, srcBytesUsed := -2, errno := einval })
  | .utf16Le => readNext16 false input c
  | .utf16Be => readNext16 true input c
  | .utf32Le => readNext32 false input c
  | .utf32Be => readNext32 true input c
  | .wcharT => readNext32 false input c

/-- `*src_buf += src_bytes_used; *src_bytes_left -= src_bytes_used;` -/
def Conv.advance (c : Conv) : Conv :=
  { c with src := c.src + c.srcBytesUsed, srcBytesLeft := c.srcBytesLeft - c.srcBytesUsed }

/-- `GetNext`. With `//IGNORE` it steps over a character it cannot read and calls itself again. -/
def getNext (cd : IconvT) (input : List UInt8) : ℕ → Conv → Except Halt (Bool × Conv)
  | 0, _ => .error .outOfFuel
  | fuel + 1, c => do
    let (ok, c) ← readNext cd.srcEncoding input { c with errno := 0 }
    if !ok then pure (false, c)
    else if c.errno = eilseq then
      match cd.mode with
      | .error => pure (false, c)
      | .ignore => getNext cd input fuel { c.advance with ignored := true }
      | .translit => pure (true, { c with
          wc := '?'.val
          replacementCount := c.replacementCount + 1 })
    else pure (true, c)

/-- The UTF-16 case of `Convert`'s switch: a unit, or a surrogate pair made from `wc - 0x10000`,
which the code keeps in `wc`. -/
def writeNext16 (swap : Bool) (c : Conv) : Conv :=
  if c.wc < 0x10000 then { c with buf := out16 c.wc.toUInt16 swap }
  else
    let wc := c.wc - 0x10000
    let hi := ((0xd800 : UInt32) ||| (wc >>> 10)).toUInt16
    let lo := ((0xdc00 : UInt32) ||| (wc &&& 0x3ff)).toUInt16
    { c with wc := wc, buf := out16 hi swap ++ out16 lo swap }

/-- The switch of `Convert` on the destination encoding: it writes `wc` into `buf` and sets
`errno`. `c32rtomb` never returns `(size_t)-2`, so its branch is left out. -/
def writeNext (enc : Encoding) (c : Conv) : Conv :=
  match enc with
  | .usAscii => { c with
      buf := [c.wc.toUInt8]
      errno := if c.wc > 0x7f then eilseq else c.errno }
  | .utf8 =>
    match c32rtomb c.wc c.ps with
    | (.ok bytes, ps) => { c with buf := bytes, ps := ps }
    | (.error e, ps) => { c with ps := ps, errno := e }
  | .utf16Le => writeNext16 false c
  | .utf16Be => writeNext16 true c
  | .utf32Le => { c with buf := out32 c.wc false }
  | .utf32Be => { c with buf := out32 c.wc true }
  | .wcharT => { c with buf := out32 c.wc false }

/-- `Emit`: copy `buf` to the destination when it fits, and advance both sides. -/
def emit (c : Conv) : Bool × Conv :=
  if c.dstBytesLeft < c.buf.length then (false, { c with errno := e2big })
  else (true, { c.advance with
    written := c.written ++ c.buf
    dstBytesLeft := c.dstBytesLeft - c.buf.length })

/-- `Convert` (the private one). With `//TRANSLIT` it tries again with `'?'`. -/
def convert (cd : IconvT) : ℕ → Conv → Except Halt (Bool × Conv)
  | 0, _ => .error .outOfFuel
  | fuel + 1, c =>
    let c := writeNext cd.dstEncoding { c with errno := 0 }
    if c.errno = eilseq then
      match cd.mode with
      | .ignore => .ok (true, { c.advance with ignored := true })
      | .translit => convert cd fuel { c with
          wc := '?'.val
          replacementCount := c.replacementCount + 1 }
      | .error => .ok (false, c)
    else .ok (emit c)

/-- `Done`: the number of replacements for `//TRANSLIT`; otherwise `-1` with `EILSEQ` if a
character was skipped, and 0. -/
def done (mode : Mode) (c : Conv) : ℤ × Conv :=
  if mode = .translit then (c.replacementCount, c)
  else if c.ignored then (-1, { c with errno := eilseq })
  else (0, c)

/-- `while (*src_bytes_left > 0) { if (!GetNext() || !Convert()) return -1; } return Done();` -/
def convertLoop (cd : IconvT) (input : List UInt8) : ℕ → Conv → Except Halt (ℤ × Conv)
  | 0, _ => .error .outOfFuel
  | fuel + 1, c =>
    if 0 < c.srcBytesLeft then do
      let (ok, c) ← getNext cd input fuel c
      if !ok then pure (-1, c)
      else
        let (ok, c) ← convert cd fuel c
        if !ok then pure (-1, c) else convertLoop cd input fuel c
    else .ok (done cd.mode c)

/-- The fields when the public `Convert` starts: `wc`, `ps`, `replacement_count` and `ignored`
reset, the caller's counts, and `errno` zero. -/
def Conv.start (srcBytesLeft dstBytesLeft : ℕ) : Conv where
  wc := 0
  buf := []
  srcBytesUsed := 0
  ps := .initial
  replacementCount := 0
  ignored := false
  src := 0
  srcBytesLeft := srcBytesLeft
  written := []
  dstBytesLeft := dstBytesLeft
  errno := 0

/-- `iconv(cd, &src, &src_bytes_left, &dst, &dst_bytes_left)` on the source buffer `input`, with
`dstSize` bytes of room at `dst`: what it returns, and the fields after, where the caller reads
its pointers, its counts and `errno`. -/
def iconv (cd : IconvT) (input : List UInt8) (dstSize fuel : ℕ) : Except Halt (ℤ × Conv) :=
  convertLoop cd input fuel (.start input.length dstSize)

/-! ### The caller's pointers -/

section Pointers

/-- The caller's four variables: the source pointer and count, what has been written and the room
left. -/
def Conv.pointers (c : Conv) : ℤ × ℤ × List UInt8 × ℕ :=
  (c.src, c.srcBytesLeft, c.written, c.dstBytesLeft)

/-- The source pointer and count end at the end of the buffer of `L` bytes, and the destination
pointer and count at the end of its `N` bytes of room. -/
def Conv.Balanced (L N : ℕ) (c : Conv) : Prop :=
  c.src + c.srcBytesLeft = L ∧ c.written.length + c.dstBytesLeft = N

theorem bind_eq_ok {ε α β : Type} {x : Except ε α} {f : α → Except ε β} {b : β}
    (h : x >>= f = .ok b) : ∃ a, x = .ok a ∧ f a = .ok b := by
  cases x with
  | error e => cases h
  | ok a => exact ⟨a, rfl, h⟩

variable {L N : ℕ} {input : List UInt8} {c c' : Conv} {ok : Bool}

theorem Conv.Balanced.of_pointers (hb : c.Balanced L N) (h : c'.pointers = c.pointers) :
    c'.Balanced L N := by
  simp only [Conv.pointers, Prod.mk.injEq] at h
  obtain ⟨hsrc, hleft, hwritten, hroom⟩ := h
  rw [Conv.Balanced, hsrc, hleft, hwritten, hroom]
  exact hb

theorem Conv.Balanced.advance (hb : c.Balanced L N) : c.advance.Balanced L N := by
  obtain ⟨hsrc, hdst⟩ := hb
  refine ⟨?_, hdst⟩
  simp only [Conv.advance]
  omega

theorem readNext16_pointers {swap : Bool} (h : readNext16 swap input c = .ok (ok, c')) :
    c'.pointers = c.pointers := by
  unfold readNext16 at h
  split at h
  · cases h; rfl
  · obtain ⟨hi, -, h⟩ := bind_eq_ok h
    dsimp only at h
    split at h
    · split at h
      · cases h; rfl
      · split at h
        · cases h; rfl
        · obtain ⟨lo, -, h⟩ := bind_eq_ok h
          cases h; rfl
    · cases h; rfl

theorem readNext32_pointers {swap : Bool} (h : readNext32 swap input c = .ok (ok, c')) :
    c'.pointers = c.pointers := by
  unfold readNext32 at h
  split at h
  · cases h; rfl
  · obtain ⟨wc, -, h⟩ := bind_eq_ok h
    cases h; rfl

theorem readNext_pointers {enc : Encoding} (h : readNext enc input c = .ok (ok, c')) :
    c'.pointers = c.pointers := by
  cases enc with
  | usAscii =>
    obtain ⟨b, -, h⟩ := bind_eq_ok h
    cases h; rfl
  | utf8 =>
    obtain ⟨s, -, h⟩ := bind_eq_ok h
    split at h <;> cases h <;> rfl
  | utf16Le => exact readNext16_pointers h
  | utf16Be => exact readNext16_pointers h
  | utf32Le => exact readNext32_pointers h
  | utf32Be => exact readNext32_pointers h
  | wcharT => exact readNext32_pointers h

theorem writeNext_pointers (enc : Encoding) (c : Conv) : (writeNext enc c).pointers = c.pointers := by
  cases enc <;> simp only [writeNext, writeNext16] <;> first | rfl | (split <;> rfl)

theorem getNext_balanced {cd : IconvT} {fuel : ℕ} (hb : c.Balanced L N)
    (h : getNext cd input fuel c = .ok (ok, c')) : c'.Balanced L N := by
  induction fuel generalizing c with
  | zero => cases h
  | succ fuel ih =>
    obtain ⟨⟨ok₀, c₀⟩, hread, h⟩ := bind_eq_ok h
    have hb₀ : c₀.Balanced L N :=
      (show ({ c with errno := 0 } : Conv).Balanced L N from hb).of_pointers (readNext_pointers hread)
    dsimp only at h
    split at h
    · cases h; exact hb₀
    · split at h
      · -- a character that cannot be read
        split at h
        · cases h; exact hb₀
        · exact ih (by exact hb₀.advance) h
        · cases h; exact hb₀
      · cases h; exact hb₀

theorem emit_balanced (hb : c.Balanced L N) (h : emit c = (ok, c')) : c'.Balanced L N := by
  unfold emit at h
  split at h
  · cases h; exact hb
  · next hroom =>
    cases h
    obtain ⟨hsrc, hdst⟩ := hb.advance
    refine ⟨hsrc, ?_⟩
    simp only [Conv.advance, List.length_append] at hdst ⊢
    omega

theorem convert_balanced {cd : IconvT} {fuel : ℕ} (hb : c.Balanced L N)
    (h : convert cd fuel c = .ok (ok, c')) : c'.Balanced L N := by
  induction fuel generalizing c with
  | zero => cases h
  | succ fuel ih =>
    have hw : (writeNext cd.dstEncoding { c with errno := 0 }).Balanced L N :=
      hb.of_pointers (writeNext_pointers _ _)
    simp only [convert] at h
    split at h
    · split at h
      · cases h; exact hw.advance
      · exact ih (by exact hw) h
      · cases h; exact hw
    · exact emit_balanced hw (Except.ok.inj h)

theorem convertLoop_balanced {cd : IconvT} {fuel : ℕ} {ret : ℤ} (hb : c.Balanced L N)
    (h : convertLoop cd input fuel c = .ok (ret, c')) : c'.Balanced L N := by
  induction fuel generalizing c with
  | zero => cases h
  | succ fuel ih =>
    simp only [convertLoop] at h
    split at h
    · obtain ⟨⟨ok₁, c₁⟩, hget, h⟩ := bind_eq_ok h
      have hb₁ := getNext_balanced hb hget
      dsimp only at h
      split at h
      · cases h; exact hb₁
      · obtain ⟨⟨ok₂, c₂⟩, hconv, h⟩ := bind_eq_ok h
        have hb₂ := convert_balanced hb₁ hconv
        dsimp only at h
        split at h
        · cases h; exact hb₂
        · exact ih hb₂ h
    · unfold done at h
      split at h
      · cases h; exact hb
      · split at h <;> cases h <;> exact hb

/-- Whatever `iconv` returns, the caller's pointer and count of the source still add up to the end
of the source buffer, and those of the destination to the end of its room. -/
theorem iconv_balanced {cd : IconvT} {dstSize fuel : ℕ} {ret : ℤ}
    (h : iconv cd input dstSize fuel = .ok (ret, c')) : c'.Balanced input.length dstSize :=
  convertLoop_balanced ⟨by simp [Conv.start], by simp [Conv.start]⟩ h

end Pointers

/-! ### What the destination encodings write of a code point -/

section Scalar

open Bionic.Lib

/-- The UTF-16 code units of a code point: itself below `0x10000`, a surrogate pair above. -/
def utf16Units (u : ℕ) : List ℕ :=
  if u < 0x10000 then [u] else [0xD800 + (u - 0x10000) / 0x400, 0xDC00 + (u - 0x10000) % 0x400]

/-- The bytes of the code point `u` in an encoding, from the encoding's definition. -/
def scalarBytes : Encoding → ℕ → List UInt8
  | .usAscii, u => [u.toUInt8]
  | .utf8, u => (Utf8.encode u).map Nat.toUInt8
  | .utf16Le, u => (utf16Units u).flatMap (leBytes 2)
  | .utf16Be, u => (utf16Units u).flatMap (beBytes 2)
  | .utf32Le, u => leBytes 4 u
  | .utf32Be, u => beBytes 4 u
  | .wcharT, u => leBytes 4 u

/-- The code points an encoding can write: all of them, but only the first 128 in US-ASCII. -/
def Representable (enc : Encoding) (u : ℕ) : Prop := enc = .usAscii → u ≤ 0x7F

theorem out16_eq (ch : UInt16) (swap : Bool) :
    out16 ch swap = if swap then beBytes 2 ch.toNat else leBytes 2 ch.toNat := by
  cases swap
  · exact ByteOrder.store16 ch
  · exact ByteOrder.store16_bswap16 ch

theorem out32_eq (ch : UInt32) (swap : Bool) :
    out32 ch swap = if swap then beBytes 4 ch.toNat else leBytes 4 ch.toNat := by
  cases swap
  · exact ByteOrder.store32 ch
  · exact ByteOrder.store32_bswap32 ch

theorem toNat_toUInt32_of_lt {u : ℕ} (hu : u < 2 ^ 32) : u.toUInt32.toNat = u := by
  rw [Nat.toUInt32, UInt32.toNat_ofNat']
  omega

variable {u : ℕ} {c : Conv}

/-- A supplementary code point goes out as a surrogate pair made with `|||`: the offset's high
ten bits behind `0xd800`, its low ten bits behind `0xdc00`. -/
theorem surrogates_toNat (hbig : 0x10000 ≤ u) (hu : u ≤ 0x10FFFF) (hwc : c.wc.toNat = u) :
    ((0xd800 : UInt32) ||| ((c.wc - 0x10000) >>> 10)).toUInt16.toNat =
        0xD800 + (u - 0x10000) / 0x400 ∧
      ((0xdc00 : UInt32) ||| ((c.wc - 0x10000) &&& 0x3ff)).toUInt16.toNat =
        0xDC00 + (u - 0x10000) % 0x400 := by
  have hsub : (c.wc - 0x10000).toNat = u - 0x10000 := by
    rw [UInt32.toNat_sub_of_le _ _ (UInt32.le_iff_toNat_le.2 (by rw [hwc]; exact hbig)), hwc]
    rfl
  have hshift : ((c.wc - 0x10000) >>> 10).toNat = (u - 0x10000) / 2 ^ 10 := by
    rw [UInt32.toNat_shiftRight, hsub]
    simp only [UInt32.reduceToNat, Nat.reduceMod, Nat.shiftRight_eq_div_pow]
  have hmask : ((c.wc - 0x10000) &&& 0x3ff).toNat = (u - 0x10000) % 2 ^ 10 := by
    rw [UInt32.toNat_and, hsub, show (0x3ff : UInt32).toNat = 2 ^ 10 - 1 from rfl,
      Nat.and_two_pow_sub_one_eq_mod]
  constructor
  · rw [UInt32.toNat_toUInt16, UInt32.toNat_or, hshift]
    simp only [UInt32.reduceToNat]
    rw [ByteOrder.or_eq_add_of_dvd_of_lt 10 (show 2 ^ 10 ∣ 55296 by decide) (by omega)]
    omega
  · rw [UInt32.toNat_toUInt16, UInt32.toNat_or, hmask]
    simp only [UInt32.reduceToNat]
    rw [ByteOrder.or_eq_add_of_dvd_of_lt 10 (show 2 ^ 10 ∣ 56320 by decide) (Nat.mod_lt _ (by omega))]
    omega

theorem writeNext16_scalar (swap : Bool) (hu : Utf8.IsScalar u) (hwc : c.wc = u.toUInt32) :
    ∃ wc, writeNext16 swap c =
      { c with wc := wc, buf := (utf16Units u).flatMap (if swap then beBytes 2 else leBytes 2) } := by
  have hwcNat : c.wc.toNat = u := by
    rw [hwc]
    exact toNat_toUInt32_of_lt (by have := hu.1; omega)
  unfold writeNext16
  by_cases hbmp : u < 0x10000
  · -- a unit of the basic plane
    have hlt : c.wc < 0x10000 := UInt32.lt_iff_toNat_lt.2 (by rw [hwcNat]; exact hbmp)
    have hunit : c.wc.toUInt16.toNat = u := by
      rw [UInt32.toNat_toUInt16, hwcNat]
      omega
    refine ⟨c.wc, ?_⟩
    rw [if_pos hlt, out16_eq, hunit, utf16Units, if_pos hbmp]
    cases swap <;> simp
  · -- a surrogate pair
    have hge : ¬c.wc < 0x10000 := fun h ↦ hbmp (hwcNat ▸ UInt32.lt_iff_toNat_lt.1 h)
    obtain ⟨hhi, hlo⟩ := surrogates_toNat (by omega) hu.1 hwcNat
    refine ⟨c.wc - 0x10000, ?_⟩
    rw [if_neg hge]
    dsimp only
    rw [out16_eq, out16_eq, hhi, hlo, utf16Units, if_neg hbmp]
    cases swap <;> simp

/-- On a code point the encoding can write, `Convert`'s switch puts the encoding's bytes in
`buf` and changes nothing else but `wc`. -/
theorem writeNext_scalar (enc : Encoding) (hu : Utf8.IsScalar u) (hrep : Representable enc u)
    (hwc : c.wc = u.toUInt32) (hps : c.ps = .initial) :
    ∃ wc, writeNext enc c = { c with wc := wc, buf := scalarBytes enc u } := by
  have hwcNat : c.wc.toNat = u := by
    rw [hwc]
    exact toNat_toUInt32_of_lt (by have := hu.1; omega)
  cases enc with
  | usAscii =>
    have hascii : u ≤ 0x7F := hrep rfl
    have hle : ¬c.wc > 0x7f := fun h ↦ by
      have := UInt32.lt_iff_toNat_lt.1 h
      simp only [UInt32.reduceToNat] at this
      omega
    refine ⟨c.wc, ?_⟩
    simp only [writeNext, hle, if_false, scalarBytes]
    congr 2
    exact ByteOrder.toUInt8_eq_of_mod (by rw [hwcNat])
  | utf8 =>
    obtain ⟨bytes, henc, hbytes⟩ := (c32rtomb_eq_encode c.wc).1 (by have := hu.1; omega)
    have hbuf : (Utf8.encode u).map Nat.toUInt8 = bytes := by
      have hid : (Nat.toUInt8 ∘ UInt8.toNat) = id := funext fun _ ↦ UInt8.ofNat_toNat
      rw [← hwcNat, ← hbytes, List.map_map, hid, List.map_id]
    refine ⟨c.wc, ?_⟩
    simp only [writeNext, hps, henc, scalarBytes, hbuf]
  | utf16Le => exact writeNext16_scalar false hu hwc
  | utf16Be => exact writeNext16_scalar true hu hwc
  | utf32Le => exact ⟨c.wc, by simp only [writeNext, out32_eq, hwcNat, scalarBytes]; rfl⟩
  | utf32Be => exact ⟨c.wc, by simp only [writeNext, out32_eq, hwcNat, scalarBytes]; rfl⟩
  | wcharT => exact ⟨c.wc, by simp only [writeNext, out32_eq, hwcNat, scalarBytes]; rfl⟩

end Scalar

end Bionic.Iconv
