import Bionic.Uchar.Utf8

/-!
# `mbrtoc16` and `c16rtomb`

The UTF-16 conversions go through the UTF-8 ones and keep half of a surrogate pair in the
`mbstate_t`.

`mbrtoc16` returns the high surrogate of a supplementary character with the number of bytes it
took, and marks the state with that number in its fourth byte; its next call returns the low
surrogate as `(size_t)-3` (`mbrtoc16_supplementary`). A character of the basic plane comes back
whole (`mbrtoc16_basic`); for `NUL` the call returns 0 and stores nothing.

`c16rtomb` keeps `(high - 0xD800) << 10` in the state's third and fourth bytes on a high
surrogate, and writes the character on the low one (`c16rtomb_surrogatePair`). The high surrogate
`0xD800` keeps only zeros: the state stays initial, and the low surrogate that follows is refused
as unpaired (`c16rtomb_surrogatePair_d800`), so the code points `0x10000`–`0x103FF` cannot be
written from UTF-16.
-/

set_option autoImplicit false

namespace Bionic.Uchar

open Bionic.Lib
open Bionic.Lib.Utf8 (value encode IsScalar)

/-! ### The model -/

/-- `is_high_surrogate`. -/
def isHighSurrogate (c16 : UInt16) : Bool := 0xd800 ≤ c16 && c16 < 0xdc00

/-- `is_low_surrogate`. -/
def isLowSurrogate (c16 : UInt16) : Bool := 0xdc00 ≤ c16 && c16 < 0xe000

/-- `c16rtomb` into a buffer: the octets it stores, whose number it returns, or `errno` for
`(size_t)-1`; and the state it leaves. -/
def c16rtomb (c16 : UInt16) (state : MbState) : Except ℤ (List UInt8) × MbState :=
  if state.isInitial then
    if isHighSurrogate c16 then
      let c32 : UInt32 := (c16.toUInt32 &&& ~~~0xd800) <<< 10
      (.ok [], (state.setByte 3 ((c32 &&& 0xff0000) >>> 16).toUInt8).setByte 2
        ((c32 &&& 0x00ff00) >>> 8).toUInt8)
    else if isLowSurrogate c16 then (.error einval, .initial)
    else c32rtomb c16.toUInt32 state
  else if !isLowSurrogate c16 then (.error einval, .initial)
  else
    let c32 : UInt32 := (((state.getByte 3).toUInt32 <<< 16) ||| ((state.getByte 2).toUInt32 <<< 8) |||
      (c16.toUInt32 &&& ~~~0xdc00)) + 0x10000
    -- `c32rtomb(s, c32, nullptr)` converts with `c32rtomb`'s own state, which no call of it
    -- leaves other than initial
    ((c32rtomb c32 .initial).1, .initial)

/-- What a call of `mbrtoc16` returns, with what it stores through `pc16` and in `errno`. -/
inductive Mbrtoc16Result where
  /-- The unit `c16` is stored and the call returns `ret`, the bytes it took. -/
  | unit (c16 : UInt16) (ret : ℕ)
  /-- The call completes `NUL` and returns 0; nothing is stored. -/
  | nul
  /-- The low surrogate `c16` of the previous character is stored; `(size_t)-3`. -/
  | trail (c16 : UInt16)
  /-- `(size_t)-2`. -/
  | incomplete
  /-- `(size_t)-1`, with `errno`. -/
  | illegal (errno : ℤ)
  deriving DecidableEq, Repr

/-- `mbspartialc16`: a low surrogate waits in the state. -/
def mbspartialc16 (state : MbState) : Bool := state.getByte 3 != 0

/-- `begin_surrogate`: the high surrogate of `c32` is stored, and the state keeps the low one
and, in its fourth byte, the bytes the character took. -/
def beginSurrogate (c32 : UInt32) (nconv : ℕ) (state : MbState) : Mbrtoc16Result × MbState :=
  let c32 := c32 - 0x10000
  let trail : UInt16 := ((c32 &&& 0x3ff) ||| 0xdc00).toUInt16
  (.unit (((c32 &&& 0xffc00) >>> 10) ||| 0xd800).toUInt16 nconv,
    ((state.setByte 0 (trail &&& 0x00ff).toUInt8).setByte 1 ((trail &&& 0xff00) >>> 8).toUInt8).setByte
      3 (nconv.toUInt8 &&& 0xff))

/-- `finish_surrogate`. -/
def finishSurrogate (state : MbState) : Mbrtoc16Result × MbState :=
  (.trail (((state.getByte 1).toUInt16 <<< 8) ||| (state.getByte 0).toUInt16), .initial)

/-- `mbrtoc16` on the `n = s.length` bytes of `s`: its result and the state it leaves. -/
def mbrtoc16 (s : List UInt8) (state : MbState) : Mbrtoc16Result × MbState :=
  if mbspartialc16 state then finishSurrogate state
  else
    match mbrtoc32 s state with
    | (.incomplete, state) => (.incomplete, state)
    | (.illegal errno, state) => (.illegal errno, state)
    | (.char c32 nconv, state) =>
      if nconv = 0 then (.nul, .initial)
      else if c32 < 0x10000 then (.unit c32.toUInt16 nconv, .initial)
      else if 0x10ffff < c32 then (.illegal eilseq, .initial)
      else beginSurrogate c32 nconv state

/-- The high surrogate of a supplementary code point `u`. -/
def highSurrogate (u : ℕ) : UInt16 := (0xD800 + (u - 0x10000) / 0x400).toUInt16

/-- The low surrogate of a supplementary code point `u`. -/
def lowSurrogate (u : ℕ) : UInt16 := (0xDC00 + (u - 0x10000) % 0x400).toUInt16

/-! ### `c16rtomb` on a surrogate pair -/

section Pair

theorem isHighSurrogate_iff (c : UInt16) :
    isHighSurrogate c = true ↔ 0xD800 ≤ c.toNat ∧ c.toNat < 0xDC00 := by
  simp [isHighSurrogate, UInt16.le_iff_toNat_le, UInt16.lt_iff_toNat_lt]

theorem isLowSurrogate_iff (c : UInt16) :
    isLowSurrogate c = true ↔ 0xDC00 ≤ c.toNat ∧ c.toNat < 0xE000 := by
  simp [isLowSurrogate, UInt16.le_iff_toNat_le, UInt16.lt_iff_toNat_lt]

theorem toNat_toUInt16 {n : ℕ} (h : n < 2 ^ 16) : n.toUInt16.toNat = n := by
  rw [Nat.toUInt16, UInt16.toNat_ofNat']
  omega

theorem toNat_toUInt8 {n : ℕ} (h : n < 2 ^ 8) : n.toUInt8.toNat = n := by
  rw [Nat.toUInt8, UInt8.toNat_ofNat']
  omega

variable {x y : ℕ}

/-- A surrogate `m + x`, with its marker `m = 2 ^ k * a` above the bits `x`, masked with the
complement of the marker. -/
theorem surrogateBits_toNat {k a : ℕ} (hk : k ≤ 16) (ha : 2 ^ k * a + 2 ^ k ≤ 2 ^ 16)
    (hx : x < 2 ^ k) :
    ((2 ^ k * a + x).toUInt16.toUInt32 &&& ~~~(2 ^ k * a).toUInt32).toNat = x := by
  have hpow : 2 ^ k ≤ 2 ^ 16 := Nat.pow_le_pow_right (by decide) hk
  have hm : ((2 ^ k * a).toUInt32).toNat = 2 ^ k * a := by
    rw [Nat.toUInt32, UInt32.toNat_ofNat']
    omega
  rw [UInt32.toNat_and, UInt16.toNat_toUInt32, toNat_toUInt16 (by omega), UInt32.toNat_not, hm,
    show UInt32.size = 2 ^ 32 from rfl]
  exact Align.add_and_compl 32 k a x hx (by omega) (by omega)

theorem highBytes (c32 : UInt32) (hc32 : c32.toNat = x * 1024) (hx : x < 0x400) :
    ((c32 &&& 0xff0000) >>> 16).toUInt8 = (x / 64).toUInt8 ∧
      ((c32 &&& 0x00ff00) >>> 8).toUInt8 = (x % 64 * 4).toUInt8 := by
  have h3 : (c32 &&& 0xff0000).toNat = x * 1024 % 2 ^ 24 / 2 ^ 16 * 2 ^ 16 := by
    rw [UInt32.toNat_and, hc32, show (0xff0000 : UInt32).toNat = 2 ^ 24 - 1 - (2 ^ 16 - 1) from rfl,
      Align.and_band _ 24 16 (by norm_num)]
  have h2 : (c32 &&& 0x00ff00).toNat = x * 1024 % 2 ^ 16 / 2 ^ 8 * 2 ^ 8 := by
    rw [UInt32.toNat_and, hc32, show (0x00ff00 : UInt32).toNat = 2 ^ 16 - 1 - (2 ^ 8 - 1) from rfl,
      Align.and_band _ 16 8 (by norm_num)]
  constructor <;> rw [← UInt8.toNat_inj, UInt32.toNat_toUInt8, UInt32.toNat_shiftRight,
    toNat_toUInt8 (by omega)] <;> simp only [UInt32.reduceToNat, Nat.reduceMod,
      Nat.shiftRight_eq_div_pow, h3, h2] <;> omega

theorem c16rtomb_high (hx : x < 0x400) :
    c16rtomb (0xD800 + x).toUInt16 .initial =
      (.ok [], .ofBytes [0, 0, (x % 64 * 4).toUInt8, (x / 64).toUInt8]) := by
  have hhigh : isHighSurrogate (0xD800 + x).toUInt16 = true :=
    (isHighSurrogate_iff _).2 (by rw [toNat_toUInt16 (by omega)]; omega)
  have hbits := surrogateBits_toNat (k := 11) (a := 27) (by norm_num) (by norm_num) (by omega : x < 2 ^ 11)
  have hc32 : ((((0xD800 + x).toUInt16.toUInt32 &&& ~~~0xd800) <<< 10)).toNat = x * 1024 := by
    rw [UInt32.toNat_shiftLeft, show (0xd800 : UInt32) = (2 ^ 11 * 27 : ℕ).toUInt32 from rfl,
      show 0xD800 + x = 2 ^ 11 * 27 + x by norm_num, hbits]
    simp only [UInt32.reduceToNat, Nat.reduceMod, Nat.shiftLeft_eq]
    omega
  obtain ⟨h3, h2⟩ := highBytes _ hc32 hx
  rw [c16rtomb, if_pos MbState.isInitial_initial, if_pos hhigh]
  simp only [h3, h2]
  rfl

theorem isInitial_high (hx : x < 0x400) :
    (MbState.ofBytes [0, 0, (x % 64 * 4).toUInt8, (x / 64).toUInt8]).isInitial = decide (x = 0) := by
  have h2 : (x % 64 * 4).toUInt8 = 0 ↔ x % 64 = 0 := by
    rw [← UInt8.toNat_inj, toNat_toUInt8 (by omega), UInt8.toNat_zero]
    omega
  have h3 : (x / 64).toUInt8 = 0 ↔ x / 64 = 0 := by
    rw [← UInt8.toNat_inj, toNat_toUInt8 (by omega), UInt8.toNat_zero]
  show ((0 : UInt8) == 0 && ((0 : UInt8) == 0 && ((x % 64 * 4).toUInt8 == 0 &&
    ((x / 64).toUInt8 == 0 && true)))) = decide (x = 0)
  rw [Bool.eq_iff_iff]
  simp only [Bool.and_eq_true, beq_iff_eq, h2, h3, decide_eq_true_eq, true_and, and_true]
  omega

/-- The low surrogate `0xDC00 + y` after a high one `0xD800 + x` other than `0xD800` writes the
code point `0x10000 + x * 0x400 + y`. -/
theorem c16rtomb_low (hx : x < 0x400) (hx0 : x ≠ 0) (hy : y < 0x400) :
    c16rtomb (0xDC00 + y).toUInt16 (.ofBytes [0, 0, (x % 64 * 4).toUInt8, (x / 64).toUInt8]) =
      ((c32rtomb (0x10000 + x * 0x400 + y).toUInt32 .initial).1, .initial) := by
  have hlow : isLowSurrogate (0xDC00 + y).toUInt16 = true :=
    (isLowSurrogate_iff _).2 (by rw [toNat_toUInt16 (by omega)]; omega)
  have hbits := surrogateBits_toNat (k := 10) (a := 55) (by norm_num) (by norm_num) (by omega : y < 2 ^ 10)
  rw [show 2 ^ 10 * 55 + y = 0xDC00 + y by norm_num,
    show ((2 ^ 10 * 55 : ℕ).toUInt32) = 0xdc00 from rfl] at hbits
  have hb3 : ((x / 64).toUInt8.toUInt32 <<< 16).toNat = 2 ^ 16 * (x / 64) := by
    rw [UInt32.toNat_shiftLeft, UInt8.toNat_toUInt32, toNat_toUInt8 (by omega)]
    simp only [UInt32.reduceToNat, Nat.reduceMod, Nat.shiftLeft_eq]
    omega
  have hb2 : ((x % 64 * 4).toUInt8.toUInt32 <<< 8).toNat = x % 64 * 4 * 2 ^ 8 := by
    rw [UInt32.toNat_shiftLeft, UInt8.toNat_toUInt32, toNat_toUInt8 (by omega)]
    simp only [UInt32.reduceToNat, Nat.reduceMod, Nat.shiftLeft_eq]
    omega
  -- the two bytes and the low bits do not overlap, so or-ing them adds them
  have hc32 : (((x / 64).toUInt8.toUInt32 <<< 16 ||| (x % 64 * 4).toUInt8.toUInt32 <<< 8 |||
      ((0xDC00 + y).toUInt16.toUInt32 &&& ~~~0xdc00)) + 0x10000) =
      (0x10000 + x * 0x400 + y).toUInt32 := by
    rw [← UInt32.toNat_inj, UInt32.toNat_add, UInt32.toNat_or, UInt32.toNat_or, hb3, hb2, hbits,
      ← Nat.two_pow_add_eq_or_of_lt (by omega), show 2 ^ 16 * (x / 64) + x % 64 * 4 * 2 ^ 8 =
        2 ^ 10 * x by omega, ← Nat.two_pow_add_eq_or_of_lt (by omega), Nat.toUInt32,
      UInt32.toNat_ofNat']
    simp only [UInt32.reduceToNat]
    omega
  rw [c16rtomb, isInitial_high hx, decide_eq_false hx0, if_neg Bool.false_ne_true, hlow]
  simp only [Bool.not_true, Bool.false_eq_true, if_false]
  rw [show (MbState.ofBytes [0, 0, (x % 64 * 4).toUInt8, (x / 64).toUInt8]).getByte 3 =
      (x / 64).toUInt8 from rfl,
    show (MbState.ofBytes [0, 0, (x % 64 * 4).toUInt8, (x / 64).toUInt8]).getByte 2 =
      (x % 64 * 4).toUInt8 from rfl, hc32]

/-- For every supplementary code point from `0x10400` up, `c16rtomb` on its high surrogate
returns 0 and on its low surrogate writes the UTF-8 form of the code point, and leaves the state
initial. -/
theorem c16rtomb_surrogatePair (u : ℕ) (hu : 0x10400 ≤ u) (hu' : u ≤ 0x10FFFF) :
    ∃ state, c16rtomb (highSurrogate u) .initial = (.ok [], state) ∧
      ∃ bytes, c16rtomb (lowSurrogate u) state = (.ok bytes, .initial) ∧
        bytes.map UInt8.toNat = encode u := by
  have hx : (u - 0x10000) / 0x400 < 0x400 := by omega
  have hy : (u - 0x10000) % 0x400 < 0x400 := Nat.mod_lt _ (by norm_num)
  have hu32 : (u.toUInt32).toNat = u := by
    rw [Nat.toUInt32, UInt32.toNat_ofNat']
    omega
  obtain ⟨bytes, henc, hbytes⟩ := (c32rtomb_eq_encode u.toUInt32).1 (by omega)
  rw [hu32] at hbytes
  refine ⟨_, c16rtomb_high hx, bytes, ?_, hbytes⟩
  rw [lowSurrogate, c16rtomb_low hx (by omega) hy, show 0x10000 + (u - 0x10000) / 0x400 * 0x400 +
    (u - 0x10000) % 0x400 = u by omega, henc]

theorem c16rtomb_surrogatePair_tenABCD :
    ∃ state, c16rtomb 0xdbea .initial = (.ok [], state) ∧
      ∃ bytes, c16rtomb 0xdfcd state = (.ok bytes, .initial) ∧
        bytes.map UInt8.toNat = encode 0x10ABCD :=
  c16rtomb_surrogatePair 0x10ABCD (by norm_num) (by norm_num)

/-- For the code points `0x10000`–`0x103FF`, whose high surrogate is `0xD800`, `c16rtomb` keeps
nothing on the high surrogate and refuses the low one as unpaired. -/
theorem c16rtomb_surrogatePair_d800 (u : ℕ) (hu : 0x10000 ≤ u) (hu' : u < 0x10400) :
    c16rtomb (highSurrogate u) .initial = (.ok [], .initial) ∧
      c16rtomb (lowSurrogate u) .initial = (.error einval, .initial) := by
  have hx : (u - 0x10000) / 0x400 = 0 := by omega
  have hy : (u - 0x10000) % 0x400 < 0x400 := Nat.mod_lt _ (by norm_num)
  refine ⟨?_, ?_⟩
  · rw [highSurrogate, c16rtomb_high (by omega), hx]
    rfl
  · have hnotHigh : isHighSurrogate (lowSurrogate u) = false := by
      rw [Bool.eq_false_iff, ne_eq, isHighSurrogate_iff, lowSurrogate, toNat_toUInt16 (by omega)]
      omega
    have hlow : isLowSurrogate (lowSurrogate u) = true := by
      rw [isLowSurrogate_iff, lowSurrogate, toNat_toUInt16 (by omega)]
      omega
    rw [c16rtomb, if_pos MbState.isInitial_initial, hnotHigh, if_neg Bool.false_ne_true, if_pos hlow]

theorem c16rtomb_surrogatePair_d800_tenThousand :
    c16rtomb (highSurrogate 0x10000) .initial = (.ok [], .initial) ∧
      c16rtomb (lowSurrogate 0x10000) .initial = (.error einval, .initial) :=
  c16rtomb_surrogatePair_d800 0x10000 (by norm_num) (by norm_num)

end Pair

/-! ### `mbrtoc16` on a character -/

section Decode

variable {w : List ℕ}

theorem joinBytes (t : UInt16) :
    (((t &&& 0xff00) >>> 8).toUInt8.toUInt16 <<< 8) ||| (t &&& 0x00ff).toUInt8.toUInt16 = t := by
  have hhigh : (t &&& 0xff00).toNat = t.toNat % 2 ^ 16 / 2 ^ 8 * 2 ^ 8 := by
    rw [UInt16.toNat_and, show (0xff00 : UInt16).toNat = 2 ^ 16 - 1 - (2 ^ 8 - 1) from rfl,
      Align.and_band _ 16 8 (by norm_num)]
  have hlow : (t &&& 0x00ff).toNat = t.toNat % 2 ^ 8 := by
    rw [UInt16.toNat_and, show (0x00ff : UInt16).toNat = 2 ^ 8 - 1 from rfl,
      Nat.and_two_pow_sub_one_eq_mod]
  have ht := t.toNat_lt
  rw [← UInt16.toNat_inj, UInt16.toNat_or, UInt16.toNat_shiftLeft, UInt8.toNat_toUInt16,
    UInt8.toNat_toUInt16, UInt16.toNat_toUInt8, UInt16.toNat_toUInt8, UInt16.toNat_shiftRight,
    hhigh, hlow]
  simp only [UInt16.reduceToNat, Nat.reduceMod, Nat.shiftRight_eq_div_pow, Nat.shiftLeft_eq]
  rw [show t.toNat % 2 ^ 16 / 2 ^ 8 * 2 ^ 8 / 2 ^ 8 % 2 ^ 8 * 2 ^ 8 % 2 ^ 16 = 2 ^ 8 * (t.toNat / 2 ^ 8)
    by omega, ← Nat.two_pow_add_eq_or_of_lt (by omega)]
  omega

/-- `begin_surrogate` on a supplementary code point `c` stores its high surrogate and keeps the
low one in the state's first two bytes. -/
theorem beginSurrogate_eq {c : UInt32} (hc : 0x10000 ≤ c.toNat) (hc' : c.toNat ≤ 0x10FFFF)
    (nconv : ℕ) (state : MbState) :
    beginSurrogate c nconv state = (.unit (highSurrogate c.toNat) nconv,
      ((state.setByte 0 (lowSurrogate c.toNat &&& 0x00ff).toUInt8).setByte 1
        ((lowSurrogate c.toNat &&& 0xff00) >>> 8).toUInt8).setByte 3 (nconv.toUInt8 &&& 0xff)) := by
  have hv : (c - 0x10000).toNat = c.toNat - 0x10000 := by
    rw [UInt32.toNat_sub_of_le _ _ (by rw [UInt32.le_iff_toNat_le]; exact hc)]
    rfl
  have hhigh : ((((c - 0x10000) &&& 0xffc00) >>> 10) ||| 0xd800).toUInt16 = highSurrogate c.toNat := by
    have hband : ((c - 0x10000) &&& 0xffc00).toNat = (c.toNat - 0x10000) % 2 ^ 20 / 2 ^ 10 * 2 ^ 10 := by
      rw [UInt32.toNat_and, hv, show (0xffc00 : UInt32).toNat = 2 ^ 20 - 1 - (2 ^ 10 - 1) from rfl,
        Align.and_band _ 20 10 (by norm_num)]
    rw [highSurrogate, ← UInt16.toNat_inj, UInt32.toNat_toUInt16, UInt32.toNat_or,
      UInt32.toNat_shiftRight, hband, toNat_toUInt16 (by omega)]
    simp only [UInt32.reduceToNat, Nat.reduceMod, Nat.shiftRight_eq_div_pow]
    rw [Nat.or_comm, show 0xd800 = 2 ^ 11 * 27 by norm_num, ← Nat.two_pow_add_eq_or_of_lt (by omega)]
    omega
  have hlow : ((c - 0x10000 &&& 0x3ff) ||| 0xdc00).toUInt16 = lowSurrogate c.toNat := by
    rw [lowSurrogate, ← UInt16.toNat_inj, UInt32.toNat_toUInt16, UInt32.toNat_or, UInt32.toNat_and,
      hv, show (0x3ff : UInt32).toNat = 2 ^ 10 - 1 from rfl, Nat.and_two_pow_sub_one_eq_mod,
      toNat_toUInt16 (by omega)]
    simp only [UInt32.reduceToNat]
    rw [Nat.or_comm, show 0xdc00 = 2 ^ 10 * 55 by norm_num,
      ← Nat.two_pow_add_eq_or_of_lt (Nat.mod_lt _ (by norm_num))]
    omega
  rw [beginSurrogate]
  simp only [hhigh, hlow]

/-- A supplementary character, from the initial state: the call returns its high surrogate and
the four bytes it took, and the next call, on any bytes, returns its low surrogate as
`(size_t)-3` and leaves the state initial. -/
theorem mbrtoc16_supplementary (hw : Utf8.Char w) (hbig : 0x10000 ≤ value w) {bytes : List UInt8}
    (hbytes : bytes.map UInt8.toNat = w) (rest : List UInt8) :
    ∃ state, mbrtoc16 (bytes ++ rest) .initial = (.unit (highSurrogate (value w)) 4, state) ∧
      ∀ s, mbrtoc16 s state = (.trail (lowSurrogate (value w)), .initial) := by
  have hscalar := hw.isScalar
  have hlen : bytes.length = 4 := by
    rw [← List.length_map (f := UInt8.toNat), hbytes]
    match w, hw, hbig with
    | [_], .one h, hbig => simp only [Utf8.value] at hbig; omega
    | [_, _], hw, hbig => have := (Utf8.Char.inv_two hw); simp only [Utf8.value] at hbig; omega
    | [_, _, _], hw, hbig => have := (Utf8.Char.inv_three hw); simp only [Utf8.value] at hbig; omega
    | [_, _, _, _], _, _ => rfl
  have hne : bytes ≠ [] := fun h ↦ by simp [h] at hlen
  have hv32 := toUInt32_value hw
  have hcall := mbrtoc32_char hw (u := []) (v := bytes) (by simpa using hbytes) hne rest
  rw [MbState.ofBytes_nil, if_neg (by omega), hlen] at hcall
  -- the state that `begin_surrogate` leaves: the low surrogate, and the four bytes taken
  let pending : MbState := ((MbState.initial.setByte 0 (lowSurrogate (value w) &&& 0x00ff).toUInt8).setByte 1
    ((lowSurrogate (value w) &&& 0xff00) >>> 8).toUInt8).setByte 3 ((4 : ℕ).toUInt8 &&& 0xff)
  have hpartial : mbspartialc16 pending = true := rfl
  refine ⟨pending, ?_, fun s ↦ ?_⟩
  · rw [mbrtoc16, if_neg (by decide), hcall]
    simp only [OfNat.ofNat_ne_zero, if_false]
    have hlt : ¬ (value w).toUInt32 < 0x10000 := by
      simp only [UInt32.lt_iff_toNat_lt, hv32, UInt32.reduceToNat]
      omega
    have hgt : ¬ 0x10ffff < (value w).toUInt32 := by
      simp only [UInt32.lt_iff_toNat_lt, hv32, UInt32.reduceToNat]
      unfold IsScalar at hscalar
      omega
    rw [if_neg hlt, if_neg hgt,
      beginSurrogate_eq (by rw [hv32]; exact hbig) (by rw [hv32]; exact hscalar.1), hv32]
  · have hbyte1 : pending.getByte 1 = ((lowSurrogate (value w) &&& 0xff00) >>> 8).toUInt8 := rfl
    have hbyte0 : pending.getByte 0 = (lowSurrogate (value w) &&& 0x00ff).toUInt8 := rfl
    rw [mbrtoc16, if_pos hpartial, finishSurrogate, hbyte1, hbyte0, joinBytes]

theorem mbrtoc16_supplementary_tenABCD :
    ∃ state, mbrtoc16 [0xF4, 0x8A, 0xAF, 0x8D] .initial = (.unit (highSurrogate 0x10ABCD) 4, state) ∧
      ∀ s, mbrtoc16 s state = (.trail (lowSurrogate 0x10ABCD), .initial) := by
  have hw : Utf8.Char [0xF4, 0x8A, 0xAF, 0x8D] :=
    .fourF4 (by norm_num) (by norm_num) (by norm_num [Utf8.Tail]) (by norm_num [Utf8.Tail])
  exact mbrtoc16_supplementary hw (by decide)
    (show [(0xF4 : UInt8), 0x8A, 0xAF, 0x8D].map UInt8.toNat = [0xF4, 0x8A, 0xAF, 0x8D] from rfl) []

/-- A character of the basic plane other than `NUL`, from the initial state, comes back whole
with the bytes it took. -/
theorem mbrtoc16_basic (hw : Utf8.Char w) (hsmall : value w < 0x10000) (hpos : value w ≠ 0)
    {bytes : List UInt8} (hbytes : bytes.map UInt8.toNat = w) (rest : List UInt8) :
    mbrtoc16 (bytes ++ rest) .initial = (.unit (value w).toUInt16 bytes.length, .initial) := by
  have hne : bytes ≠ [] := fun h ↦ hw.ne_nil (by rw [← hbytes, h]; rfl)
  have hv32 := toUInt32_value hw
  have hcall := mbrtoc32_char hw (u := []) (v := bytes) (by simpa using hbytes) hne rest
  rw [MbState.ofBytes_nil, if_neg hpos] at hcall
  have hlen : bytes.length ≠ 0 := fun h ↦ hne (List.eq_nil_of_length_eq_zero h)
  have hlt : (value w).toUInt32 < 0x10000 := by
    simp only [UInt32.lt_iff_toNat_lt, hv32, UInt32.reduceToNat]
    exact hsmall
  have hunit : (value w).toUInt32.toUInt16 = (value w).toUInt16 := by
    rw [← UInt16.toNat_inj, UInt32.toNat_toUInt16, hv32, toNat_toUInt16 (by omega)]
    omega
  rw [mbrtoc16, if_neg (by decide), hcall]
  simp only [hlen, if_false, hlt, if_true, hunit]

theorem mbrtoc16_nul (rest : List UInt8) : mbrtoc16 (0 :: rest) .initial = (.nul, .initial) := rfl

end Decode

end Bionic.Uchar
