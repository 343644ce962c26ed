import Bionic.Lib.Sleb128
import Mathlib.Algebra.Order.Ring.Int

/-!
# `sleb128_decoder` for a `size_t` of any width

`sleb128_decoder::pop_front` assembles a signed LEB128 number in a `size_t`. Here the word has `w`
bits (`BitVec w`), so one definition is the decoder of the 32-bit and of the 64-bit linker;
`PackedRelocs` reads the packed relocations with it at `w = 64`.

`popFront_minimal_encoding`: for every `w`-bit value, read as a signed number, `pop_front` reads it
back from its shortest encoding, whatever follows, and stops exactly after the encoding. The
last byte of the encoding may hold bits above the word (the tenth byte of `INT64_MIN`, the fifth of
`INT32_MIN`): then the shift has reached the width, the sign extension is skipped, and the bits
that fall off the word are the ones that would have been sign bits.
-/

set_option autoImplicit false
set_option relaxedAutoImplicit false

namespace Bionic.Linker.Sleb128

open Bionic.Lib.Sleb128

section Decoder

variable (w : ℕ)

/-- The loop of `sleb128_decoder::pop_front` with a `w`-bit `size_t`: the value assembled so far,
the shift, the last byte read and the rest of the buffer. Reading at `end_` is fatal. A shift of
`w` or more is undefined in C; the model shifts modulo `w`, as the hardware does, and only an
encoding longer than the shortest one reaches it. -/
def popFrontLoop (value : BitVec w) (shift : ℕ) :
    List UInt8 → Option (BitVec w × ℕ × UInt8 × List UInt8)
  | [] => none
  | byte :: rest =>
    let value := value ||| (BitVec.ofNat w (byte &&& 127).toNat <<< (shift % w))
    if byte &&& 128 ≠ 0 then popFrontLoop value (shift + 7) rest
    else some (value, shift + 7, byte, rest)

/-- The sign extension at the end of `pop_front`. -/
def signExtend (value : BitVec w) (shift : ℕ) (byte : UInt8) : BitVec w :=
  if shift < w ∧ byte &&& 64 ≠ 0 then value ||| -(1#w <<< shift) else value

/-- `pop_front` continued from a partly assembled value. -/
def popFrontFrom (value : BitVec w) (shift : ℕ) (buffer : List UInt8) :
    Option (BitVec w × List UInt8) :=
  (popFrontLoop w value shift buffer).map fun (value, shift, byte, rest) ↦
    (signExtend w value shift byte, rest)

/-- `sleb128_decoder::pop_front`: the next value and the rest of the buffer. -/
def popFront (buffer : List UInt8) : Option (BitVec w × List UInt8) := popFrontFrom w 0 0 buffer

end Decoder

section Steps

variable {w : ℕ}

theorem popFrontFrom_cons_of_more {byte : UInt8} (hbyte : byte &&& 128 ≠ 0) (value : BitVec w)
    (shift : ℕ) (rest : List UInt8) :
    popFrontFrom w value shift (byte :: rest) =
      popFrontFrom w (value ||| (BitVec.ofNat w (byte &&& 127).toNat <<< (shift % w))) (shift + 7)
        rest := by
  simp only [popFrontFrom, popFrontLoop, hbyte, ne_eq, not_false_eq_true, if_true]

theorem popFrontFrom_cons_of_last {byte : UInt8} (hbyte : byte &&& 128 = 0) (value : BitVec w)
    (shift : ℕ) (rest : List UInt8) :
    popFrontFrom w value shift (byte :: rest) =
      some (signExtend w (value ||| (BitVec.ofNat w (byte &&& 127).toNat <<< (shift % w)))
        (shift + 7) byte, rest) := by
  simp only [popFrontFrom, popFrontLoop, hbyte, ne_eq, not_true_eq_false, if_false,
    Option.map_some]

theorem ofNat_digit (x : ℤ) : BitVec.ofNat w (digit x).toNat = ((x % 128 : ℤ) : BitVec w) := by
  have hnonneg : 0 ≤ x % 128 := Int.emod_nonneg x (by norm_num)
  rw [toNat_digit, ← Int.toNat_of_nonneg hnonneg, Int.toNat_natCast, Int.cast_natCast]
  rfl

theorem toNat_ofNat_digit_lt (x : ℤ) : (BitVec.ofNat w (digit x).toNat).toNat < 128 := by
  rw [BitVec.toNat_ofNat]
  exact (Nat.mod_le _ _).trans_lt (toNat_digit_lt x)

end Steps

section Encoding

variable {w : ℕ}

open Word

/-- The last byte of an encoding: the sign extension, or the end of the word, leaves the digit
at its weight. -/
theorem popFrontFrom_encode_of_small {x : ℤ} (hx : -64 ≤ x ∧ x < 64) (value : BitVec w)
    (shift : ℕ) (hshift : shift < w) (hvalue : value.toNat < 2 ^ shift) (rest : List UInt8) :
    popFrontFrom w value shift (encode x ++ rest) =
      some (value + (x : BitVec w) * BitVec.twoPow w shift, rest) := by
  have hbound := toNat_or_shiftLeft_lt value _ hshift hvalue (toNat_ofNat_digit_lt x)
  rw [encode_of_small hx, List.singleton_append, popFrontFrom_cons_of_last (digit_and_128 x),
    digit_and_127, Nat.mod_eq_of_lt hshift]
  rw [or_shiftLeft_eq_add _ _ hshift hvalue, ofNat_digit] at hbound ⊢
  unfold signExtend
  by_cases hsign : 0 ≤ x
  · -- a non-negative digit is the number itself
    have hdigit : x % 128 = x := Int.emod_eq_of_lt hsign (by omega)
    rw [if_neg (by rw [(digit_and_64_eq_zero_iff hx).mpr hsign]; simp), hdigit]
  · have hdigit : x % 128 = x + 128 := by omega
    have hbit : digit x &&& 64 ≠ 0 := fun h ↦ hsign ((digit_and_64_eq_zero_iff hx).mp h)
    rw [hdigit] at hbound ⊢
    -- the digit stands for `x + 128`: `128` at weight `shift` is bit `shift + 7`
    have hsplit : value + ((x + 128 : ℤ) : BitVec w) * BitVec.twoPow w shift =
        value + (x : BitVec w) * BitVec.twoPow w shift + BitVec.twoPow w (shift + 7) := by
      rw [twoPow_add_seven]
      push_cast
      ring
    by_cases hwide : shift + 7 < w
    · -- the bits from `shift + 7` up are set to one
      rw [if_pos ⟨hwide, hbit⟩, or_neg_shiftLeft_eq_sub _ hwide hbound, hsplit, add_sub_cancel_right]
    · -- the word ends below bit `shift + 7`
      rw [if_neg fun h ↦ hwide h.1, hsplit, twoPow_of_le (s := shift + 7) (by omega), add_zero]

/-- `pop_front` continued at `shift` reads back every number that fits in the bits left; the
induction is on the bytes of the encoding. -/
theorem popFrontFrom_encode_append (n : ℕ) {x : ℤ} (hx : -(64 * 128 ^ n) ≤ x ∧ x < 64 * 128 ^ n)
    (value : BitVec w) (shift : ℕ) (hshift : shift + 7 * n < w) (hvalue : value.toNat < 2 ^ shift)
    (rest : List UInt8) :
    popFrontFrom w value shift (encode x ++ rest) =
      some (value + (x : BitVec w) * BitVec.twoPow w shift, rest) := by
  induction n generalizing x value shift with
  | zero =>
    exact popFrontFrom_encode_of_small (by simpa using hx) value shift (by omega) hvalue rest
  | succ n ih =>
    by_cases hsmall : -64 ≤ x ∧ x < 64
    · exact popFrontFrom_encode_of_small hsmall value shift (by omega) hvalue rest
    · have hnext := toNat_or_shiftLeft_lt value _ (by omega) hvalue (toNat_ofNat_digit_lt x)
      have hpow : (128 : ℤ) ^ (n + 1) = 128 * 128 ^ n := by ring
      rw [encode_of_large hsmall, List.cons_append,
        popFrontFrom_cons_of_more (digit_or_128_and_128 x), digit_or_128_and_127,
        Nat.mod_eq_of_lt (by omega), ih (by omega) _ (shift + 7) (by omega) hnext,
        or_shiftLeft_eq_add _ _ (by omega) hvalue, ofNat_digit, twoPow_add_seven]
      -- the digit and the rest of the number at their weights make up the number
      have hx : (x : BitVec w) = ((x % 128 : ℤ) : BitVec w) + 128 * ((x / 128 : ℤ) : BitVec w) := by
        conv_lhs => rw [← Int.emod_add_mul_ediv x 128]
        push_cast
        ring
      have hword : value + ((x % 128 : ℤ) : BitVec w) * BitVec.twoPow w shift +
          ((x / 128 : ℤ) : BitVec w) * (BitVec.twoPow w shift * 128) =
          value + (x : BitVec w) * BitVec.twoPow w shift := by
        rw [hx]
        ring
      rw [hword]

/-- For every `w`-bit value, read as a signed number, `pop_front` reads it back from its shortest
signed LEB128 encoding, whatever follows, and leaves the cursor at the first byte after the
encoding; it never reads past the encoding and never aborts on it. -/
theorem popFront_minimal_encoding (v : BitVec w) (rest : List UInt8) :
    popFront w (encode v.toInt ++ rest) = some (v, rest) := by
  rcases Nat.eq_zero_or_pos w with rfl | hw
  · -- a word of no bits: the encoding is the one byte `0`, and there is one word
    obtain rfl : v = BitVec.nil := BitVec.eq_nil v
    rw [show (BitVec.nil : BitVec 0).toInt = 0 from rfl, encode_of_small (by decide),
      List.singleton_append, popFront, popFrontFrom_cons_of_last (digit_and_128 0)]
    exact congrArg (fun b ↦ some (b, rest)) (BitVec.eq_nil _)
  · -- the encoding has at most `(w - 1) / 7 + 1` bytes, the last one read at a shift below `w`
    obtain ⟨k, hk⟩ : ∃ k, k = (w - 1) / 7 := ⟨_, rfl⟩
    have hpow : (2 : ℤ) ^ (w - 1) ≤ 64 * 128 ^ k := by
      have h : (64 : ℤ) * 128 ^ k = 2 ^ (7 * k + 6) := by
        rw [pow_add, pow_mul, mul_comm]
        norm_num
      rw [h]
      exact pow_le_pow_right₀ (by norm_num) (by omega)
    have hrange : -(64 * 128 ^ k) ≤ v.toInt ∧ v.toInt < 64 * 128 ^ k := by
      have := BitVec.le_toInt v
      have := BitVec.toInt_lt (x := v)
      constructor <;> omega
    rw [popFront, popFrontFrom_encode_append k hrange 0 0 (by omega) (by simp), BitVec.twoPow_zero,
      zero_add, BitVec.mul_one]
    exact congrArg (fun b ↦ some (b, rest)) BitVec.ofInt_toInt

end Encoding

end Bionic.Linker.Sleb128
