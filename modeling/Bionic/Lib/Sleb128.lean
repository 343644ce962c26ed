import Mathlib.Data.UInt
import Mathlib.Data.BitVec
import Mathlib.Tactic.Ring

/-!
# Signed LEB128

A signed LEB128 number is written seven bits at a time, lowest first, in bytes whose bit 7 says
that another byte follows; bit 6 of the last byte is the sign. `encode` writes the shortest such
encoding of an integer, and `encode_of_small`, `encode_of_large` are the two equations that the
proofs about it use; the `digit` lemmas give the bits a decoder tests.

A decoder assembles the digits in a 64-bit word with `|` at increasing shifts and finishes with
`| -(1 << shift)` for a negative number. While only the bits below the shift are set, both are
additions in the ring of words: `or_shiftLeft_eq_add` and `or_neg_shiftLeft_eq_sub`, and in
`Word` the same for a word of any width `w` (`BitVec w`), with `BitVec.twoPow w s` as the weight of
bit `s`.
-/

set_option autoImplicit false
set_option relaxedAutoImplicit false

namespace Bionic.Lib.Sleb128

open scoped UInt64.CommRing

/-! ### The encoding -/

/-- The low seven bits of `x`: the digit that the first byte of its encoding carries. -/
def digit (x : ℤ) : UInt8 := UInt8.ofNat (x % 128).toNat

/-- The encoding of `x` in at most `fuel` bytes: one byte once `x` fits in seven bits with its
sign, and otherwise a byte with bit 7 set followed by the encoding of `x / 128`. -/
def encodeAux : ℕ → ℤ → List UInt8
  | 0, _ => []
  | fuel + 1, x =>
    if -64 ≤ x ∧ x < 64 then [digit x] else (digit x ||| 128) :: encodeAux fuel (x / 128)

/-- The shortest signed LEB128 encoding of `x`; `|x| + 1` bytes are always enough. -/
def encode (x : ℤ) : List UInt8 := encodeAux (x.natAbs + 1) x

theorem natAbs_div_lt {x : ℤ} (hx : ¬(-64 ≤ x ∧ x < 64)) : (x / 128).natAbs < x.natAbs := by
  omega

theorem encodeAux_congr (fuel fuel' : ℕ) (x : ℤ) (hfuel : x.natAbs < fuel)
    (hfuel' : x.natAbs < fuel') : encodeAux fuel x = encodeAux fuel' x := by
  induction fuel generalizing fuel' x with
  | zero => omega
  | succ fuel ih =>
    obtain ⟨fuel', rfl⟩ : ∃ f, fuel' = f + 1 := ⟨fuel' - 1, by omega⟩
    by_cases hsmall : -64 ≤ x ∧ x < 64
    · simp only [encodeAux, if_pos hsmall]
    · have hlt := natAbs_div_lt hsmall
      simp only [encodeAux, if_neg hsmall, ih fuel' (x / 128) (by omega) (by omega)]

theorem encode_of_small {x : ℤ} (hx : -64 ≤ x ∧ x < 64) : encode x = [digit x] := by
  simp only [encode, encodeAux, if_pos hx]

theorem encode_of_large {x : ℤ} (hx : ¬(-64 ≤ x ∧ x < 64)) :
    encode x = (digit x ||| 128) :: encode (x / 128) := by
  have hlt := natAbs_div_lt hx
  simp only [encode, encodeAux, if_neg hx,
    encodeAux_congr x.natAbs ((x / 128).natAbs + 1) (x / 128) hlt (by omega)]

theorem encode_ne_nil (x : ℤ) : encode x ≠ [] := by
  by_cases hsmall : -64 ≤ x ∧ x < 64
  · simp [encode_of_small hsmall]
  · simp [encode_of_large hsmall]

/-! ### The bits of a digit -/

theorem bits_of_lt_128 : ∀ n < 128, n &&& 127 = n ∧ n &&& 128 = 0 ∧
    (n ||| 128) &&& 127 = n ∧ (n ||| 128) &&& 128 ≠ 0 ∧ (n &&& 64 = 0 ↔ n < 64) := by
  decide

theorem toNat_digit (x : ℤ) : (digit x).toNat = (x % 128).toNat := by
  rw [digit, UInt8.toNat_ofNat']
  omega

theorem toNat_digit_lt (x : ℤ) : (digit x).toNat < 128 := by
  rw [toNat_digit]
  omega

theorem digit_and_127 (x : ℤ) : digit x &&& 127 = digit x := by
  apply UInt8.toNat_inj.mp
  rw [UInt8.toNat_and]
  exact (bits_of_lt_128 _ (toNat_digit_lt x)).1

theorem digit_and_128 (x : ℤ) : digit x &&& 128 = 0 := by
  apply UInt8.toNat_inj.mp
  rw [UInt8.toNat_and]
  exact (bits_of_lt_128 _ (toNat_digit_lt x)).2.1

theorem digit_or_128_and_127 (x : ℤ) : (digit x ||| 128) &&& 127 = digit x := by
  apply UInt8.toNat_inj.mp
  rw [UInt8.toNat_and, UInt8.toNat_or]
  exact (bits_of_lt_128 _ (toNat_digit_lt x)).2.2.1

theorem digit_or_128_and_128 (x : ℤ) : (digit x ||| 128) &&& 128 ≠ 0 := by
  rw [ne_eq, ← UInt8.toNat_inj, UInt8.toNat_and, UInt8.toNat_or]
  exact (bits_of_lt_128 _ (toNat_digit_lt x)).2.2.2.1

theorem digit_and_64_eq_zero_iff {x : ℤ} (hx : -64 ≤ x ∧ x < 64) :
    digit x &&& 64 = 0 ↔ 0 ≤ x := by
  have h64 : (64 : UInt8).toNat = 64 := rfl
  have h0 : (0 : UInt8).toNat = 0 := rfl
  rw [← UInt8.toNat_inj, UInt8.toNat_and, h64, h0,
    (bits_of_lt_128 _ (toNat_digit_lt x)).2.2.2.2, toNat_digit]
  omega

theorem toUInt64_digit (x : ℤ) : (digit x).toUInt64 = ((x % 128 : ℤ) : UInt64) := by
  apply UInt64.toNat_inj.mp
  have hcast : ((x % 128 : ℤ) : UInt64) = (((x % 128).toNat : ℕ) : UInt64) := by
    have h := Int.cast_natCast (R := UInt64) (x % 128).toNat
    rwa [Int.toNat_of_nonneg (Int.emod_nonneg x (by norm_num))] at h
  rw [UInt8.toNat_toUInt64, hcast, toNat_digit]
  exact (UInt64.toNat_ofNat'.trans (Nat.mod_eq_of_lt (by omega))).symm

/-! ### Assembling digits in a word -/

theorem toNat_two_pow (s : ℕ) (hs : s < 64) : ((2 : UInt64) ^ s).toNat = 2 ^ s := by
  have hcast : ((2 ^ s : ℕ) : UInt64) = (2 : UInt64) ^ s := by push_cast; rfl
  rw [← hcast]
  exact UInt64.toNat_ofNat'.trans (Nat.mod_eq_of_lt (Nat.pow_lt_pow_right (by norm_num) hs))

theorem intCast_toInt64_toInt (w : UInt64) : ((w.toInt64.toInt : ℤ) : UInt64) = w := by
  apply UInt64.toBitVec_inj.mp
  rw [UInt64.toBitVec_intCast, Int64.toInt, UInt64.toBitVec_toInt64]
  exact BitVec.ofInt_toInt

theorem two_pow_64 : (2 : UInt64) ^ 64 = 0 := by
  apply UInt64.toNat_inj.mp
  rw [pow_succ, UInt64.toNat_mul, toNat_two_pow 63 (by norm_num)]
  rfl

theorem toNat_or_of_lt_of_dvd {v w : UInt64} {s : ℕ} (hv : v.toNat < 2 ^ s)
    (hw : 2 ^ s ∣ w.toNat) : (v ||| w).toNat = v.toNat + w.toNat := by
  obtain ⟨q, hq⟩ := hw
  rw [UInt64.toNat_or, hq, Nat.or_comm, ← Nat.two_pow_add_eq_or_of_lt hv, Nat.add_comm]

theorem or_eq_add_of_lt_of_dvd {v w : UInt64} {s : ℕ} (hv : v.toNat < 2 ^ s)
    (hw : 2 ^ s ∣ w.toNat) : v ||| w = v + w := by
  have hor := toNat_or_of_lt_of_dvd hv hw
  apply UInt64.toNat_inj.mp
  rw [hor, UInt64.toNat_add, Nat.mod_eq_of_lt (hor ▸ (v ||| w).toNat_lt)]

theorem shiftLeft_eq_mul (w : UInt64) (s : ℕ) (hs : s < 64) :
    w <<< UInt64.ofNat s = w * 2 ^ s := by
  apply UInt64.toNat_inj.mp
  have hshift : (UInt64.ofNat s).toNat % 64 = s := by
    rw [UInt64.toNat_ofNat']
    omega
  rw [UInt64.toNat_shiftLeft, hshift, Nat.shiftLeft_eq, UInt64.toNat_mul, toNat_two_pow s hs]

theorem dvd_toNat_mul_two_pow (w : UInt64) (s : ℕ) (hs : s < 64) :
    2 ^ s ∣ (w * 2 ^ s).toNat := by
  rw [UInt64.toNat_mul, toNat_two_pow s hs]
  have h64 : 2 ^ s ∣ 2 ^ 64 := Nat.pow_dvd_pow 2 hs.le
  exact (Nat.dvd_mod_iff h64).mpr (Dvd.intro_left _ rfl)

theorem or_shiftLeft_eq_add (v w : UInt64) (s : ℕ) (hs : s < 64) (hv : v.toNat < 2 ^ s) :
    v ||| (w <<< UInt64.ofNat s) = v + w * 2 ^ s := by
  rw [shiftLeft_eq_mul w s hs, or_eq_add_of_lt_of_dvd hv (dvd_toNat_mul_two_pow w s hs)]

theorem toNat_or_shiftLeft_lt (v w : UInt64) (s : ℕ) (hs : s < 64) (hv : v.toNat < 2 ^ s)
    (hw : w.toNat < 128) : (v ||| (w <<< UInt64.ofNat s)).toNat < 2 ^ (s + 7) := by
  rw [shiftLeft_eq_mul w s hs, toNat_or_of_lt_of_dvd hv (dvd_toNat_mul_two_pow w s hs),
    UInt64.toNat_mul, toNat_two_pow s hs]
  have hmul : w.toNat * 2 ^ s % 2 ^ 64 ≤ 127 * 2 ^ s :=
    (Nat.mod_le _ _).trans (Nat.mul_le_mul_right _ (by omega))
  rw [pow_add]
  omega

theorem or_neg_shiftLeft_eq_sub (v : UInt64) (s : ℕ) (hs : s < 64) (hv : v.toNat < 2 ^ s) :
    v ||| -(1 <<< UInt64.ofNat s) = v - 2 ^ s := by
  have hneg : -(1 <<< UInt64.ofNat s) = -1 * 2 ^ s := by
    rw [shiftLeft_eq_mul 1 s hs]
    ring
  rw [hneg, or_eq_add_of_lt_of_dvd hv (dvd_toNat_mul_two_pow (-1) s hs)]
  ring

/-! ### Assembling digits in a word of any width -/

namespace Word

variable {w : ℕ}

theorem or_eq_add_of_lt_of_dvd {v u : BitVec w} {s : ℕ} (hv : v.toNat < 2 ^ s)
    (hu : 2 ^ s ∣ u.toNat) : v ||| u = v + u := by
  obtain ⟨q, hq⟩ := hu
  have hor : (v ||| u).toNat = v.toNat + u.toNat := by
    rw [BitVec.toNat_or, hq, Nat.or_comm, ← Nat.two_pow_add_eq_or_of_lt hv, Nat.add_comm]
  apply BitVec.eq_of_toNat_eq
  rw [hor, BitVec.toNat_add, Nat.mod_eq_of_lt (hor ▸ (v ||| u).isLt)]

theorem toNat_twoPow_of_lt {s : ℕ} (hs : s < w) : (BitVec.twoPow w s).toNat = 2 ^ s := by
  rw [BitVec.toNat_twoPow_eq_ite, if_pos hs]

theorem twoPow_of_le {s : ℕ} (hs : w ≤ s) : BitVec.twoPow w s = 0 := by
  apply BitVec.eq_of_toNat_eq
  rw [BitVec.toNat_twoPow_eq_ite, if_neg (by omega)]
  rfl

theorem twoPow_add_seven (s : ℕ) : BitVec.twoPow w (s + 7) = BitVec.twoPow w s * 128 := by
  have h128 : BitVec.twoPow w 7 = 128 := by
    apply BitVec.eq_of_toNat_eq
    rw [BitVec.toNat_twoPow]
    rfl
  rw [← BitVec.twoPow_mul_twoPow_eq, h128]

theorem dvd_toNat_mul_twoPow (u : BitVec w) {s : ℕ} (hs : s < w) :
    2 ^ s ∣ (u * BitVec.twoPow w s).toNat := by
  rw [BitVec.toNat_mul, toNat_twoPow_of_lt hs]
  exact (Nat.dvd_mod_iff (Nat.pow_dvd_pow 2 hs.le)).mpr (Dvd.intro_left _ rfl)

theorem or_shiftLeft_eq_add (v u : BitVec w) {s : ℕ} (hs : s < w) (hv : v.toNat < 2 ^ s) :
    v ||| (u <<< s) = v + u * BitVec.twoPow w s := by
  rw [BitVec.shiftLeft_eq_mul_twoPow, or_eq_add_of_lt_of_dvd hv (dvd_toNat_mul_twoPow u hs)]

theorem toNat_or_shiftLeft_lt (v u : BitVec w) {s : ℕ} (hs : s < w) (hv : v.toNat < 2 ^ s)
    (hu : u.toNat < 128) : (v ||| (u <<< s)).toNat < 2 ^ (s + 7) := by
  rw [or_shiftLeft_eq_add v u hs hv, BitVec.toNat_add, BitVec.toNat_mul, toNat_twoPow_of_lt hs]
  have hmul : u.toNat * 2 ^ s % 2 ^ w ≤ 127 * 2 ^ s :=
    (Nat.mod_le _ _).trans (Nat.mul_le_mul_right _ (by omega))
  rw [pow_add]
  exact (Nat.mod_le _ _).trans_lt (by omega)

theorem or_neg_shiftLeft_eq_sub (v : BitVec w) {s : ℕ} (hs : s < w) (hv : v.toNat < 2 ^ s) :
    v ||| -(1#w <<< s) = v - BitVec.twoPow w s := by
  have hneg : -(1#w <<< s) = -1 * BitVec.twoPow w s := by
    rw [← BitVec.twoPow_eq]
    ring
  rw [hneg, or_eq_add_of_lt_of_dvd hv (dvd_toNat_mul_twoPow (-1) hs)]
  ring

end Word

end Bionic.Lib.Sleb128
