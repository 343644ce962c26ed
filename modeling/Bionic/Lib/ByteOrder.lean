import Mathlib.Data.Nat.Bitwise
import Bionic.Lib.Align

/-!
# Byte order

The bytes of a number from the least significant one (`leBytes`) or from the most significant one
(`beBytes`), the byte reversals `bswap16` and `bswap32`, and what a store of a word byte by byte
writes: the bytes of `x`, least significant first (`store32`), and of `bswap32 x` the bytes of
`x` most significant first (`store32_bswap32`). A load that puts bytes together with shifts and
`|||` reads them back as a number (`toNat_load32`).

`|||` of two numbers with no bit in common is their sum (`or_eq_add_of_dvd_of_lt`); every lemma
here reduces to that and to `omega`.
-/

set_option autoImplicit false

namespace Bionic.Lib.ByteOrder

/-- The low `k` bytes of `n`, least significant first. -/
def leBytes (k n : ℕ) : List UInt8 := (List.range k).map fun i ↦ (n / 2 ^ (8 * i)).toUInt8

/-- The low `k` bytes of `n`, most significant first. -/
def beBytes (k n : ℕ) : List UInt8 := (leBytes k n).reverse

@[simp]
theorem length_leBytes (k n : ℕ) : (leBytes k n).length = k := by
  simp [leBytes]

theorem leBytes_two (n : ℕ) : leBytes 2 n = [n.toUInt8, (n / 2 ^ 8).toUInt8] := by
  simp [leBytes, List.range_succ]

theorem leBytes_four (n : ℕ) :
    leBytes 4 n = [n.toUInt8, (n / 2 ^ 8).toUInt8, (n / 2 ^ 16).toUInt8, (n / 2 ^ 24).toUInt8] := by
  simp [leBytes, List.range_succ]

@[simp]
theorem length_beBytes (k n : ℕ) : (beBytes k n).length = k := by
  simp [beBytes]

/-- Byte reversal of a 16-bit word. -/
def bswap16 (x : UInt16) : UInt16 := (x <<< 8) ||| (x >>> 8)

/-- Byte reversal of a 32-bit word. -/
def bswap32 (x : UInt32) : UInt32 :=
  (x <<< (24 : UInt32)) ||| ((x &&& (0xff00 : UInt32)) <<< (8 : UInt32)) |||
    ((x >>> (8 : UInt32)) &&& (0xff00 : UInt32)) ||| (x >>> (24 : UInt32))

theorem or_eq_add_of_dvd_of_lt {a b : ℕ} (k : ℕ) (ha : 2 ^ k ∣ a) (hb : b < 2 ^ k) :
    a ||| b = a + b := by
  obtain ⟨q, rfl⟩ := ha
  exact (Nat.two_pow_add_eq_or_of_lt hb q).symm

theorem or_eq_add_of_lt_of_dvd {a b : ℕ} (k : ℕ) (ha : a < 2 ^ k) (hb : 2 ^ k ∣ b) :
    a ||| b = a + b := by
  rw [Nat.or_comm, or_eq_add_of_dvd_of_lt k hb ha, Nat.add_comm]

theorem toNat_bswap16 (x : UInt16) :
    (bswap16 x).toNat = x.toNat / 2 ^ 8 + x.toNat % 2 ^ 8 * 2 ^ 8 := by
  have hx : x.toNat < 2 ^ 16 := x.toNat_lt
  have hhigh : (x <<< 8).toNat = x.toNat % 2 ^ 8 * 2 ^ 8 := by
    rw [UInt16.toNat_shiftLeft]
    simp only [UInt16.reduceToNat, Nat.reduceMod, Nat.shiftLeft_eq]
    omega
  have hlow : (x >>> 8).toNat = x.toNat / 2 ^ 8 := by
    rw [UInt16.toNat_shiftRight]
    simp only [UInt16.reduceToNat, Nat.reduceMod, Nat.shiftRight_eq_div_pow]
  rw [bswap16, UInt16.toNat_or, hhigh, hlow,
    or_eq_add_of_dvd_of_lt 8 (Dvd.intro_left _ rfl) (by omega), Nat.add_comm]

theorem toNat_bswap32 (x : UInt32) :
    (bswap32 x).toNat = x.toNat / 2 ^ 24 + x.toNat / 2 ^ 16 % 2 ^ 8 * 2 ^ 8 +
      x.toNat / 2 ^ 8 % 2 ^ 8 * 2 ^ 16 + x.toNat % 2 ^ 8 * 2 ^ 24 := by
  have hx : x.toNat < 2 ^ 32 := x.toNat_lt
  have hmask : (0xff00 : UInt32).toNat = 2 ^ 16 - 1 - (2 ^ 8 - 1) := rfl
  -- each of the four terms moves one byte, so no two of them share a bit
  have h1 : (x <<< (24 : UInt32)).toNat = x.toNat % 2 ^ 8 * 2 ^ 24 := by
    rw [UInt32.toNat_shiftLeft]
    simp only [UInt32.reduceToNat, Nat.reduceMod, Nat.shiftLeft_eq]
    omega
  have h2 : ((x &&& (0xff00 : UInt32)) <<< (8 : UInt32)).toNat =
      x.toNat / 2 ^ 8 % 2 ^ 8 * 2 ^ 16 := by
    rw [UInt32.toNat_shiftLeft, UInt32.toNat_and, hmask, Align.and_band _ _ _ (by omega)]
    simp only [UInt32.reduceToNat, Nat.reduceMod, Nat.shiftLeft_eq]
    omega
  have h3 : ((x >>> (8 : UInt32)) &&& (0xff00 : UInt32)).toNat =
      x.toNat / 2 ^ 16 % 2 ^ 8 * 2 ^ 8 := by
    rw [UInt32.toNat_and, UInt32.toNat_shiftRight, hmask, Align.and_band _ _ _ (by omega)]
    simp only [UInt32.reduceToNat, Nat.reduceMod, Nat.shiftRight_eq_div_pow]
    omega
  have h4 : (x >>> (24 : UInt32)).toNat = x.toNat / 2 ^ 24 := by
    rw [UInt32.toNat_shiftRight]
    simp only [UInt32.reduceToNat, Nat.reduceMod, Nat.shiftRight_eq_div_pow]
  rw [bswap32, UInt32.toNat_or, UInt32.toNat_or, UInt32.toNat_or, h1, h2, h3, h4,
    or_eq_add_of_dvd_of_lt 24 (a := x.toNat % 2 ^ 8 * 2 ^ 24) (Dvd.intro_left _ rfl) (by omega),
    or_eq_add_of_dvd_of_lt 16 (b := x.toNat / 2 ^ 16 % 2 ^ 8 * 2 ^ 8) (by omega) (by omega),
    or_eq_add_of_dvd_of_lt 8 (b := x.toNat / 2 ^ 24) (by omega) (by omega)]
  omega

/-! ### Stores and loads byte by byte -/

section Store

theorem toUInt8_mod (n : ℕ) : (n % 2 ^ 8).toUInt8 = n.toUInt8 := by
  rw [← UInt8.toNat_inj, Nat.toUInt8, UInt8.toNat_ofNat', UInt8.toNat_ofNat', Nat.mod_mod]

theorem toUInt8_eq_of_mod {m n : ℕ} (h : m % 2 ^ 8 = n % 2 ^ 8) : m.toUInt8 = n.toUInt8 := by
  rw [← toUInt8_mod m, h, toUInt8_mod]

theorem leBytes_two_bytes {a0 a1 : ℕ} (h0 : a0 < 2 ^ 8) :
    leBytes 2 (a0 + a1 * 2 ^ 8) = [a0.toUInt8, a1.toUInt8] := by
  rw [leBytes_two]
  simp only [List.cons.injEq, and_true]
  constructor <;> apply toUInt8_eq_of_mod <;> omega

theorem leBytes_four_bytes {a0 a1 a2 a3 : ℕ} (h0 : a0 < 2 ^ 8) (h1 : a1 < 2 ^ 8)
    (h2 : a2 < 2 ^ 8) :
    leBytes 4 (a0 + a1 * 2 ^ 8 + a2 * 2 ^ 16 + a3 * 2 ^ 24) =
      [a0.toUInt8, a1.toUInt8, a2.toUInt8, a3.toUInt8] := by
  rw [leBytes_four]
  simp only [List.cons.injEq, and_true]
  refine ⟨?_, ?_, ?_, ?_⟩ <;> apply toUInt8_eq_of_mod <;> omega

theorem bytes_two (n : ℕ) : n = n % 2 ^ 8 + n / 2 ^ 8 * 2 ^ 8 := by
  omega

theorem bytes_four (n : ℕ) :
    n = n % 2 ^ 8 + n / 2 ^ 8 % 2 ^ 8 * 2 ^ 8 + n / 2 ^ 16 % 2 ^ 8 * 2 ^ 16 + n / 2 ^ 24 * 2 ^ 24 := by
  omega

theorem store16 (x : UInt16) : [x.toUInt8, (x >>> 8).toUInt8] = leBytes 2 x.toNat := by
  have hshift : (x >>> 8).toNat = x.toNat / 2 ^ 8 := by
    rw [UInt16.toNat_shiftRight]
    simp only [UInt16.reduceToNat, Nat.reduceMod, Nat.shiftRight_eq_div_pow]
  simp only [leBytes_two, List.cons.injEq, and_true]
  -- a byte of a word is the byte of its value
  refine ⟨rfl, toUInt8_eq_of_mod ?_⟩
  rw [hshift]

theorem store16_bswap16 (x : UInt16) :
    [(bswap16 x).toUInt8, (bswap16 x >>> 8).toUInt8] = beBytes 2 x.toNat := by
  have hx : x.toNat < 2 ^ 16 := x.toNat_lt
  rw [store16, beBytes, toNat_bswap16, leBytes_two_bytes (by omega)]
  conv_rhs => rw [bytes_two x.toNat, leBytes_two_bytes (Nat.mod_lt _ (by omega))]
  simp only [List.reverse_cons, List.reverse_nil, List.nil_append, List.cons_append]

theorem store32 (x : UInt32) :
    [x.toUInt8, (x >>> 8).toUInt8, (x >>> 16).toUInt8, (x >>> 24).toUInt8] =
      leBytes 4 x.toNat := by
  simp only [leBytes_four, List.cons.injEq, and_true]
  refine ⟨?_, ?_, ?_, ?_⟩ <;> apply toUInt8_eq_of_mod <;>
    simp only [UInt32.toNat_shiftRight, UInt32.reduceToNat, Nat.reduceMod,
      Nat.shiftRight_eq_div_pow]

theorem store32_bswap32 (x : UInt32) :
    [(bswap32 x).toUInt8, (bswap32 x >>> 8).toUInt8, (bswap32 x >>> 16).toUInt8,
      (bswap32 x >>> 24).toUInt8] = beBytes 4 x.toNat := by
  have hx : x.toNat < 2 ^ 32 := x.toNat_lt
  rw [store32, beBytes, toNat_bswap32, leBytes_four_bytes (by omega) (by omega) (by omega)]
  conv_rhs => rw [bytes_four x.toNat, leBytes_four_bytes (by omega) (by omega) (by omega)]
  simp only [List.reverse_cons, List.reverse_nil, List.nil_append, List.cons_append]

theorem toNat_load32 (b0 b1 b2 b3 : UInt8) :
    (b0.toUInt32 ||| (b1.toUInt32 <<< 8) ||| (b2.toUInt32 <<< 16) ||| (b3.toUInt32 <<< 24)).toNat =
      b0.toNat + b1.toNat * 2 ^ 8 + b2.toNat * 2 ^ 16 + b3.toNat * 2 ^ 24 := by
  have h0 : b0.toNat < 2 ^ 8 := b0.toNat_lt
  have h1 : b1.toNat < 2 ^ 8 := b1.toNat_lt
  have h2 : b2.toNat < 2 ^ 8 := b2.toNat_lt
  have h3 : b3.toNat < 2 ^ 8 := b3.toNat_lt
  have hshift (b : UInt8) (k : UInt32) (hk : k.toNat ≤ 24) :
      (b.toUInt32 <<< k).toNat = b.toNat * 2 ^ k.toNat := by
    have hb : b.toNat < 2 ^ 8 := b.toNat_lt
    have hlt : b.toNat * 2 ^ k.toNat < 2 ^ 32 :=
      calc b.toNat * 2 ^ k.toNat < 2 ^ 8 * 2 ^ k.toNat :=
            Nat.mul_lt_mul_of_pos_right hb (Nat.two_pow_pos _)
        _ = 2 ^ (8 + k.toNat) := (Nat.pow_add 2 8 k.toNat).symm
        _ ≤ 2 ^ 32 := Nat.pow_le_pow_right (by omega) (by omega)
    rw [UInt32.toNat_shiftLeft, UInt8.toNat_toUInt32, Nat.shiftLeft_eq,
      Nat.mod_eq_of_lt (show k.toNat < 32 by omega), Nat.mod_eq_of_lt hlt]
  rw [UInt32.toNat_or, UInt32.toNat_or, UInt32.toNat_or, UInt8.toNat_toUInt32,
    hshift b1 8 (by decide), hshift b2 16 (by decide), hshift b3 24 (by decide)]
  simp only [UInt32.reduceToNat]
  rw [or_eq_add_of_lt_of_dvd 8 h0 (Dvd.intro_left _ rfl),
    or_eq_add_of_lt_of_dvd 16 (by omega) (Dvd.intro_left _ rfl),
    or_eq_add_of_lt_of_dvd 24 (by omega) (Dvd.intro_left _ rfl)]

end Store

end Bionic.Lib.ByteOrder
