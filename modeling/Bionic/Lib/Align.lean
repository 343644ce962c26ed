import Mathlib.Data.UInt

/-!
# Power-of-two alignment of 64-bit addresses

A `Pow2Align` is a power of two `2 ^ bits` below `2 ^ 64`. Addresses are aligned down by masking
off the low bits, their offset is the low bits, and aligning up is aligning down after adding
`size - 1`, which wraps for addresses within `size - 1` of `2 ^ 64`. The `toNat` lemmas give each
operation on the numbers the words stand for.

The masks behind them are read as numbers at any width: the bits from some place up
(`and_high_mask`), between two places (`and_band`), and the complement of a mask (`add_and_compl`).
-/

set_option autoImplicit false
set_option relaxedAutoImplicit false

namespace Bionic.Lib.Align

open scoped UInt64.CommRing

/-- An alignment of 64-bit words: a power of two below `2 ^ 64`. -/
structure Pow2Align where
  bits : ℕ
  bits_lt : bits < 64
  deriving DecidableEq, Repr

theorem and_high_mask (w n b : ℕ) (hn : n < 2 ^ w) (hb : b < w) :
    n &&& (2 ^ w - 1 - (2 ^ b - 1)) = n / 2 ^ b * 2 ^ b := by
  have hmask : 2 ^ w - 1 - (2 ^ b - 1) = 2 ^ b * (2 ^ (w - b) - 1) := by
    have hw : 2 ^ w = 2 ^ b * 2 ^ (w - b) := by
      rw [← pow_add]
      congr 1
      omega
    have hpos : 1 ≤ 2 ^ b := Nat.one_le_two_pow
    rw [Nat.mul_sub, Nat.mul_one, ← hw]
    omega
  rw [hmask]
  apply Nat.eq_of_testBit_eq
  intro i
  rw [Nat.testBit_and, Nat.testBit_two_pow_mul, Nat.testBit_mul_two_pow, Nat.testBit_div_two_pow,
    Nat.testBit_two_pow_sub_one]
  -- the bits below `b` are cleared, and `n` has none from `w` up
  by_cases hbi : b ≤ i
  · by_cases hi : i < w
    · simp [hbi, Nat.sub_add_cancel hbi, show i - b < w - b by omega]
    · have hbit : n.testBit i = false :=
        Nat.testBit_lt_two_pow (lt_of_lt_of_le hn (Nat.pow_le_pow_right (by decide) (by omega)))
      simp [hbi, Nat.sub_add_cancel hbi, hbit]
  · simp [hbi]

theorem and_band (n j k : ℕ) (hk : k < j) :
    n &&& (2 ^ j - 1 - (2 ^ k - 1)) = n % 2 ^ j / 2 ^ k * 2 ^ k := by
  have hmask : 2 ^ j - 1 - (2 ^ k - 1) < 2 ^ j := by
    have := Nat.one_le_two_pow (n := j)
    omega
  rw [← Nat.mod_eq_of_lt (lt_of_le_of_lt Nat.and_le_right hmask), Nat.and_mod_two_pow,
    Nat.mod_eq_of_lt hmask, and_high_mask j _ k (Nat.mod_lt _ (Nat.two_pow_pos j)) hk]

theorem add_and_compl (w k a x : ℕ) (hx : x < 2 ^ k) (hk : k ≤ w) (ha : 2 ^ k * a < 2 ^ w) :
    (2 ^ k * a + x) &&& (2 ^ w - 1 - 2 ^ k * a) = x := by
  apply Nat.eq_of_testBit_eq
  intro i
  rw [Nat.testBit_and, show 2 ^ w - 1 - 2 ^ k * a = 2 ^ w - (2 ^ k * a + 1) by omega,
    Nat.testBit_two_pow_sub_succ ha, Nat.testBit_two_pow_mul_add a hx, Nat.testBit_two_pow_mul]
  -- below `k` the bits are those of `x`; from `k` up `x` has none and the complement clears `a`
  by_cases hik : i < k
  · simp [hik, show i < w by omega]
  · have hbit : x.testBit i = false :=
      Nat.testBit_lt_two_pow (lt_of_lt_of_le hx (Nat.pow_le_pow_right (by decide) (by omega)))
    simp only [hik, if_false, hbit, ge_iff_le, show k ≤ i by omega, decide_true, Bool.true_and]
    cases a.testBit (i - k) <;> simp

theorem toNat_add_of_lt {x y : UInt64} (h : x.toNat + y.toNat < 2 ^ 64) :
    (x + y).toNat = x.toNat + y.toNat := by
  rw [UInt64.toNat_add, Nat.mod_eq_of_lt h]

theorem add_le_of_dvd_of_lt {p m n : ℕ} (hm : p ∣ m) (hn : p ∣ n) (hlt : m < n) : m + p ≤ n := by
  obtain ⟨i, rfl⟩ := hm
  obtain ⟨j, rfl⟩ := hn
  have hij : i < j := Nat.lt_of_mul_lt_mul_left hlt
  calc p * i + p = p * (i + 1) := (Nat.mul_succ p i).symm
    _ ≤ p * j := Nat.mul_le_mul_left p hij

theorem add_sub_mod_of_dvd {p s l v : ℕ} (hs : p ∣ s) (hl : p ∣ l) (hlv : l ≤ v) :
    (s + (v - l)) % p = v % p := by
  obtain ⟨i, rfl⟩ := hs
  obtain ⟨j, rfl⟩ := hl
  have hv : v = v - p * j + p * j := by omega
  conv_rhs => rw [hv]
  rw [Nat.add_mul_mod_self_left, Nat.add_comm, Nat.add_mul_mod_self_left]

namespace Pow2Align

variable (a : Pow2Align)

/-- The alignment as a word. -/
def size : UInt64 := UInt64.ofNat (2 ^ a.bits)

/-- `x & ~(size - 1)`: the largest aligned word at or below `x`. -/
def down (x : UInt64) : UInt64 := x &&& ~~~(a.size - 1)

/-- `x & (size - 1)`: how far `x` lies past `down x`. -/
def offset (x : UInt64) : UInt64 := x &&& (a.size - 1)

/-- `down (x + size - 1)`: the smallest aligned word at or above `x`, when `x + size - 1` does
not wrap. -/
def up (x : UInt64) : UInt64 := a.down (x + a.size - 1)

theorem two_pow_bits_lt : 2 ^ a.bits < 2 ^ 64 := Nat.pow_lt_pow_right (by decide) a.bits_lt

theorem toNat_size : a.size.toNat = 2 ^ a.bits := by
  rw [size, UInt64.toNat_ofNat']
  exact Nat.mod_eq_of_lt a.two_pow_bits_lt

theorem toNat_size_sub_one : (a.size - 1).toNat = 2 ^ a.bits - 1 := by
  have hone : (1 : UInt64) ≤ a.size := by
    rw [UInt64.le_iff_toNat_le, toNat_size, UInt64.toNat_one]
    exact Nat.one_le_two_pow
  rw [UInt64.toNat_sub_of_le _ _ hone,
    toNat_size, UInt64.toNat_one]

theorem toNat_offset (x : UInt64) : (a.offset x).toNat = x.toNat % 2 ^ a.bits := by
  rw [offset, UInt64.toNat_and, toNat_size_sub_one, Nat.and_two_pow_sub_one_eq_mod]

theorem toNat_down (x : UInt64) : (a.down x).toNat = x.toNat / 2 ^ a.bits * 2 ^ a.bits := by
  rw [down, UInt64.toNat_and, UInt64.toNat_not, toNat_size_sub_one]
  exact and_high_mask 64 _ _ x.toNat_lt a.bits_lt

theorem toNat_up (x : UInt64) (hx : x.toNat + 2 ^ a.bits - 1 < 2 ^ 64) :
    (a.up x).toNat = (x.toNat + 2 ^ a.bits - 1) / 2 ^ a.bits * 2 ^ a.bits := by
  have hpos : 1 ≤ 2 ^ a.bits := Nat.one_le_two_pow
  have hsum : (x + a.size - 1).toNat = x.toNat + 2 ^ a.bits - 1 := by
    rw [add_sub_assoc, UInt64.toNat_add, toNat_size_sub_one, Nat.mod_eq_of_lt (by omega)]
    omega
  rw [up, toNat_down, hsum]

/-! ### Rounding as an order property

`down x` is the greatest multiple of the size at or below `x`, and `up x` the least at or above
it; the proofs about addresses use only these properties. -/

/-- A word is aligned when its number is a multiple of the size. -/
def Aligned (x : UInt64) : Prop := 2 ^ a.bits ∣ x.toNat

instance (x : UInt64) : Decidable (a.Aligned x) := inferInstanceAs (Decidable (_ ∣ _))

theorem aligned_down (x : UInt64) : a.Aligned (a.down x) := by
  rw [Aligned, toNat_down]
  exact Nat.dvd_mul_left _ _

theorem toNat_down_le (x : UInt64) : (a.down x).toNat ≤ x.toNat := by
  rw [toNat_down]
  exact Nat.div_mul_le_self _ _

theorem le_toNat_down {x : UInt64} {n : ℕ} (hn : 2 ^ a.bits ∣ n) (hnx : n ≤ x.toNat) :
    n ≤ (a.down x).toNat := by
  obtain ⟨k, rfl⟩ := hn
  have hk : k ≤ x.toNat / 2 ^ a.bits := by
    rw [Nat.le_div_iff_mul_le (Nat.two_pow_pos _), Nat.mul_comm]
    exact hnx
  rw [toNat_down, Nat.mul_comm (2 ^ a.bits) k]
  exact Nat.mul_le_mul_right _ hk

theorem toNat_down_add_toNat_offset (x : UInt64) :
    (a.down x).toNat + (a.offset x).toNat = x.toNat := by
  rw [toNat_down, toNat_offset]
  exact Nat.div_add_mod' _ _

theorem down_add_offset (x : UInt64) : a.down x + a.offset x = x := by
  apply UInt64.toNat_inj.mp
  rw [toNat_add_of_lt (by rw [toNat_down_add_toNat_offset]; exact x.toNat_lt),
    toNat_down_add_toNat_offset]

theorem aligned_up (x : UInt64) : a.Aligned (a.up x) := a.aligned_down _

section Up

variable {x : UInt64} (hx : x.toNat + 2 ^ a.bits - 1 < 2 ^ 64)
include hx

theorem le_toNat_up : x.toNat ≤ (a.up x).toNat := by
  rw [toNat_up a x hx]
  have hlt := Nat.lt_div_mul_add (a := x.toNat + 2 ^ a.bits - 1) (Nat.two_pow_pos a.bits)
  omega

theorem toNat_up_le {n : ℕ} (hn : 2 ^ a.bits ∣ n) (hxn : x.toNat ≤ n) : (a.up x).toNat ≤ n := by
  obtain ⟨k, rfl⟩ := hn
  have hpos := Nat.two_pow_pos a.bits
  have hquot : (x.toNat + 2 ^ a.bits - 1) / 2 ^ a.bits ≤ k := by
    apply Nat.lt_succ_iff.mp
    rw [Nat.div_lt_iff_lt_mul hpos, Nat.succ_mul, Nat.mul_comm]
    omega
  calc (a.up x).toNat = (x.toNat + 2 ^ a.bits - 1) / 2 ^ a.bits * 2 ^ a.bits := toNat_up a x hx
    _ ≤ k * 2 ^ a.bits := Nat.mul_le_mul_right _ hquot
    _ = 2 ^ a.bits * k := Nat.mul_comm _ _

theorem toNat_up_of_aligned (hxa : a.Aligned x) : (a.up x).toNat = x.toNat :=
  Nat.le_antisymm (a.toNat_up_le hx hxa le_rfl) (a.le_toNat_up hx)

end Up

end Pow2Align

end Bionic.Lib.Align
