import Mathlib.Data.BitVec
import Mathlib.Order.Bounds.Defs
import Bionic.Lib.Align

/-!
# Rounding up to a skewed alignment

An offset is aligned to `p` with skew `s < p` when it leaves remainder `s` modulo `p`. `roundUp p s
v` is the least such offset at or above `v` (`isLeast_roundUp`); with `s = 0` it is the ordinary
rounding up to a multiple of `p`.

In a `w`-bit word, and for `p` a power of two, the rounding is computed as `((v - s + p - 1) & ~(p -
1)) + s`, with every operation wrapping modulo `2 ^ w`. `toNat_maskRoundUp_of_lt` says that this
is `roundUp` whenever `roundUp` fits in the word, and `maskRoundUp_lt_of_le` that otherwise the
result lies below `v`, so that a comparison with `v` detects the overflow. The wrap of `v - s` for
`v < s` is harmless: the word is then `s`, which is `roundUp` there.
-/

set_option autoImplicit false
set_option relaxedAutoImplicit false

namespace Bionic.Lib.SkewAlign

open Bionic.Lib.Align (and_high_mask add_le_of_dvd_of_lt)

/-- The least `n ≥ v` with `n % p = s`, for `s < p`: round `v - s` up to a multiple of `p` and add
`s` back. -/
def roundUp (p s v : ℕ) : ℕ := (v + (p - 1 - s)) / p * p + s

variable {p s : ℕ}

theorem roundUp_mod (hs : s < p) (v : ℕ) : roundUp p s v % p = s := by
  rw [roundUp, Nat.mul_comm, Nat.mul_add_mod, Nat.mod_eq_of_lt hs]

theorem le_roundUp (hs : s < p) (v : ℕ) : v ≤ roundUp p s v := by
  have hmod := Nat.mod_lt (v + (p - 1 - s)) (by omega : 0 < p)
  have hdiv := Nat.div_add_mod' (v + (p - 1 - s)) p
  rw [roundUp]
  omega

theorem roundUp_lt (hs : s < p) (v : ℕ) : roundUp p s v < v + p := by
  have hdiv := Nat.div_add_mod' (v + (p - 1 - s)) p
  rw [roundUp]
  omega

theorem roundUp_le {v n : ℕ} (hs : s < p) (hvn : v ≤ n) (hn : n % p = s) : roundUp p s v ≤ n := by
  have hp : 0 < p := by omega
  have hn' := Nat.div_add_mod' n p
  -- the quotient of `v + (p - 1 - s)` is at most that of `n`
  have hquot : (v + (p - 1 - s)) / p ≤ n / p := by
    apply Nat.lt_succ_iff.mp
    rw [Nat.div_lt_iff_lt_mul hp, Nat.succ_mul]
    omega
  calc roundUp p s v = (v + (p - 1 - s)) / p * p + s := rfl
    _ ≤ n / p * p + s := Nat.add_le_add_right (Nat.mul_le_mul_right p hquot) s
    _ = n := by rw [← hn, Nat.div_add_mod']

theorem isLeast_roundUp (hs : s < p) (v : ℕ) :
    IsLeast {n | v ≤ n ∧ n % p = s} (roundUp p s v) :=
  ⟨⟨le_roundUp hs v, roundUp_mod hs v⟩, fun _ hn ↦ roundUp_le hs hn.1 hn.2⟩

theorem roundUp_mono {v n : ℕ} (hs : s < p) (hvn : v ≤ n) : roundUp p s v ≤ roundUp p s n :=
  roundUp_le hs ((hvn.trans (le_roundUp hs n))) (roundUp_mod hs n)

theorem roundUp_add_of_dvd {k : ℕ} (hk : p ∣ k) (hs : s < p) (v : ℕ) :
    roundUp p s (k + v) = k + roundUp p s v := by
  obtain ⟨m, rfl⟩ := hk
  have hp : 0 < p := by omega
  rw [roundUp, roundUp, Nat.add_assoc, Nat.mul_add_div hp, Nat.add_mul, Nat.mul_comm m p,
    Nat.add_assoc]

theorem dvd_roundUp_zero (v : ℕ) : p ∣ roundUp p 0 v :=
  ⟨(v + (p - 1 - 0)) / p, by rw [roundUp, Nat.add_zero, Nat.mul_comm]⟩

theorem dvd_max_of_isPowerOfTwo {a b : ℕ} (ha : a.isPowerOfTwo) (hb : b.isPowerOfTwo) :
    a ∣ max a b := by
  obtain ⟨i, rfl⟩ := ha
  obtain ⟨j, rfl⟩ := hb
  rcases le_total i j with hij | hji
  · rw [max_eq_right (Nat.pow_le_pow_right (by decide) hij)]
    exact Nat.pow_dvd_pow 2 hij
  · rw [max_eq_left (Nat.pow_le_pow_right (by decide) hji)]

theorem isPowerOfTwo_max {a b : ℕ} (ha : a.isPowerOfTwo) (hb : b.isPowerOfTwo) :
    (max a b).isPowerOfTwo := by
  rcases le_total a b with hab | hba
  · rwa [max_eq_right hab]
  · rwa [max_eq_left hba]

/-! ### The computation in `w`-bit words -/

section Word

variable {w k : ℕ} (v skew align : BitVec w)

theorem lt_of_toNat_eq_two_pow (halign : align.toNat = 2 ^ k) : k < w :=
  (Nat.pow_lt_pow_iff_right (by decide)).mp (halign ▸ align.isLt)

theorem toNat_one_of_toNat_eq_two_pow (halign : align.toNat = 2 ^ k) :
    (1 : BitVec w).toNat = 1 :=
  BitVec.toNat_one (by have := lt_of_toNat_eq_two_pow align halign; omega)

theorem one_le_of_toNat_eq_two_pow (halign : align.toNat = 2 ^ k) : (1 : BitVec w) ≤ align := by
  rw [BitVec.le_def, toNat_one_of_toNat_eq_two_pow align halign, halign]
  exact Nat.one_le_two_pow

theorem toNat_sub_one (halign : align.toNat = 2 ^ k) : (align - 1).toNat = 2 ^ k - 1 := by
  rw [BitVec.toNat_sub_of_le (one_le_of_toNat_eq_two_pow align halign),
    toNat_one_of_toNat_eq_two_pow align halign, halign]

theorem toNat_and_not_sub_one (x : BitVec w) (halign : align.toNat = 2 ^ k) :
    (x &&& ~~~(align - 1)).toNat = x.toNat / 2 ^ k * 2 ^ k := by
  rw [BitVec.toNat_and, BitVec.toNat_not, toNat_sub_one align halign]
  exact and_high_mask w _ _ x.isLt (lt_of_toNat_eq_two_pow align halign)

theorem toNat_and_sub_one (x : BitVec w) (halign : align.toNat = 2 ^ k) :
    (x &&& (align - 1)).toNat = x.toNat % 2 ^ k := by
  rw [BitVec.toNat_and, toNat_sub_one align halign, Nat.and_two_pow_sub_one_eq_mod]

theorem sub_one_and_self (halign : align.toNat = 2 ^ k) : (align - 1) &&& align = 0 := by
  apply BitVec.eq_of_toNat_eq
  rw [BitVec.and_comm, toNat_and_sub_one align align halign, halign, Nat.mod_self]
  exact BitVec.toNat_zero.symm

variable {v skew align}
variable (halign : align.toNat = 2 ^ k) (hs : skew.toNat < align.toNat)
include halign hs

theorem toNat_sub_add_sub_one :
    (v - skew + align - 1).toNat = (v.toNat + (2 ^ k - 1 - skew.toNat)) % 2 ^ w := by
  have hlow : v - skew + align - 1 = v + (align - 1 - skew) := by
    rw [BitVec.sub_eq_add_neg, BitVec.sub_eq_add_neg, BitVec.sub_eq_add_neg, BitVec.sub_eq_add_neg]
    ac_rfl
  have hsub := toNat_sub_one align halign
  have hskew : skew ≤ align - 1 := by
    rw [BitVec.le_def, hsub]
    omega
  rw [hlow, BitVec.toNat_add, BitVec.toNat_sub_of_le hskew, hsub]

theorem toNat_maskRoundUp_of_lt (hfit : roundUp (2 ^ k) skew.toNat v.toNat < 2 ^ w) :
    (((v - skew + align - 1) &&& ~~~(align - 1)) + skew).toNat =
      roundUp (2 ^ k) skew.toNat v.toNat := by
  set u := v.toNat + (2 ^ k - 1 - skew.toNat) with hu_def
  have hround : roundUp (2 ^ k) skew.toNat v.toNat = u / 2 ^ k * 2 ^ k + skew.toNat := rfl
  have hdvd : 2 ^ k ∣ 2 ^ w := Nat.pow_dvd_pow 2 (lt_of_toNat_eq_two_pow align halign).le
  -- the multiple of `2 ^ k` at or below `u` is a whole step below `2 ^ w`, so `u` does not wrap
  have hmul : u / 2 ^ k * 2 ^ k + 2 ^ k ≤ 2 ^ w :=
    add_le_of_dvd_of_lt (Nat.dvd_mul_left _ _) hdvd (by omega)
  have hu : u < 2 ^ w := by
    have := Nat.lt_div_mul_add (a := u) (Nat.two_pow_pos k)
    omega
  rw [BitVec.toNat_add, toNat_and_not_sub_one align _ halign, toNat_sub_add_sub_one halign hs,
    Nat.mod_eq_of_lt hu, ← hround]
  exact Nat.mod_eq_of_lt hfit

theorem maskRoundUp_lt_of_le (hover : 2 ^ w ≤ roundUp (2 ^ k) skew.toNat v.toNat) :
    ((v - skew + align - 1) &&& ~~~(align - 1)) + skew < v := by
  set u := v.toNat + (2 ^ k - 1 - skew.toNat) with hu_def
  have hround : roundUp (2 ^ k) skew.toNat v.toNat = u / 2 ^ k * 2 ^ k + skew.toNat := rfl
  have hs' : skew.toNat < 2 ^ k := halign ▸ hs
  have hk := lt_of_toNat_eq_two_pow align halign
  have hdvd : 2 ^ k ∣ 2 ^ w := Nat.pow_dvd_pow 2 hk.le
  have hpow : 2 ^ k < 2 ^ w := Nat.pow_lt_pow_right (by decide) hk
  -- the rounding reaches `2 ^ w` only if `u` itself does
  have hwrap : 2 ^ w ≤ u := by
    by_contra hlt
    have hmul : u / 2 ^ k * 2 ^ k + 2 ^ k ≤ 2 ^ w :=
      add_le_of_dvd_of_lt (Nat.dvd_mul_left _ _) hdvd
        (lt_of_le_of_lt (Nat.div_mul_le_self u (2 ^ k)) (by omega))
    omega
  have hmod : u % 2 ^ w = u - 2 ^ w := by
    rw [Nat.mod_eq_sub_mod hwrap, Nat.mod_eq_of_lt (by have := v.isLt; omega)]
  -- after the wrap the masked multiple of `2 ^ k` is again a whole step below `2 ^ w`
  have hlow := Nat.div_mul_le_self (u - 2 ^ w) (2 ^ k)
  have hmul : (u - 2 ^ w) / 2 ^ k * 2 ^ k + 2 ^ k ≤ 2 ^ w :=
    add_le_of_dvd_of_lt (Nat.dvd_mul_left _ _) hdvd (by have := v.isLt; omega)
  rw [BitVec.lt_def, BitVec.toNat_add, toNat_and_not_sub_one align _ halign,
    toNat_sub_add_sub_one halign hs, hmod, Nat.mod_eq_of_lt (by omega)]
  omega

end Word

end Bionic.Lib.SkewAlign
