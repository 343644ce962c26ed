import Bionic.Lib.Horner
import Mathlib.Data.List.OfFn
import Mathlib.Data.Fintype.Fin
import Mathlib.Tactic.FinCases
import Mathlib.Tactic.NormNum

/-!
# NEON lane intrinsics

The Advanced SIMD intrinsics of `arm_neon.h` that a byte-string kernel uses, as lane-wise
arithmetic: a vector of `n` lanes is a function `Fin n → α`, 32-bit lanes add and multiply
modulo `2^32`, and a widening multiply-accumulate widens both 16-bit factors before the
multiplication. Loads read consecutive bytes of a byte-addressed memory.

Two facts are proved about the byte-compare mask of `vceqU8`, read back through
`vreinterpretU64U8`: the 64-bit word is nonzero exactly when some lane compared equal
(`vgetLaneU64_vreinterpretU64U8_vceqU8_ne_zero`), and after `vrev64U8` its count of leading
zero bits is eight times the index of the first equal lane (`clzll_vrev64U8`).
-/

set_option autoImplicit false
set_option relaxedAutoImplicit false

namespace Bionic.Lib.Neon

open Bionic.Lib.Horner

/-- A vector of `n` lanes of type `α`. -/
abbrev Lanes (n : ℕ) (α : Type) := Fin n → α

/-! ### Loads, compares and widening -/

/-- `vld1_u8`: the eight bytes at `address`, lane `i` from `address + i`. -/
def vld1U8 (mem : ℕ → UInt8) (address : ℕ) : Lanes 8 UInt8 := fun lane ↦ mem (address + lane)

/-- `vld1_u8` applied to a stored 64-bit word: its bytes in little-endian order. -/
def bytesOfU64 (word : UInt64) : Lanes 8 UInt8 :=
  fun lane ↦ (word >>> (8 * lane.val).toUInt64).toUInt8

/-- The vector operator `|` on `uint8x8_t` (`vorr_u8`). -/
def vorrU8 (a b : Lanes 8 UInt8) : Lanes 8 UInt8 := fun lane ↦ a lane ||| b lane

/-- `vceq_u8`: all ones in the lanes where the operands are equal, zero elsewhere. -/
def vceqU8 (a b : Lanes 8 UInt8) : Lanes 8 UInt8 :=
  fun lane ↦ if a lane = b lane then 0xff else 0

/-- `vmovl_u8`: zero-extend each byte lane to 16 bits. -/
def vmovlU8 (a : Lanes 8 UInt8) : Lanes 8 UInt16 := fun lane ↦ (a lane).toUInt16

/-- `vmovl_u16`: zero-extend each 16-bit lane to 32 bits. -/
def vmovlU16 (a : Lanes 4 UInt16) : Lanes 4 UInt32 := fun lane ↦ (a lane).toUInt32

/-- `vget_low_u16`: lanes 0 to 3. -/
def vgetLowU16 (a : Lanes 8 UInt16) : Lanes 4 UInt16 := fun lane ↦ a (Fin.castAdd 4 lane)

/-- `vget_high_u16`: lanes 4 to 7. -/
def vgetHighU16 (a : Lanes 8 UInt16) : Lanes 4 UInt16 := fun lane ↦ a (Fin.natAdd 4 lane)

/-- `vget_low_u32`: lanes 0 and 1. -/
def vgetLowU32 (a : Lanes 4 UInt32) : Lanes 2 UInt32 := fun lane ↦ a (Fin.castAdd 2 lane)

/-- `vget_high_u32`: lanes 2 and 3. -/
def vgetHighU32 (a : Lanes 4 UInt32) : Lanes 2 UInt32 := fun lane ↦ a (Fin.natAdd 2 lane)

/-- `vrev64_u8`: reverse the byte lanes of the 64-bit vector. -/
def vrev64U8 (a : Lanes 8 UInt8) : Lanes 8 UInt8 := fun lane ↦ a lane.rev

/-- `vreinterpret_u64_u8`: the eight byte lanes read as one little-endian 64-bit lane. Lane 7 is
the most significant byte, so the Horner digits run from lane 7 down to lane 0. -/
def vreinterpretU64U8 (a : Lanes 8 UInt8) : Lanes 1 UInt64 :=
  fun _ ↦ UInt64.ofNat (hornerFold 256 0 (List.ofFn fun lane : Fin 8 ↦ (a lane.rev).toNat))

/-- `vget_lane_u64`. -/
def vgetLaneU64 (a : Lanes 1 UInt64) (lane : Fin 1) : UInt64 := a lane

/-- `__builtin_clzll`: the number of leading zero bits of a nonzero 64-bit word. -/
def clzll (word : UInt64) : ℕ := 63 - Nat.log2 word.toNat

/-! ### Arithmetic on 32-bit lanes -/

/-- `vdupq_n_u32`: the same value in all four lanes. -/
def vdupqNU32 (value : UInt32) : Lanes 4 UInt32 := fun _ ↦ value

/-- `vmulq_u32`: lane-wise product modulo `2^32`. -/
def vmulqU32 (a b : Lanes 4 UInt32) : Lanes 4 UInt32 := fun lane ↦ a lane * b lane

/-- `vmlal_u16`: widen both 16-bit factors, multiply and add to the 32-bit accumulator. -/
def vmlalU16 (acc : Lanes 4 UInt32) (a b : Lanes 4 UInt16) : Lanes 4 UInt32 :=
  fun lane ↦ acc lane + (a lane).toUInt32 * (b lane).toUInt32

/-- `vmlaq_u32`: lane-wise multiply-accumulate modulo `2^32`. -/
def vmlaqU32 (acc a b : Lanes 4 UInt32) : Lanes 4 UInt32 := fun lane ↦ acc lane + a lane * b lane

/-- `vadd_u32`: lane-wise sum modulo `2^32`. -/
def vaddU32 (a b : Lanes 2 UInt32) : Lanes 2 UInt32 := fun lane ↦ a lane + b lane

/-- `vld1q_u32`: four consecutive entries of a table, from `index`. -/
def vld1qU32 (table : List UInt32) (index : ℕ) : Lanes 4 UInt32 :=
  fun lane ↦ table.getD (index + lane) 0

section Lanes

variable {a b acc : Lanes 4 UInt32} {lane : Fin 4}

@[simp] theorem vdupqNU32_apply (value : UInt32) : vdupqNU32 value lane = value := rfl

@[simp] theorem vmulqU32_apply : vmulqU32 a b lane = a lane * b lane := rfl

@[simp] theorem vmlaqU32_apply : vmlaqU32 acc a b lane = acc lane + a lane * b lane := rfl

@[simp] theorem vmlalU16_apply (x y : Lanes 4 UInt16) :
    vmlalU16 acc x y lane = acc lane + (x lane).toUInt32 * (y lane).toUInt32 := rfl

@[simp] theorem vmovlU16_apply (x : Lanes 4 UInt16) : vmovlU16 x lane = (x lane).toUInt32 := rfl

@[simp] theorem vmovlU8_apply (x : Lanes 8 UInt8) (lane : Fin 8) :
    vmovlU8 x lane = (x lane).toUInt16 := rfl

@[simp] theorem vgetLowU16_apply (x : Lanes 8 UInt16) :
    vgetLowU16 x lane = x (Fin.castAdd 4 lane) := rfl

@[simp] theorem vgetHighU16_apply (x : Lanes 8 UInt16) :
    vgetHighU16 x lane = x (Fin.natAdd 4 lane) := rfl

@[simp] theorem vaddU32_apply (x y : Lanes 2 UInt32) (lane : Fin 2) :
    vaddU32 x y lane = x lane + y lane := rfl

@[simp] theorem vgetLowU32_apply (x : Lanes 4 UInt32) (lane : Fin 2) :
    vgetLowU32 x lane = x (Fin.castAdd 2 lane) := rfl

@[simp] theorem vgetHighU32_apply (x : Lanes 4 UInt32) (lane : Fin 2) :
    vgetHighU32 x lane = x (Fin.natAdd 2 lane) := rfl

@[simp] theorem vld1U8_apply (mem : ℕ → UInt8) (address : ℕ) (lane : Fin 8) :
    vld1U8 mem address lane = mem (address + lane) := rfl

@[simp] theorem vorrU8_apply (x y : Lanes 8 UInt8) (lane : Fin 8) :
    vorrU8 x y lane = x lane ||| y lane := rfl

@[simp] theorem vceqU8_apply (x y : Lanes 8 UInt8) (lane : Fin 8) :
    vceqU8 x y lane = if x lane = y lane then 0xff else 0 := rfl

end Lanes

/-! ### The compare mask read as a word -/

theorem hornerFold_ofFn_lt (a : Lanes 8 UInt8) :
    hornerFold 256 0 (List.ofFn fun lane : Fin 8 ↦ (a lane.rev).toNat) < 2 ^ 64 := by
  have hbound := hornerFold_lt_pow 256 (List.ofFn fun lane : Fin 8 ↦ (a lane.rev).toNat)
    fun digit hdigit ↦ by
      obtain ⟨lane, rfl⟩ := List.mem_ofFn.mp hdigit
      exact UInt8.toNat_lt _
  simpa using hbound

theorem toNat_vreinterpretU64U8 (a : Lanes 8 UInt8) (lane : Fin 1) :
    (vreinterpretU64U8 a lane).toNat =
      hornerFold 256 0 (List.ofFn fun lane : Fin 8 ↦ (a lane.rev).toNat) :=
  UInt64.toNat_ofNat_of_lt' (hornerFold_ofFn_lt a)

theorem hornerFold_eq_zero_iff (base : ℕ) (hbase : 0 < base) (digits : List ℕ) :
    hornerFold base 0 digits = 0 ↔ ∀ digit ∈ digits, digit = 0 := by
  induction digits using List.reverseRecOn with
  | nil => simp
  | append_singleton digits digit ih =>
    rw [hornerFold_concat, Nat.add_eq_zero_iff, Nat.mul_eq_zero, ih]
    simp only [List.mem_append, List.mem_singleton]
    constructor
    · rintro ⟨hfront | hzero, hdigit⟩ d (hd | rfl)
      · exact hfront d hd
      · exact hdigit
      · omega
      · exact hdigit
    · intro hall
      exact ⟨Or.inl fun d hd ↦ hall d (Or.inl hd), hall digit (Or.inr rfl)⟩

theorem vgetLaneU64_vreinterpretU64U8_vceqU8_ne_zero (a b : Lanes 8 UInt8) :
    vgetLaneU64 (vreinterpretU64U8 (vceqU8 a b)) 0 ≠ 0 ↔ ∃ lane, a lane = b lane := by
  have hword : vgetLaneU64 (vreinterpretU64U8 (vceqU8 a b)) 0 = 0 ↔ ∀ lane, a lane ≠ b lane := by
    rw [← UInt64.toNat_inj, vgetLaneU64, toNat_vreinterpretU64U8, UInt64.toNat_zero,
      hornerFold_eq_zero_iff 256 (by decide), List.forall_mem_ofFn_iff]
    constructor
    · intro hall lane hequal
      have hlane := hall lane.rev
      simp [vceqU8, Fin.rev_rev, hequal] at hlane
    · intro hall lane
      simp [vceqU8, hall lane.rev]
  rw [ne_eq, hword]
  simp only [ne_eq, not_forall, not_not]

/-- Digits that start with `r` zeros and then `255` lie between `255 * 256 ^ (7 - r)` and
`256 ^ (8 - r)`. -/
theorem hornerFold_bounds_of_first (digits : Lanes 8 ℕ) (r : Fin 8)
    (hdigits : ∀ lane, digits lane < 256) (hbefore : ∀ lane, lane < r → digits lane = 0)
    (hat : digits r = 255) :
    255 * 256 ^ (7 - r.val) ≤ hornerFold 256 0 (List.ofFn digits) ∧
      hornerFold 256 0 (List.ofFn digits) < 256 ^ (8 - r.val) := by
  set list := List.ofFn digits with hlist
  have hlength : list.length = 8 := List.length_ofFn
  have htake : list.take r = List.replicate r 0 := by
    rw [List.eq_replicate_iff]
    refine ⟨by simp [hlength, r.isLt.le], fun digit hdigit ↦ ?_⟩
    obtain ⟨i, hi, rfl⟩ := List.getElem_of_mem hdigit
    have hir : i < r := by simpa [hlength] using hi
    simp only [List.getElem_take, hlist, List.getElem_ofFn]
    exact hbefore ⟨i, by omega⟩ hir
  have hr : r.val < list.length := by simp [hlength]
  have hget : list[r.val] = 255 := by
    simp only [hlist, List.getElem_ofFn]
    exact hat
  have hdrop : list.drop r = 255 :: list.drop (r + 1) := by
    rw [List.drop_eq_getElem_cons hr, hget]
  have hsplit : list = List.replicate r 0 ++ 255 :: list.drop (r + 1) := by
    rw [← htake, ← hdrop, List.take_append_drop]
  have hrest : (list.drop (r + 1)).length = 7 - r.val := by
    rw [List.length_drop, hlength]
    omega
  have hsmall : ∀ digit ∈ 255 :: list.drop (r + 1), digit < 256 := by
    intro digit hdigit
    have hmem : digit ∈ list := by
      rcases List.mem_cons.mp hdigit with rfl | hin
      · rw [← hat]; exact List.mem_ofFn.mpr ⟨r, rfl⟩
      · exact List.mem_of_mem_drop hin
    obtain ⟨lane, rfl⟩ := List.mem_ofFn.mp hmem
    exact hdigits lane
  rw [hsplit, hornerFold_zero_replicate]
  refine ⟨?_, ?_⟩
  · have hlow := pow_le_hornerFold_cons 256 255 (list.drop (r + 1))
    rwa [hrest] at hlow
  · have hhigh := hornerFold_lt_pow 256 _ hsmall
    rwa [List.length_cons, hrest, show 7 - r.val + 1 = 8 - r.val by omega] at hhigh

theorem clzll_vrev64U8 (a : Lanes 8 UInt8) (r : Fin 8) (hbefore : ∀ lane, lane < r → a lane = 0)
    (hat : a r = 0xff) :
    clzll (vgetLaneU64 (vreinterpretU64U8 (vrev64U8 a)) 0) = 8 * r.val := by
  have hbounds := hornerFold_bounds_of_first (fun lane ↦ (a lane).toNat) r
    (fun lane ↦ UInt8.toNat_lt _) (fun lane hlane ↦ by simp [hbefore lane hlane])
    (by simp [hat])
  have hword : (vgetLaneU64 (vreinterpretU64U8 (vrev64U8 a)) 0).toNat =
      hornerFold 256 0 (List.ofFn fun lane ↦ (a lane).toNat) := by
    rw [vgetLaneU64, toNat_vreinterpretU64U8]
    simp [vrev64U8, Fin.rev_rev]
  have hlog : Nat.log2 (vgetLaneU64 (vreinterpretU64U8 (vrev64U8 a)) 0).toNat = 63 - 8 * r.val := by
    obtain ⟨hlow, hhigh⟩ := hbounds
    have hpos : 0 < 256 ^ (7 - r.val) := by positivity
    rw [hword, Nat.log2_eq_iff (by omega)]
    constructor
    · refine le_trans ?_ hlow
      fin_cases r <;> norm_num
    · refine lt_of_lt_of_le hhigh ?_
      fin_cases r <;> norm_num
  rw [clzll, hlog]
  omega

end Bionic.Lib.Neon
