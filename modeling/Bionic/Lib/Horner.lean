import Mathlib.Algebra.Order.Ring.Int
import Mathlib.Algebra.Ring.Basic
import Mathlib.Data.List.Induction
import Mathlib.Tactic.Ring

/-!
# Horner folds

The positional value of a list of digits in a base, computed the way a left fold computes it:
the accumulator is multiplied by the base and the next digit is added. Multiplicative string
hashes and the little-endian reading of a byte vector are both of this form.

`hornerFold_append` splits a fold at any point, and `hornerFold_eq_add` separates the initial
value, which is shifted past every digit. Over the natural numbers a fold of digits below the
base stays below the matching power (`hornerFold_lt_pow`), and a leading digit bounds it from
below (`pow_le_hornerFold_cons`); these two locate the highest nonzero digit. Over the integers a
fold of nonnegative digits never falls below its start (`le_hornerFold`), which is what lets a
parser check for overflow digit by digit.
-/

set_option autoImplicit false
set_option relaxedAutoImplicit false

namespace Bionic.Lib.Horner

/-- Horner's rule: fold `acc ↦ acc * base + digit` over the digits, starting from `init`. -/
def hornerFold {R : Type*} [Add R] [Mul R] (base init : R) (digits : List R) : R :=
  digits.foldl (fun acc digit ↦ acc * base + digit) init

section Semiring

variable {R : Type*} [CommSemiring R]

@[simp] theorem hornerFold_nil (base init : R) : hornerFold base init [] = init := rfl

@[simp] theorem hornerFold_cons (base init digit : R) (digits : List R) :
    hornerFold base init (digit :: digits) = hornerFold base (init * base + digit) digits :=
  rfl

theorem hornerFold_append (base init : R) (first second : List R) :
    hornerFold base init (first ++ second) =
      hornerFold base (hornerFold base init first) second := by
  simp [hornerFold, List.foldl_append]

theorem hornerFold_eq_add (base init : R) (digits : List R) :
    hornerFold base init digits = init * base ^ digits.length + hornerFold base 0 digits := by
  induction digits generalizing init with
  | nil => simp
  | cons digit digits ih =>
    rw [hornerFold_cons, hornerFold_cons, ih, ih (0 * base + digit)]
    simp only [List.length_cons, pow_succ, zero_mul, zero_add]
    ring

theorem hornerFold_concat (base init digit : R) (digits : List R) :
    hornerFold base init (digits ++ [digit]) = hornerFold base init digits * base + digit := by
  rw [hornerFold_append, hornerFold_cons, hornerFold_nil]

theorem hornerFold_zero_replicate (base : R) (count : ℕ) (digits : List R) :
    hornerFold base 0 (List.replicate count 0 ++ digits) = hornerFold base 0 digits := by
  induction count with
  | zero => simp
  | succ count ih =>
    rw [List.replicate_succ, List.cons_append, hornerFold_cons, zero_mul, zero_add, ih]

end Semiring

section Nat

theorem hornerFold_lt_pow (base : ℕ) (digits : List ℕ) (hdigits : ∀ digit ∈ digits, digit < base) :
    hornerFold base 0 digits < base ^ digits.length := by
  induction digits using List.reverseRecOn with
  | nil => simp
  | append_singleton digits digit ih =>
    have hfront := ih fun d hd ↦ hdigits d (List.mem_append_left _ hd)
    have hlast : digit < base := hdigits digit (by simp)
    rw [hornerFold_concat, List.length_append, List.length_singleton, pow_succ]
    calc hornerFold base 0 digits * base + digit
        < hornerFold base 0 digits * base + base := by omega
      _ = (hornerFold base 0 digits + 1) * base := by ring
      _ ≤ base ^ digits.length * base := Nat.mul_le_mul_right _ hfront

theorem pow_le_hornerFold_cons (base digit : ℕ) (digits : List ℕ) :
    digit * base ^ digits.length ≤ hornerFold base 0 (digit :: digits) := by
  rw [hornerFold_cons, hornerFold_eq_add, zero_mul, zero_add]
  exact Nat.le_add_right _ _

end Nat

section Int

theorem le_hornerFold {base init : ℤ} {digits : List ℤ} (hbase : 1 ≤ base) (hinit : 0 ≤ init)
    (hdigits : ∀ digit ∈ digits, 0 ≤ digit) : init ≤ hornerFold base init digits := by
  induction digits generalizing init with
  | nil => simp
  | cons digit digits ih =>
    have hstep : init ≤ init * base + digit :=
      (le_mul_of_one_le_right hinit hbase).trans (le_add_of_nonneg_right (hdigits digit (by simp)))
    rw [hornerFold_cons]
    exact hstep.trans (ih (hinit.trans hstep) fun d hd ↦ hdigits d (by simp [hd]))

end Int

end Bionic.Lib.Horner
