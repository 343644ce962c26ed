import Mathlib.Data.List.Range
import Mathlib.Data.Int.Init

/-!
# Repeated calls of a stateful function

A function that keeps its place between calls, such as an iterator over a table, is a step
`σ → β × σ`: the value a call returns and the state it leaves. `calls step n s` makes `n` calls
from `s` and gives the values in order with the state after the last one.

A run splits at any call (`calls_add`). Calls that each advance an integer counter by one and
return the entries of a list in turn return that list (`calls_of_getElem`), and a state that a
call leaves unchanged answers every later call the same way (`calls_of_fixed`); a run that comes
back to its first state repeats (`calls_mul_of_return`).
-/

set_option autoImplicit false
set_option relaxedAutoImplicit false

namespace Bionic.Lib.Calls

variable {σ β : Type} (step : σ → β × σ)

/-- `n` calls of `step` from the state `s`: the values returned, and the state after them. -/
def calls : ℕ → σ → List β × σ
  | 0, s => ([], s)
  | n + 1, s => ((step s).1 :: (calls n (step s).2).1, (calls n (step s).2).2)

@[simp]
theorem calls_zero (s : σ) : calls step 0 s = ([], s) := rfl

@[simp]
theorem calls_succ (n : ℕ) (s : σ) :
    calls step (n + 1) s = ((step s).1 :: (calls step n (step s).2).1, (calls step n (step s).2).2) :=
  rfl

theorem calls_add (m n : ℕ) (s : σ) :
    calls step (m + n) s =
      ((calls step m s).1 ++ (calls step n (calls step m s).2).1, (calls step n (calls step m s).2).2) := by
  induction m generalizing s with
  | zero => simp
  | succ m ih =>
    rw [Nat.add_right_comm, calls_succ, ih]
    simp

theorem calls_of_fixed {s : σ} {b : β} (h : step s = (b, s)) (n : ℕ) :
    calls step n s = (List.replicate n b, s) := by
  induction n with
  | zero => rfl
  | succ n ih => simp [h, ih, List.replicate_succ]

theorem calls_mul_of_return {n : ℕ} {s : σ} {xs : List β} (h : calls step n s = (xs, s)) (m : ℕ) :
    calls step (m * n) s = ((List.replicate m xs).flatten, s) := by
  induction m with
  | zero => simp
  | succ m ih =>
    rw [Nat.succ_mul, calls_add, ih, h]
    simp [List.replicate_succ']

/-- Calls from the counter value `a` that each return the next value of `xs` and advance the
counter by one return `xs`. -/
theorem calls_of_getElem (step : ℤ → β × ℤ) (xs : List β) (a : ℤ)
    (h : ∀ (j : ℕ) (hj : j < xs.length), step (a + j) = (xs[j], a + j + 1)) :
    calls step xs.length a = (xs, a + xs.length) := by
  induction xs generalizing a with
  | nil => simp
  | cons x xs ih =>
    have hstep : step a = (x, a + 1) := by
      have h0 := h 0 (by simp)
      rwa [List.getElem_cons_zero, Int.natCast_zero, Int.add_zero] at h0
    -- the rest of the run starts one further, at the rest of the list
    have hrest := ih (a + 1) fun j hj ↦ by
      have hj' := h (j + 1) (by simpa using hj)
      rw [List.getElem_cons_succ, Int.natCast_add, Int.natCast_one, Int.add_comm (j : ℤ) 1,
        ← Int.add_assoc] at hj'
      exact hj'
    rw [List.length_cons, calls_succ, hstep, hrest]
    simp only [Prod.mk.injEq, true_and]
    omega

end Bionic.Lib.Calls
