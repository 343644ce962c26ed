import Mathlib.Data.List.Basic

/-!
# The longest prefix of chunks that fits a budget

A converter that writes whole units into a buffer of `n` bytes keeps the units, in order, while
their total stays within `n`, and stops at the first that does not fit. `fitChunks n cs` is that
prefix of the chunks `cs`. It fits (`length_flatten_fitChunks_le`), it is a prefix of `cs`
(`take_length_fitChunks`), and no longer prefix fits (`le_length_fitChunks`).
-/

set_option autoImplicit false
set_option relaxedAutoImplicit false

namespace Bionic.Lib.FitChunks

variable {α : Type}

/-- The chunks of `cs`, in order, while their total length stays within `n`. -/
def fitChunks (n : ℕ) : List (List α) → List (List α)
  | [] => []
  | c :: cs => if c.length ≤ n then c :: fitChunks (n - c.length) cs else []

@[simp]
theorem fitChunks_nil (n : ℕ) : fitChunks n ([] : List (List α)) = [] := rfl

theorem fitChunks_cons_of_le {n : ℕ} {c : List α} (cs : List (List α)) (h : c.length ≤ n) :
    fitChunks n (c :: cs) = c :: fitChunks (n - c.length) cs := by
  rw [fitChunks, if_pos h]

theorem fitChunks_cons_of_lt {n : ℕ} {c : List α} (cs : List (List α)) (h : n < c.length) :
    fitChunks n (c :: cs) = [] := by
  rw [fitChunks, if_neg (by omega)]

theorem length_flatten_fitChunks_le (n : ℕ) (cs : List (List α)) :
    (fitChunks n cs).flatten.length ≤ n := by
  induction cs generalizing n with
  | nil => simp
  | cons c cs ih =>
    by_cases h : c.length ≤ n
    · rw [fitChunks_cons_of_le cs h, List.flatten_cons, List.length_append]
      have := ih (n - c.length)
      omega
    · rw [fitChunks_cons_of_lt cs (by omega)]
      simp

theorem take_length_fitChunks (n : ℕ) (cs : List (List α)) :
    cs.take (fitChunks n cs).length = fitChunks n cs := by
  induction cs generalizing n with
  | nil => simp
  | cons c cs ih =>
    by_cases h : c.length ≤ n
    · rw [fitChunks_cons_of_le cs h, List.length_cons, List.take_succ_cons, ih]
    · rw [fitChunks_cons_of_lt cs (by omega)]
      rfl

theorem le_length_fitChunks (n k : ℕ) (cs : List (List α)) (h : (cs.take k).flatten.length ≤ n) :
    min k cs.length ≤ (fitChunks n cs).length := by
  induction cs generalizing n k with
  | nil => simp
  | cons c cs ih =>
    rcases k with _ | k
    · simp
    rw [List.take_succ_cons, List.flatten_cons, List.length_append] at h
    rw [fitChunks_cons_of_le cs (by omega), List.length_cons, List.length_cons]
    have := ih (n - c.length) k (by omega)
    omega

end Bionic.Lib.FitChunks
