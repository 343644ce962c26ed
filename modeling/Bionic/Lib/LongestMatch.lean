import Mathlib.Data.List.Basic

/-!
# The longest accepted prefix

`IsLongest L w n`: `n` is the length of the longest nonempty prefix of `w` in `L`, or `0` when there
is none. `scan` is maximal munch with commit points: a step either stops or goes on, saying whether
what was read so far is accepted, and the scan returns the length at the last acceptance. It never
returns more than it read (`scan_le`).
-/

set_option autoImplicit false
set_option relaxedAutoImplicit false

namespace Bionic.Lib.LongestMatch

variable {α σ : Type}

/-- `n` is the length of the longest nonempty prefix of `w` in `L`, or `0` if there is none. -/
structure IsLongest (L : List α → Prop) (w : List α) (n : ℕ) : Prop where
  le_length : n ≤ w.length
  accepted : 0 < n → L (w.take n)
  maximal : ∀ m ≤ w.length, 0 < m → L (w.take m) → m ≤ n

variable {L : List α → Prop}

theorem isLongest_self {w : List α} (hw : L w) : IsLongest L w w.length :=
  ⟨Nat.le_refl _, fun _ ↦ by rwa [List.take_length], fun _ hm _ _ ↦ hm⟩

section Scan

variable (step : σ → α → Option (σ × Bool))

/-- The scan from state `q` over `w`, having read `pos` elements and accepted the first `commit`
of them. -/
def scan : σ → List α → ℕ → ℕ → ℕ
  | _, [], _, commit => commit
  | q, c :: w, pos, commit =>
    match step q c with
    | none => commit
    | some (q', accept) => scan q' w (pos + 1) (if accept then pos + 1 else commit)

theorem scan_le (w : List α) :
    ∀ (q : σ) (pos commit : ℕ), commit ≤ pos → scan step q w pos commit ≤ pos + w.length := by
  induction w with
  | nil =>
    intro q pos commit h
    simpa [scan] using h
  | cons c w ih =>
    intro q pos commit h
    simp only [scan]
    split
    · simp only [List.length_cons]
      omega
    · rename_i q' accept _
      have hcommit : (if accept then pos + 1 else commit) ≤ pos + 1 := by
        split <;> omega
      have hnext := ih q' (pos + 1) _ hcommit
      simp only [List.length_cons]
      omega

end Scan

end Bionic.Lib.LongestMatch
