import Mathlib.Data.List.Basic

/-!
# Filtering a terminated array in place

A terminated array of `α` is a function from slots to `Option α`: the entries from a start slot,
then `none`. `compactFrom` filters it in place with two cursors: it reads the entry at `src`,
copies it to `dst` when the test keeps it, and at the terminator writes a terminator at `dst`. The
test also returns what it read of the entry, which the walk logs by slot.

From an array that holds `entries` (`Holds`), the walk returns within `entries.length + 1`
rounds (`compactFrom_spec`). The array then holds the kept entries, in order, from `dst`, every
slot below `dst` and past the old terminator is as it was, and every logged read is of an entry at
its own slot. The write cursor never passes the read cursor, so no entry is written over before it
is read.
-/

set_option autoImplicit false
set_option relaxedAutoImplicit false

namespace Bionic.Lib.Compact

variable {α β : Type}

/-- `array` holds `entries` from slot `start`, and then the terminator. -/
def Holds (array : ℕ → Option α) (start : ℕ) (entries : List α) : Prop :=
  (∀ j < entries.length, array (start + j) = entries[j]?) ∧ array (start + entries.length) = none

/-- The walk from `src` with the write cursor at `dst`, for at most `fuel` rounds: the array
after it, and the log of reads. -/
def compactFrom (test : α → Bool × List β) :
    ℕ → (ℕ → Option α) → ℕ → ℕ → List (ℕ × β) → Option ((ℕ → Option α) × List (ℕ × β))
  | 0, _, _, _, _ => none
  | fuel + 1, array, src, dst, log =>
    match array src with
    | none => some (Function.update array dst none, log)
    | some x =>
      let log := log ++ (test x).2.map ((src, ·))
      if (test x).1 then
        compactFrom test fuel (Function.update array dst (some x)) (src + 1) (dst + 1) log
      else compactFrom test fuel array (src + 1) dst log

/-- What the walk over `entries` from `src` leaves: the kept entries from `dst`, the slots below
`dst` and past the old terminator as they were, and every read in the log new only if it is of
an entry at its slot. -/
structure Compacted (test : α → Bool × List β) (entries : List α) (array : ℕ → Option α)
    (src dst : ℕ) (log : List (ℕ × β)) (array' : ℕ → Option α) (log' : List (ℕ × β)) : Prop where
  holds : Holds array' dst (entries.filter fun x ↦ (test x).1)
  below : ∀ i < dst, array' i = array i
  above : ∀ i, src + entries.length < i → array' i = array i
  log_mem : ∀ p ∈ log', p ∈ log ∨ ∃ j x, entries[j]? = some x ∧ p.1 = src + j ∧ p.2 ∈ (test x).2

theorem holds_tail {array : ℕ → Option α} {start : ℕ} {x : α} {rest : List α}
    (h : Holds array start (x :: rest)) : Holds array (start + 1) rest := by
  refine ⟨fun j hj ↦ ?_, ?_⟩
  · have := h.1 (j + 1) (by simp; omega)
    rw [show start + 1 + j = start + (j + 1) by omega, this]
    simp
  · have := h.2
    rw [show start + 1 + rest.length = start + (x :: rest).length by simp; omega, this]

theorem holds_head {array : ℕ → Option α} {start : ℕ} {x : α} {rest : List α}
    (h : Holds array start (x :: rest)) : array start = some x := by
  simpa using h.1 0 (by simp)

theorem holds_update_of_lt {array : ℕ → Option α} {start i : ℕ} {entries : List α} (hi : i < start)
    (h : Holds array start entries) (v : Option α) :
    Holds (Function.update array i v) start entries := by
  refine ⟨fun j hj ↦ ?_, ?_⟩
  · rw [Function.update_of_ne (by omega)]
    exact h.1 j hj
  · rw [Function.update_of_ne (by omega)]
    exact h.2

theorem holds_cons {array : ℕ → Option α} {start : ℕ} {x : α} {rest : List α}
    (hx : array start = some x) (h : Holds array (start + 1) rest) :
    Holds array start (x :: rest) := by
  refine ⟨fun j hj ↦ ?_, ?_⟩
  · cases j with
    | zero => simpa using hx
    | succ j =>
      rw [show start + (j + 1) = start + 1 + j by omega, h.1 j (by simp at hj; omega)]
      simp
  · rw [show start + (x :: rest).length = start + 1 + rest.length by simp; omega]
    exact h.2

/-- The walk over `entries`, by induction on them: each round reads the entry at `src` before any
write at `dst ≤ src`, and keeps or skips it. -/
theorem compactFrom_spec (test : α → Bool × List β) (entries : List α) :
    ∀ (array : ℕ → Option α) (src dst fuel : ℕ) (log : List (ℕ × β)), dst ≤ src →
      Holds array src entries → entries.length < fuel →
      ∃ array' log', compactFrom test fuel array src dst log = some (array', log') ∧
        Compacted test entries array src dst log array' log' := by
  induction entries with
  | nil =>
    intro array src dst fuel log hle hold hfuel
    obtain ⟨fuel, rfl⟩ : ∃ f, fuel = f + 1 := ⟨fuel - 1, by simp at hfuel; omega⟩
    have hnone : array src = none := by simpa using hold.2
    refine ⟨Function.update array dst none, log, by simp [compactFrom, hnone], ?_⟩
    refine ⟨⟨fun j hj ↦ absurd hj (by simp), by simp⟩, fun i hi ↦ ?_, fun i hi ↦ ?_,
      fun p hp ↦ .inl hp⟩
    · rw [Function.update_of_ne (by omega)]
    · rw [Function.update_of_ne (by simp at hi; omega)]
  | cons x rest ih =>
    intro array src dst fuel log hle hold hfuel
    obtain ⟨fuel, rfl⟩ : ∃ f, fuel = f + 1 := ⟨fuel - 1, by simp at hfuel; omega⟩
    have hx := holds_head hold
    have hrest := holds_tail hold
    have hfuel' : rest.length < fuel := by simp at hfuel; omega
    -- the new reads are of `x`, at slot `src`
    have hlog : ∀ (log' : List (ℕ × β)), (∀ p ∈ log', p ∈ log ++ (test x).2.map ((src, ·)) ∨
        ∃ j y, rest[j]? = some y ∧ p.1 = src + 1 + j ∧ p.2 ∈ (test y).2) →
        ∀ p ∈ log', p ∈ log ∨ ∃ j y, (x :: rest)[j]? = some y ∧ p.1 = src + j ∧ p.2 ∈ (test y).2 := by
      intro log' hmem p hp
      rcases hmem p hp with hp | ⟨j, y, hy, h1, h2⟩
      · rcases List.mem_append.mp hp with hp | hp
        · exact .inl hp
        · obtain ⟨b, hb, rfl⟩ := List.mem_map.mp hp
          exact .inr ⟨0, x, rfl, by simp, hb⟩
      · exact .inr ⟨j + 1, y, by simpa using hy, by rw [h1]; omega, h2⟩
    by_cases hkeep : (test x).1 = true
    · -- kept: written to `dst`, which is at most `src`
      obtain ⟨array', log', hrun, hc⟩ := ih (Function.update array dst (some x)) (src + 1)
        (dst + 1) fuel (log ++ (test x).2.map ((src, ·))) (by omega)
        (holds_update_of_lt (by omega) hrest _) hfuel'
      refine ⟨array', log', by simp [compactFrom, hx, hkeep, hrun], ?_⟩
      have hdst : array' dst = some x := by
        rw [hc.below dst (by omega)]
        simp
      refine ⟨?_, fun i hi ↦ ?_, fun i hi ↦ ?_, hlog log' hc.log_mem⟩
      · rw [List.filter_cons, if_pos hkeep]
        exact holds_cons hdst hc.holds
      · rw [hc.below i (by omega), Function.update_of_ne (by omega)]
      · rw [hc.above i (by simp at hi; omega), Function.update_of_ne (by simp at hi; omega)]
    · -- skipped: the write cursor stays
      obtain ⟨array', log', hrun, hc⟩ := ih array (src + 1) dst fuel
        (log ++ (test x).2.map ((src, ·))) (by omega) hrest hfuel'
      refine ⟨array', log', by simp [compactFrom, hx, hkeep, hrun], ?_⟩
      refine ⟨?_, hc.below, fun i hi ↦ hc.above i (by simp at hi; omega), hlog log' hc.log_mem⟩
      rw [List.filter_cons, if_neg hkeep]
      exact hc.holds

end Bionic.Lib.Compact
