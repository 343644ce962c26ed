import Mathlib.Data.List.Basic

/-!
# The order of two elements of a list

`Before l a b`: `l` splits into two parts, with `a` in the first and `b` in the second. For a list
in which each of the two occurs once, such as the events of a run, this is the order of the two.

The order survives putting lists on either side (`Before.append_left`, `Before.append_right`),
and going back from `l.filter p` to `l`, that is inserting elements (`Before.of_filter`). It is
decided through the prefixes of the list (`before_iff_exists_take`).
-/

set_option autoImplicit false
set_option relaxedAutoImplicit false

namespace Bionic.Lib.ListOrder

variable {α : Type}

/-- `a` stands before `b` in `l`. -/
def Before (l : List α) (a b : α) : Prop := ∃ l₁ l₂, l = l₁ ++ l₂ ∧ a ∈ l₁ ∧ b ∈ l₂

theorem before_append_of_mem {l₁ l₂ : List α} {a b : α} (ha : a ∈ l₁) (hb : b ∈ l₂) :
    Before (l₁ ++ l₂) a b :=
  ⟨l₁, l₂, rfl, ha, hb⟩

variable {l : List α} {a b : α}

theorem Before.append_left (h : Before l a b) (l₀ : List α) : Before (l₀ ++ l) a b := by
  obtain ⟨l₁, l₂, rfl, ha, hb⟩ := h
  exact ⟨l₀ ++ l₁, l₂, by rw [List.append_assoc], List.mem_append_right l₀ ha, hb⟩

theorem Before.append_right (h : Before l a b) (l₂ : List α) : Before (l ++ l₂) a b := by
  obtain ⟨l₀, l₁, rfl, ha, hb⟩ := h
  exact ⟨l₀, l₁ ++ l₂, by rw [List.append_assoc], ha, List.mem_append_left l₂ hb⟩

theorem Before.cons (h : Before l a b) (x : α) : Before (x :: l) a b := h.append_left [x]

theorem Before.of_filter {p : α → Bool} (h : Before (l.filter p) a b) : Before l a b := by
  obtain ⟨L₁, L₂, hsplit, ha, hb⟩ := h
  obtain ⟨l₁, l₂, rfl, h₁, h₂⟩ := List.filter_eq_append_iff.mp hsplit
  refine ⟨l₁, l₂, rfl, ?_, ?_⟩
  · rw [← h₁] at ha
    exact (List.mem_filter.mp ha).1
  · rw [← h₂] at hb
    exact (List.mem_filter.mp hb).1

theorem before_iff_exists_take :
    Before l a b ↔ ∃ i ∈ List.range (l.length + 1), a ∈ l.take i ∧ b ∈ l.drop i := by
  constructor
  · rintro ⟨l₁, l₂, rfl, ha, hb⟩
    refine ⟨l₁.length, List.mem_range.mpr (by rw [List.length_append]; omega), ?_, ?_⟩
    · simpa using ha
    · simpa using hb
  · rintro ⟨i, -, ha, hb⟩
    exact ⟨l.take i, l.drop i, (List.take_append_drop i l).symm, ha, hb⟩

instance [DecidableEq α] (l : List α) (a b : α) : Decidable (Before l a b) :=
  decidable_of_iff _ before_iff_exists_take.symm

end Bionic.Lib.ListOrder
