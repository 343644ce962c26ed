import Mathlib.Data.BitVec

/-!
# Fields packed in a word, and the last write to each

A word of `w` bits holds several fields, each under a mask: `field mask shift x` reads one,
`setField mask shift x v` clears the bits of its mask and ORs in `v` shifted into place. Setting
a field and reading it back gives the value set, when the value fits the mask
(`setField_and_self`, `field_setField_self`), and reading a field whose mask is disjoint from
the one set gives what it held before (`setField_and_of_disjoint`,
`field_setField_of_disjoint`). Setting a one-bit field to one is an OR with its
mask, and to zero an AND with the complement (`or_eq_setField`, `and_not_eq_setField`); ORing
in one bit adds exactly that bit and ANDing with its complement removes exactly it
(`getLsbD_or_one_shiftLeft`, `getLsbD_and_not_one_shiftLeft`).

A field written by a sequence of calls, each of which either sets it or leaves it alone, holds
the value of the last call that set it (`lastWrite`, `foldl_lastWrite`): the read of a whole run
follows from what one call does.
-/

set_option autoImplicit false
set_option relaxedAutoImplicit false

namespace Bionic.Lib.BitField

/-! ### Fields under a mask -/

section Field

variable {w : ℕ}

/-- The field of `x` under `mask`, shifted down by `shift`. -/
def field (mask : BitVec w) (shift : ℕ) (x : BitVec w) : BitVec w := (x &&& mask) >>> shift

/-- `x` with the bits of `mask` cleared and `v`, shifted up by `shift`, ORed in. -/
def setField (mask : BitVec w) (shift : ℕ) (x v : BitVec w) : BitVec w :=
  (x &&& ~~~mask) ||| (v <<< shift)

theorem setField_and_self {mask : BitVec w} {shift : ℕ} {v : BitVec w}
    (hin : v <<< shift &&& mask = v <<< shift) (x : BitVec w) :
    setField mask shift x v &&& mask = v <<< shift := by
  unfold setField
  rw [BitVec.and_or_distrib_right, BitVec.and_assoc, BitVec.not_and_self]
  simp [hin]

theorem setField_and_of_disjoint {m₁ m₂ : BitVec w} {s₁ : ℕ} {v : BitVec w}
    (hdisj : m₁ &&& m₂ = 0) (hin : v <<< s₁ &&& m₁ = v <<< s₁) (x : BitVec w) :
    setField m₁ s₁ x v &&& m₂ = x &&& m₂ := by
  unfold setField
  ext i hi
  have h₁ := congrArg (fun y : BitVec w ↦ y[i]) hdisj
  have h₂ := congrArg (fun y : BitVec w ↦ y[i]) hin
  simp only [BitVec.getElem_and, BitVec.getElem_or, BitVec.getElem_not] at h₁ h₂ ⊢
  cases hx : x[i] <;> cases hm₁ : m₁[i] <;> cases hm₂ : m₂[i] <;> simp_all

theorem field_setField_self {mask : BitVec w} {shift : ℕ} {v : BitVec w}
    (hin : v <<< shift &&& mask = v <<< shift) (hlost : (v <<< shift) >>> shift = v)
    (x : BitVec w) : field mask shift (setField mask shift x v) = v := by
  rw [field, setField_and_self hin, hlost]

theorem field_setField_of_disjoint {m₁ m₂ : BitVec w} {s₁ s₂ : ℕ} {v : BitVec w}
    (hdisj : m₁ &&& m₂ = 0) (hin : v <<< s₁ &&& m₁ = v <<< s₁) (x : BitVec w) :
    field m₂ s₂ (setField m₁ s₁ x v) = field m₂ s₂ x := by
  rw [field, field, setField_and_of_disjoint hdisj hin]

theorem and_not_eq_setField (mask : BitVec w) (shift : ℕ) (x : BitVec w) :
    x &&& ~~~mask = setField mask shift x 0 := by
  simp [setField]

theorem or_eq_setField {mask v : BitVec w} {shift : ℕ} (h : v <<< shift = mask) (x : BitVec w) :
    x ||| mask = setField mask shift x v := by
  rw [setField, h]
  ext i hi
  simp only [BitVec.getElem_or, BitVec.getElem_and, BitVec.getElem_not]
  cases x[i] <;> cases mask[i] <;> rfl

theorem getLsbD_or_one_shiftLeft (x : BitVec w) {b : ℕ} (hb : b < w) (j : ℕ) :
    (x ||| 1#w <<< b).getLsbD j = (x.getLsbD j || decide (j = b)) := by
  rw [← BitVec.twoPow_eq, BitVec.getLsbD_or, BitVec.getLsbD_twoPow]
  simp [hb, eq_comm]

theorem getLsbD_and_not_one_shiftLeft (x : BitVec w) {b : ℕ} (hb : b < w) (j : ℕ) :
    (x &&& ~~~(1#w <<< b)).getLsbD j = (x.getLsbD j && !decide (j = b)) := by
  rw [← BitVec.twoPow_eq, BitVec.getLsbD_and, BitVec.getLsbD_not, BitVec.getLsbD_twoPow]
  by_cases hj : j < w
  · simp [hb, hj, eq_comm]
  -- above the width both sides are false
  · simp [hj, BitVec.getLsbD_of_ge x j (by omega)]

end Field

/-! ### The last write to a field -/

section LastWrite

variable {α β : Type} (write : α → Option β)

/-- The value the last of `calls` that writes gives, `init` if none does. -/
def lastWrite (init : β) (calls : List α) : β :=
  calls.foldl (fun v c ↦ (write c).getD v) init

@[simp]
theorem lastWrite_nil (init : β) : lastWrite write init [] = init := rfl

theorem lastWrite_map {γ : Type} (g : β → γ) (init : β) (calls : List α) :
    lastWrite (fun c ↦ (write c).map g) (g init) calls = g (lastWrite write init calls) := by
  induction calls generalizing init with
  | nil => rfl
  | cons c calls ih =>
    simp only [lastWrite, List.foldl_cons] at ih ⊢
    cases write c <;> simp [ih]

theorem lastWrite_append_singleton (init : β) (calls : List α) (c : α) :
    lastWrite write init (calls ++ [c]) = (write c).getD (lastWrite write init calls) := by
  simp [lastWrite]

theorem foldl_lastWrite {σ : Type} (step : σ → α → σ) (read : σ → β)
    (hstep : ∀ s c, read (step s c) = (write c).getD (read s)) (s : σ) (calls : List α) :
    read (calls.foldl step s) = lastWrite write (read s) calls := by
  induction calls generalizing s with
  | nil => rfl
  | cons c calls ih => rw [List.foldl_cons, ih, hstep]; rfl

theorem lastWrite_of_const [DecidableEq β] {v : β} (hv : ∀ c, write c = none ∨ write c = some v) (init : β)
    (calls : List α) :
    lastWrite write init calls = if ∃ c ∈ calls, write c = some v then v else init := by
  induction calls using List.reverseRecOn with
  | nil => simp
  | append_singleton calls c ih =>
    rw [lastWrite_append_singleton, ih]
    rcases hv c with hc | hc
    · simp [hc]
    · simp [hc]

end LastWrite

end Bionic.Lib.BitField
