import Mathlib.Logic.Function.Basic
import Mathlib.Data.List.Basic

/-!
A store that adds a value under a key only when the key has none. One step finds the value that
is there, adds a new one whose key is the key asked for, or fails and leaves the store as it was;
its flag says whether a value came back. Over a run of steps every value stays under its own key,
and a key has a value exactly when some step at that key succeeded.
-/

set_option autoImplicit false

namespace Bionic.Lib.FindOrAdd

variable {κ α : Type} [DecidableEq κ] (key : α → κ)

/-- One find-or-add at `k`, from the store `m` to the store it leaves, with its flag. -/
inductive Step (m : κ → Option α) (k : κ) : (κ → Option α) → Bool → Prop
  | found {a : α} : m k = some a → Step m k m true
  | added {a : α} : m k = none → key a = k → Step m k (Function.update m k (some a)) true
  | failed : m k = none → Step m k m false

/-- A run of find-or-adds at the keys `ks`, with their flags `oks`. -/
inductive Run : (κ → Option α) → List κ → (κ → Option α) → List Bool → Prop
  | nil (m : κ → Option α) : Run m [] m []
  | cons {m m' m'' : κ → Option α} {k : κ} {ok : Bool} {ks : List κ} {oks : List Bool} :
      Step key m k m' ok → Run m' ks m'' oks → Run m (k :: ks) m'' (ok :: oks)

/-- Every value of the store is stored under its own key. -/
def Keyed (m : κ → Option α) : Prop := ∀ k a, m k = some a → key a = k

variable {key} {m m' m'' : κ → Option α} {k : κ} {ok : Bool}

/-! ### One step -/

theorem Step.apply_of_ne (h : Step key m k m' ok) {k' : κ} (hk : k' ≠ k) : m' k' = m k' := by
  cases h with
  | found _ => rfl
  | added _ _ => exact Function.update_of_ne hk _ _
  | failed _ => rfl

theorem Step.isSome_self (h : Step key m k m' ok) : (m' k).isSome = ok := by
  cases h with
  | found ha => simp [ha]
  | added _ _ => simp
  | failed hn => simp [hn]

theorem Step.eq_of_false (h : Step key m k m' false) : m' = m := by
  cases h with
  | failed _ => rfl

theorem Step.keyed (h : Step key m k m' ok) (hm : Keyed key m) : Keyed key m' := by
  intro k' a ha
  by_cases hk : k' = k
  · subst hk
    cases h with
    | found _ => exact hm _ _ ha
    | added _ hkey =>
      rw [Function.update_self, Option.some.injEq] at ha
      exact ha ▸ hkey
    | failed _ => exact hm _ _ ha
  · rw [h.apply_of_ne hk] at ha
    exact hm _ _ ha

theorem Step.isSome_iff (h : Step key m k m' ok) (k' : κ) :
    (m' k').isSome ↔ (m k').isSome ∨ (k' = k ∧ ok = true) := by
  by_cases hk : k' = k
  · subst hk
    rw [h.isSome_self]
    constructor
    · intro hok
      exact Or.inr ⟨rfl, hok⟩
    · rintro (hsome | ⟨-, hok⟩)
      · -- a key with a value is found, so the step succeeds
        cases h with
        | found _ => rfl
        | added hn _ => simp [hn] at hsome
        | failed hn => simp [hn] at hsome
      · exact hok
  · simp [h.apply_of_ne hk, hk]

/-! ### Runs -/

theorem Run.keyed {ks : List κ} {oks : List Bool} (h : Run key m ks m' oks) (hm : Keyed key m) :
    Keyed key m' := by
  induction h with
  | nil => exact hm
  | cons hstep _ ih => exact ih (hstep.keyed hm)

theorem Run.isSome_iff {ks : List κ} {oks : List Bool} (h : Run key m ks m' oks) (k' : κ) :
    (m' k').isSome ↔ (m k').isSome ∨ (k', true) ∈ ks.zip oks := by
  induction h with
  | nil => simp
  | cons hstep _ ih =>
    rw [ih, hstep.isSome_iff, List.zip_cons_cons, List.mem_cons, Prod.mk.injEq, or_assoc]
    simp only [eq_comm (a := true)]

end Bionic.Lib.FindOrAdd
