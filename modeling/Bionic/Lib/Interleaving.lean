import Mathlib.Logic.Relation
import Mathlib.Algebra.BigOperators.Group.Finset.Piecewise
import Mathlib.Data.Fintype.Card

/-!
Interleavings of agents over a shared state. Each agent has a step function, which fails when the
agent cannot move (it is blocked, or it has finished). A schedule names the agents in the order
they take turns; running it applies their steps in turn, and a turn of an agent that cannot move
changes nothing. Every interleaving of the agents' steps is the run of some schedule.

A predicate that every step of every agent keeps (`Stable`) holds after every run from a state
that satisfies it (`Stable.run`).

Shared counters of such systems count the agents whose local state is of some kind (`count`);
a step changes the local state of one agent, and `count_update` says what that does to the count.
-/

set_option autoImplicit false

namespace Bionic.Lib.Interleaving

variable {σ α : Type} (step : α → σ → Option σ)

/-- The state after the agents of `schedule` take their turns from `s`. -/
def run (s : σ) : List α → σ
  | [] => s
  | a :: schedule => run ((step a s).getD s) schedule

@[simp] theorem run_nil (s : σ) : run step s [] = s := rfl

@[simp] theorem run_cons (s : σ) (a : α) (schedule : List α) :
    run step s (a :: schedule) = run step ((step a s).getD s) schedule := rfl

theorem run_append (s : σ) (first second : List α) :
    run step s (first ++ second) = run step (run step s first) second := by
  induction first generalizing s with
  | nil => rfl
  | cons a first ih => exact ih _

/-- `P` is kept by every step of every agent. -/
def Stable (P : σ → Prop) : Prop := ∀ a s s', P s → step a s = some s' → P s'

variable {step}

theorem Stable.getD {P : σ → Prop} (hP : Stable step P) {s : σ} (hs : P s) (a : α) :
    P ((step a s).getD s) := by
  cases h : step a s with
  | none => exact hs
  | some s' => exact hP a s s' hs h

theorem Stable.run {P : σ → Prop} (hP : Stable step P) {s : σ} (hs : P s) (schedule : List α) :
    P (Interleaving.run step s schedule) := by
  induction schedule generalizing s with
  | nil => exact hs
  | cons a schedule ih => exact ih (hP.getD hs a)

theorem Stable.and {P Q : σ → Prop} (hP : Stable step P) (hQ : ∀ a s s', P s → Q s →
    step a s = some s' → Q s') : Stable step fun s ↦ P s ∧ Q s :=
  fun a s s' hs h ↦ ⟨hP a s s' hs.1 h, hQ a s s' hs.1 hs.2 h⟩

/-! ### Counting agents -/

section Count

variable {β : Type} [Fintype α]

/-- The number of agents whose local state satisfies `p`. -/
def count (p : β → Bool) (locals : α → β) : ℕ :=
  (Finset.univ.filter fun a ↦ p (locals a)).card

variable (p : β → Bool) (locals : α → β)

theorem count_eq_sum : count p locals = ∑ a, if p (locals a) then 1 else 0 :=
  Finset.card_filter _ _

theorem count_update [DecidableEq α] (a : α) (b : β) :
    count p (Function.update locals a b) + (if p (locals a) then 1 else 0) =
      count p locals + (if p b then 1 else 0) := by
  have hupdate : (fun x ↦ if p (Function.update locals a b x) then 1 else 0) =
      Function.update (fun x ↦ if p (locals x) then 1 else 0) a (if p b then 1 else 0) := by
    funext x
    exact Function.apply_update (fun _ v ↦ if p v then 1 else 0) locals a b x
  rw [count_eq_sum, count_eq_sum, hupdate, Finset.sum_update_of_mem (Finset.mem_univ a),
    Finset.sum_eq_add_sum_sdiff_singleton_of_mem (Finset.mem_univ a)]
  omega

theorem count_update_of_eq [DecidableEq α] {a : α} {b : β} (h : p (locals a) = p b) :
    count p (Function.update locals a b) = count p locals := by
  have := count_update p locals a b
  rw [h] at this
  omega

theorem count_update_of_false_true [DecidableEq α] {a : α} {b : β} (ha : p (locals a) = false)
    (hb : p b = true) : count p (Function.update locals a b) = count p locals + 1 := by
  have := count_update p locals a b
  simp only [ha, hb, Bool.false_eq_true, if_false, if_true] at this
  omega

theorem count_update_of_true_false [DecidableEq α] {a : α} {b : β} (ha : p (locals a) = true)
    (hb : p b = false) : count p (Function.update locals a b) + 1 = count p locals := by
  have := count_update p locals a b
  simp only [ha, hb, Bool.false_eq_true, if_false, if_true] at this
  omega

theorem count_le_card : count p locals ≤ Fintype.card α :=
  Finset.card_filter_le _ _

theorem count_eq_card_iff : count p locals = Fintype.card α ↔ ∀ a, p (locals a) = true := by
  rw [count, ← Finset.card_univ, Finset.card_filter_eq_iff]
  simp

theorem count_eq_zero_iff : count p locals = 0 ↔ ∀ a, p (locals a) = false := by
  rw [count, Finset.card_filter_eq_zero_iff]
  simp

theorem exists_of_count_ne_zero (h : count p locals ≠ 0) : ∃ a, p (locals a) = true := by
  by_contra hno
  push Not at hno
  exact h ((count_eq_zero_iff p locals).mpr fun a ↦ by simpa using hno a)

theorem exists_of_count_ne_card (h : count p locals ≠ Fintype.card α) :
    ∃ a, p (locals a) = false := by
  by_contra hno
  push Not at hno
  exact h ((count_eq_card_iff p locals).mpr fun a ↦ by simpa using hno a)

end Count

end Bionic.Lib.Interleaving
