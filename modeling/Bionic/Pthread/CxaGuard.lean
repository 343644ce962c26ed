import Bionic.Lib.Interleaving

/-!
# Guards of function-local statics

The compiler calls `__cxa_guard_acquire` before the first construction of a function-local
static and `__cxa_guard_release` after it, or `__cxa_guard_abort` when the constructor throws.
The guard is one atomic word, `CONSTRUCTION_NOT_YET_STARTED` at first; `acquire` moves it by
compare-exchange to `CONSTRUCTION_UNDERWAY_WITHOUT_WAITER` and returns 1 to the thread that will
construct. A thread that finds the construction underway announces itself by a second
compare-exchange, to `CONSTRUCTION_UNDERWAY_WITH_WAITER`, and sleeps in `futex_wait` while the word
holds that value. `release` and `abort` exchange the word for `CONSTRUCTION_COMPLETE` or
`CONSTRUCTION_NOT_YET_STARTED` and wake every sleeper when the old value announced one.

Threads are interleaved at single atomic steps (`Bionic.Lib.Interleaving`). A thread outside the
guard calls may call `__cxa_guard_acquire` at any time, and one that got 1 calls `release` or
`abort`. `futex_wait` puts a thread to sleep only while the word holds the value it waits for, and
only `futex_wake`, or an interrupt, ends the sleep; the wake after an exchange is a step of its
own. A ghost log records what each call did.

`GuardSystem.Inv` holds in every state a run reaches (`GuardSystem.inv_run`). From it: at most one
thread constructs; a release leaves the word `CONSTRUCTION_COMPLETE` for good, and every later
acquire returns 0 (`GuardSystem.Inv.complete_run`); from `CONSTRUCTION_NOT_YET_STARTED`, in any run
on, the word changes first by a compare-exchange that returns 1 (`GuardSystem.Inv.notYetStarted_run`);
a sleeping thread sleeps on `CONSTRUCTION_UNDERWAY_WITH_WAITER` or has a wake-up on its way
(`GuardSystem.Inv.asleep_woken`). After a release, and after an abort, each thread in `acquire`
comes nearer to its return, or to that compare-exchange, with each step of its own and no farther
with the others' (`GuardSystem.complete_progress`, `GuardSystem.notYetStarted_progress`,
`GuardSystem.Inv.pc_measure_frame`).

Memory orders are not modelled: every step is sequentially consistent.
-/

set_option autoImplicit false
set_option relaxedAutoImplicit false

namespace Bionic.Pthread

open Bionic.Lib.Interleaving

/-- `CONSTRUCTION_NOT_YET_STARTED`. -/
def constructionNotYetStarted : ℕ := 0

/-- `CONSTRUCTION_COMPLETE`. -/
def constructionComplete : ℕ := 1

/-- `CONSTRUCTION_UNDERWAY_WITHOUT_WAITER`. -/
def constructionUnderwayWithoutWaiter : ℕ := 0x100

/-- `CONSTRUCTION_UNDERWAY_WITH_WAITER`. -/
def constructionUnderwayWithWaiter : ℕ := 0x200

/-- Where a thread is in the guard calls. -/
inductive GuardPc where
  /-- Outside the guard calls. -/
  | idle
  /-- At the top of the loop of `__cxa_guard_acquire`, with `old_value`. -/
  | check (oldValue : ℕ)
  /-- At `__futex_wait_ex(&gv->state, false, CONSTRUCTION_UNDERWAY_WITH_WAITER)`. -/
  | waiting
  /-- Asleep in that `futex_wait`. -/
  | asleep
  /-- Back from `futex_wait`, at the load of `old_value`. -/
  | reloading
  /-- `__cxa_guard_acquire` returned 1: the thread runs the constructor. -/
  | constructing
  /-- The exchange of `__cxa_guard_release` or `__cxa_guard_abort` found
  `CONSTRUCTION_UNDERWAY_WITH_WAITER`: at `__futex_wake_ex(&gv->state, false, INT_MAX)`. -/
  | waking
  deriving DecidableEq, Repr

/-- What a guard call did, in the ghost log. -/
inductive GuardEvent (τ : Type) where
  /-- `__cxa_guard_acquire` returned `result`. -/
  | acquired (t : τ) (result : ℕ)
  /-- The exchange of `__cxa_guard_release`. -/
  | released (t : τ)
  /-- The exchange of `__cxa_guard_abort`. -/
  | aborted (t : τ)
  deriving DecidableEq, Repr

/-- The guard word `gv->state`, the threads' places and the ghost log. -/
structure GuardSystem (τ : Type) where
  state : ℕ
  pc : τ → GuardPc
  log : List (GuardEvent τ)

/-- Who moves, and how: `step` is the next atomic step of a thread's `acquire` (a compare-exchange
succeeds when the word holds what it expects; a weak one that fails spuriously loads the value it
expected and changes nothing) or the wake at the end of its `release` or `abort`; `release` and
`abort` are the constructing thread's exchange; `interrupt` ends a `futex_wait` without a wake. -/
inductive GuardAction (τ : Type) where
  | step (t : τ)
  | release (t : τ)
  | abort (t : τ)
  | interrupt (t : τ)
  deriving DecidableEq, Repr

variable {τ : Type} [DecidableEq τ]

namespace GuardSystem

/-- Thread `t` moves to `p`. -/
def setPc (sys : GuardSystem τ) (t : τ) (p : GuardPc) : GuardSystem τ :=
  { sys with pc := Function.update sys.pc t p }

/-- `__cxa_guard_acquire` of thread `t` returns `result`, and `t` goes on at `p`. -/
def acquireReturns (sys : GuardSystem τ) (t : τ) (result : ℕ) (p : GuardPc) : GuardSystem τ :=
  { sys.setPc t p with log := sys.log ++ [.acquired t result] }

/-- `futex_wake(&gv->state, INT_MAX)`: every sleeper goes on to reload `old_value`. -/
def wakeAll (sys : GuardSystem τ) : GuardSystem τ :=
  { sys with pc := fun u ↦ if sys.pc u = .asleep then .reloading else sys.pc u }

/-- `atomic_exchange(&gv->state, value)` of the constructing thread `t`, logged as `event`; `t`
goes on to wake the sleepers when the old value announced one. -/
def exchange (sys : GuardSystem τ) (t : τ) (value : ℕ) (event : GuardEvent τ) : GuardSystem τ :=
  { sys with state := value, log := sys.log ++ [event] }.setPc t
    (if sys.state = constructionUnderwayWithWaiter then .waking else .idle)

end GuardSystem

/-- One atomic step of thread `t` in `__cxa_guard_acquire`, or the wake that ends its `release`
or `abort`; a thread outside the guard calls calls `__cxa_guard_acquire` and loads the word. -/
def guardThreadStep (t : τ) (sys : GuardSystem τ) : Option (GuardSystem τ) :=
  match sys.pc t with
  | .idle => some (sys.setPc t (.check sys.state))
  | .check oldValue =>
    if oldValue = constructionComplete then some (sys.acquireReturns t 0 .idle)
    else if oldValue = constructionNotYetStarted then
      if sys.state = constructionNotYetStarted then
        some ({ sys with state := constructionUnderwayWithoutWaiter }.acquireReturns t 1
          .constructing)
      -- a failed compare-exchange loads the word into `old_value`, and the loop goes on
      else some (sys.setPc t (.check sys.state))
    else if oldValue = constructionUnderwayWithoutWaiter then
      if sys.state = constructionUnderwayWithoutWaiter then
        some ({ sys with state := constructionUnderwayWithWaiter }.setPc t .waiting)
      else some (sys.setPc t (.check sys.state))
    else some (sys.setPc t .waiting)
  | .waiting =>
    -- `futex_wait` sleeps only while the word holds the value it waits for
    if sys.state = constructionUnderwayWithWaiter then some (sys.setPc t .asleep)
    else some (sys.setPc t .reloading)
  | .asleep => none
  | .reloading => some (sys.setPc t (.check sys.state))
  | .constructing => none
  | .waking => some (sys.wakeAll.setPc t .idle)

/-- One step of the guard's threads. -/
def guardStep : GuardAction τ → GuardSystem τ → Option (GuardSystem τ)
  | .step t, sys => guardThreadStep t sys
  | .release t, sys =>
    if sys.pc t = .constructing then
      some (sys.exchange t constructionComplete (.released t))
    else none
  | .abort t, sys =>
    if sys.pc t = .constructing then
      some (sys.exchange t constructionNotYetStarted (.aborted t))
    else none
  | .interrupt t, sys => if sys.pc t = .asleep then some (sys.setPc t .reloading) else none

/-- A zero-initialized guard, with no thread in a guard call. -/
def guardInit : GuardSystem τ :=
  { state := constructionNotYetStarted, pc := fun _ ↦ .idle, log := [] }

/-! ### What a step can do -/

namespace GuardSystem

variable {sys : GuardSystem τ} {t u : τ} {p : GuardPc} {r value : ℕ} {e : GuardEvent τ}

@[simp] theorem setPc_state : (sys.setPc t p).state = sys.state := rfl
@[simp] theorem setPc_log : (sys.setPc t p).log = sys.log := rfl
@[simp] theorem setPc_pc : (sys.setPc t p).pc = Function.update sys.pc t p := rfl
@[simp] theorem acquireReturns_state : (sys.acquireReturns t r p).state = sys.state := rfl
@[simp] theorem acquireReturns_log : (sys.acquireReturns t r p).log = sys.log ++ [.acquired t r] :=
  rfl
@[simp] theorem acquireReturns_pc : (sys.acquireReturns t r p).pc = Function.update sys.pc t p :=
  rfl
omit [DecidableEq τ] in
@[simp] theorem wakeAll_state : sys.wakeAll.state = sys.state := rfl
omit [DecidableEq τ] in
@[simp] theorem wakeAll_log : sys.wakeAll.log = sys.log := rfl
omit [DecidableEq τ] in
@[simp] theorem wakeAll_pc (u : τ) :
    sys.wakeAll.pc u = if sys.pc u = .asleep then .reloading else sys.pc u := rfl
@[simp] theorem exchange_state : (sys.exchange t value e).state = value := rfl
@[simp] theorem exchange_log : (sys.exchange t value e).log = sys.log ++ [e] := rfl
@[simp] theorem exchange_pc : (sys.exchange t value e).pc = Function.update sys.pc t
    (if sys.state = constructionUnderwayWithWaiter then .waking else .idle) := rfl

/-- What one step can do (`guardStep_cases`). -/
inductive Transition (sys : GuardSystem τ) : GuardAction τ → GuardSystem τ → Prop
  /-- A thread moves and leaves the word as it is: it loads the word, fails a compare-exchange,
  goes to `futex_wait`, falls asleep there on `CONSTRUCTION_UNDERWAY_WITH_WAITER`, or leaves it. -/
  | move (t : τ) (a : GuardAction τ) (p : GuardPc) :
    sys.pc t ≠ .constructing → sys.pc t ≠ .waking → p ≠ .constructing →
    (p = .asleep → sys.state = constructionUnderwayWithWaiter) →
    (a = .step t ∨ a = .interrupt t ∧ sys.pc t = .asleep ∧ p = .reloading) →
    Transition sys a (sys.setPc t p)
  /-- `__cxa_guard_acquire` returns 0. -/
  | returnZero (t : τ) : sys.pc t = .check constructionComplete →
    Transition sys (.step t) (sys.acquireReturns t 0 .idle)
  /-- The first compare-exchange succeeds and `__cxa_guard_acquire` returns 1. -/
  | returnOne (t : τ) : sys.pc t = .check constructionNotYetStarted →
    sys.state = constructionNotYetStarted →
    Transition sys (.step t)
      ({ sys with state := constructionUnderwayWithoutWaiter }.acquireReturns t 1 .constructing)
  /-- The second compare-exchange succeeds: a waiter is announced. -/
  | announce (t : τ) : sys.pc t = .check constructionUnderwayWithoutWaiter →
    sys.state = constructionUnderwayWithoutWaiter →
    Transition sys (.step t) ({ sys with state := constructionUnderwayWithWaiter }.setPc t .waiting)
  /-- The wake that ends a release or an abort. -/
  | wake (t : τ) : sys.pc t = .waking → Transition sys (.step t) (sys.wakeAll.setPc t .idle)
  /-- The exchange of `__cxa_guard_release`. -/
  | release (t : τ) : sys.pc t = .constructing →
    Transition sys (.release t) (sys.exchange t constructionComplete (.released t))
  /-- The exchange of `__cxa_guard_abort`. -/
  | abort (t : τ) : sys.pc t = .constructing →
    Transition sys (.abort t) (sys.exchange t constructionNotYetStarted (.aborted t))

theorem Transition.moveStep (hpc : sys.pc t ≠ .constructing) (hwake : sys.pc t ≠ .waking)
    (hp : p ≠ .constructing) (hasleep : p ≠ .asleep) : Transition sys (.step t) (sys.setPc t p) :=
  .move t _ p hpc hwake hp (fun h ↦ absurd h hasleep) (.inl rfl)

end GuardSystem

open GuardSystem in
theorem guardStep_cases {a : GuardAction τ} {sys sys' : GuardSystem τ}
    (hs : guardStep a sys = some sys') : Transition sys a sys' := by
  cases a with
  | step t =>
    simp only [guardStep, guardThreadStep] at hs
    cases hpc : sys.pc t with
    | idle =>
      rw [hpc] at hs
      cases hs
      exact .moveStep (by simp [hpc]) (by simp [hpc]) (by simp) (by simp)
    | check oldValue =>
      rw [hpc] at hs
      dsimp only at hs
      split_ifs at hs with h1 h0 hs0 h100 hs100 <;> cases hs
      · exact .returnZero t (h1 ▸ hpc)
      · exact .returnOne t (h0 ▸ hpc) hs0
      · exact .moveStep (by simp [hpc]) (by simp [hpc]) (by simp) (by simp)
      · exact .announce t (h100 ▸ hpc) hs100
      · exact .moveStep (by simp [hpc]) (by simp [hpc]) (by simp) (by simp)
      · exact .moveStep (by simp [hpc]) (by simp [hpc]) (by simp) (by simp)
    | waiting =>
      rw [hpc] at hs
      dsimp only at hs
      split_ifs at hs with hwait <;> cases hs
      · exact .move t _ _ (by simp [hpc]) (by simp [hpc]) (by simp) (fun _ ↦ hwait) (.inl rfl)
      · exact .moveStep (by simp [hpc]) (by simp [hpc]) (by simp) (by simp)
    | asleep => rw [hpc] at hs; cases hs
    | reloading =>
      rw [hpc] at hs
      cases hs
      exact .moveStep (by simp [hpc]) (by simp [hpc]) (by simp) (by simp)
    | constructing => rw [hpc] at hs; cases hs
    | waking =>
      rw [hpc] at hs
      cases hs
      exact .wake t hpc
  | release t =>
    simp only [guardStep] at hs
    split_ifs at hs with hpc
    cases hs
    exact .release t hpc
  | abort t =>
    simp only [guardStep] at hs
    split_ifs at hs with hpc
    cases hs
    exact .abort t hpc
  | interrupt t =>
    simp only [guardStep] at hs
    split_ifs at hs with hpc
    cases hs
    exact .move t _ _ (by simp [hpc]) (by simp [hpc]) (by simp) (by simp) (.inr ⟨rfl, hpc, rfl⟩)

/-! ### The invariant -/

namespace GuardSystem

variable {sys : GuardSystem τ} {t u : τ} {p : GuardPc}

/-- The guard's invariant. -/
structure Inv (sys : GuardSystem τ) : Prop where
  /-- The word holds one of the four values. -/
  state_mem : sys.state = constructionNotYetStarted ∨ sys.state = constructionComplete ∨
    sys.state = constructionUnderwayWithoutWaiter ∨ sys.state = constructionUnderwayWithWaiter
  /-- At most one thread constructs. -/
  constructing_unique : ∀ t u, sys.pc t = .constructing → sys.pc u = .constructing → t = u
  /-- The construction is underway exactly while a thread constructs. -/
  underway_iff : sys.state = constructionUnderwayWithoutWaiter ∨
    sys.state = constructionUnderwayWithWaiter ↔ ∃ t, sys.pc t = .constructing
  /-- The word is `CONSTRUCTION_COMPLETE` exactly once a release happened. -/
  complete_iff : sys.state = constructionComplete ↔ ∃ t, .released t ∈ sys.log
  /-- A sleeper sleeps on the value it waits for, or a wake-up is on its way. -/
  asleep_woken : ∀ t, sys.pc t = .asleep →
    sys.state = constructionUnderwayWithWaiter ∨ ∃ u, sys.pc u = .waking

theorem update_eq_iff {pc : τ → GuardPc} {q : GuardPc} (hold : pc t ≠ q) (hp : p ≠ q) :
    Function.update pc t p u = q ↔ pc u = q := by
  by_cases hu : u = t
  · subst hu
    simp [hold, hp]
  · simp [Function.update_of_ne hu]

theorem update_eq_of_ne {pc : τ → GuardPc} {q : GuardPc} (hp : p ≠ q)
    (h : Function.update pc t p u = q) : pc u = q := by
  by_cases hu : u = t
  · subst hu
    simp [hp] at h
  · rwa [Function.update_of_ne hu] at h

omit [DecidableEq τ] in
theorem Inv.not_released (h : sys.Inv) (hs : sys.state ≠ constructionComplete) (t : τ) :
    .released t ∉ sys.log :=
  fun hmem ↦ hs (h.complete_iff.mpr ⟨t, hmem⟩)

omit [DecidableEq τ] in
theorem Inv.state_underway (h : sys.Inv) (hpc : sys.pc t = .constructing) :
    sys.state = constructionUnderwayWithoutWaiter ∨ sys.state = constructionUnderwayWithWaiter :=
  h.underway_iff.mpr ⟨t, hpc⟩

/-- A move that leaves the word as it is keeps the invariant; a waking thread moves only once
nobody sleeps. -/
theorem Inv.move (h : sys.Inv) (hpc : sys.pc t ≠ .constructing)
    (hwake : sys.pc t = .waking → ∀ u, sys.pc u ≠ .asleep)
    (hp : p ≠ .constructing) (hasleep : p = .asleep → sys.state = constructionUnderwayWithWaiter) :
    (sys.setPc t p).Inv where
  state_mem := h.state_mem
  constructing_unique u v hu hv :=
    h.constructing_unique u v (update_eq_of_ne hp hu) (update_eq_of_ne hp hv)
  underway_iff := by
    simpa [update_eq_iff hpc hp] using h.underway_iff
  complete_iff := h.complete_iff
  asleep_woken u hu := by
    by_cases hpu : p = .asleep ∧ u = t
    · exact .inl (hasleep hpu.1)
    · have hold : sys.pc u = .asleep := by
        by_cases hut : u = t
        · subst hut
          simp_all
        · simpa [Function.update_of_ne hut] using hu
      rcases h.asleep_woken u hold with hs | ⟨w, hw⟩
      · exact .inl hs
      · refine .inr ⟨w, ?_⟩
        have hwt : w ≠ t := by rintro rfl; exact hwake hw u hold
        simpa [Function.update_of_ne hwt] using hw

theorem Inv.returnZero (h : sys.Inv) (hpc : sys.pc t = .check constructionComplete) :
    (sys.acquireReturns t 0 .idle).Inv := by
  have hmove := h.move (t := t) (p := .idle) (by simp [hpc]) (by simp [hpc]) (by simp) (by simp)
  exact { hmove with
    complete_iff := by simpa using hmove.complete_iff }

theorem Inv.returnOne (h : sys.Inv) (hpc : sys.pc t = .check constructionNotYetStarted)
    (hs : sys.state = constructionNotYetStarted) :
    ({ sys with state := constructionUnderwayWithoutWaiter }.acquireReturns t 1
      .constructing).Inv := by
  -- with the word `CONSTRUCTION_NOT_YET_STARTED`, no thread constructs
  have hnone : ∀ u, sys.pc u ≠ .constructing := fun u hu ↦ by
    rcases h.state_underway hu with h' | h' <;> rw [hs] at h' <;> simp [constructionNotYetStarted,
      constructionUnderwayWithoutWaiter, constructionUnderwayWithWaiter] at h'
  refine ⟨by simp, fun u v hu hv ↦ ?_, by simpa using ⟨t, by simp⟩, ?_, fun u hu ↦ ?_⟩
  · simp only [acquireReturns_pc] at hu hv
    by_contra huv
    rcases eq_or_ne u t with rfl | hut
    · exact hnone v (by simpa [Function.update_of_ne (Ne.symm huv)] using hv)
    · exact hnone u (by simpa [Function.update_of_ne hut] using hu)
  · have := h.not_released (by rw [hs]; decide)
    simp [constructionUnderwayWithoutWaiter, constructionComplete, this]
  · simp only [acquireReturns_pc] at hu
    have hut : u ≠ t := by rintro rfl; simp at hu
    rw [Function.update_of_ne hut] at hu
    rcases h.asleep_woken u hu with h' | ⟨w, hw⟩
    · rw [hs] at h'
      simp [constructionNotYetStarted, constructionUnderwayWithWaiter] at h'
    · have hwt : w ≠ t := by rintro rfl; rw [hpc] at hw; cases hw
      exact .inr ⟨w, by simpa [Function.update_of_ne hwt] using hw⟩

omit [DecidableEq τ] in
theorem Inv.withWaiter (h : sys.Inv) (hs : sys.state = constructionUnderwayWithoutWaiter) :
    ({ sys with state := constructionUnderwayWithWaiter } : GuardSystem τ).Inv where
  state_mem := by simp
  constructing_unique := h.constructing_unique
  underway_iff := by
    simpa using h.underway_iff.mp (.inl hs)
  complete_iff := by
    have := h.not_released (by rw [hs]; decide)
    simpa [constructionUnderwayWithWaiter, constructionComplete] using this
  asleep_woken _ _ := .inl rfl

theorem Inv.announce (h : sys.Inv) (hpc : sys.pc t = .check constructionUnderwayWithoutWaiter)
    (hs : sys.state = constructionUnderwayWithoutWaiter) :
    ({ sys with state := constructionUnderwayWithWaiter }.setPc t .waiting).Inv :=
  (h.withWaiter hs).move (by simp [hpc]) (by simp [hpc]) (by simp) (by simp)

omit [DecidableEq τ] in
theorem Inv.wakeAll (h : sys.Inv) : sys.wakeAll.Inv where
  state_mem := h.state_mem
  constructing_unique u v hu hv := by
    simp only [wakeAll_pc] at hu hv
    split_ifs at hu hv
    exact h.constructing_unique u v hu hv
  underway_iff := by
    refine h.underway_iff.trans (exists_congr fun u ↦ ?_)
    simp only [wakeAll_pc]
    split_ifs with hu <;> simp [hu]
  complete_iff := h.complete_iff
  asleep_woken u hu := by
    simp only [wakeAll_pc] at hu
    split_ifs at hu with h'
    exact absurd hu h'

theorem Inv.wake (h : sys.Inv) (hpc : sys.pc t = .waking) : (sys.wakeAll.setPc t .idle).Inv :=
  h.wakeAll.move (by simp [hpc]) (fun _ u ↦ by simp only [wakeAll_pc]; split_ifs <;> simp_all)
    (by simp) (by simp)

/-- The exchange of a release or an abort: nobody constructs any more, and a sleeper has its
wake-up on the way. -/
theorem Inv.exchange (h : sys.Inv) (hpc : sys.pc t = .constructing) {value : ℕ}
    {e : GuardEvent τ} (hvalue : value = constructionNotYetStarted ∨ value = constructionComplete)
    (he : value = constructionComplete ↔ ∃ u, e = .released u) : (sys.exchange t value e).Inv := by
  have hnone : ∀ u, (sys.exchange t value e).pc u ≠ .constructing := by
    intro u hu
    rcases eq_or_ne u t with rfl | hut
    · simp only [exchange_pc, Function.update_self] at hu
      split_ifs at hu
    · rw [exchange_pc, Function.update_of_ne hut] at hu
      exact hut (h.constructing_unique u t hu hpc)
  have hold := h.not_released (fun hs ↦ by
    rcases h.state_underway hpc with h' | h' <;> rw [hs] at h' <;> cases h')
  refine ⟨?_, fun u _ hu _ ↦ absurd hu (hnone u), ?_, ?_, fun u hu ↦ ?_⟩
  · rcases hvalue with rfl | rfl <;> simp
  · simp only [exchange_state, hnone, exists_false, iff_false]
    rcases hvalue with rfl | rfl <;> decide
  · simp only [exchange_state, exchange_log, List.mem_append, List.mem_singleton, hold,
      false_or]
    rw [he]
    exact exists_congr fun u ↦ eq_comm
  · have hut : u ≠ t := by
      rintro rfl
      simp only [exchange_pc, Function.update_self] at hu
      split_ifs at hu
    rw [exchange_pc, Function.update_of_ne hut] at hu
    rcases h.asleep_woken u hu with hs | ⟨w, hw⟩
    · exact .inr ⟨t, by simp [hs]⟩
    · have hwt : w ≠ t := by rintro rfl; rw [hpc] at hw; cases hw
      exact .inr ⟨w, by rw [exchange_pc, Function.update_of_ne hwt]; exact hw⟩

theorem Inv.transition (h : sys.Inv) {a : GuardAction τ} {sys' : GuardSystem τ}
    (ht : Transition sys a sys') : sys'.Inv := by
  cases ht with
  | move t a p hpc hwake hp hasleep _ => exact h.move hpc (fun h ↦ absurd h hwake) hp hasleep
  | returnZero t hpc => exact h.returnZero hpc
  | returnOne t hpc hs => exact h.returnOne hpc hs
  | announce t hpc hs => exact h.announce hpc hs
  | wake t hpc => exact h.wake hpc
  | release t hpc => exact h.exchange hpc (.inr rfl) (by simp)
  | abort t hpc => exact h.exchange hpc (.inl rfl) (by simp [constructionNotYetStarted,
      constructionComplete])

end GuardSystem

open GuardSystem

theorem GuardSystem.inv_stable : Stable guardStep fun sys : GuardSystem τ ↦ sys.Inv :=
  fun _ _ _ h hs ↦ h.transition (guardStep_cases hs)

omit [DecidableEq τ] in
theorem GuardSystem.inv_guardInit : (guardInit : GuardSystem τ).Inv where
  state_mem := .inl rfl
  constructing_unique _ _ h := by cases h
  underway_iff := by simp [guardInit, constructionNotYetStarted,
    constructionUnderwayWithoutWaiter, constructionUnderwayWithWaiter]
  complete_iff := by simp [guardInit, constructionNotYetStarted, constructionComplete]
  asleep_woken _ h := by cases h

theorem GuardSystem.inv_run (schedule : List (GuardAction τ)) :
    (run guardStep guardInit schedule).Inv :=
  inv_stable.run inv_guardInit schedule

/-! ### What the invariant gives -/

namespace GuardSystem

variable {sys sys' : GuardSystem τ} {a : GuardAction τ} {t u : τ}

omit [DecidableEq τ] in
theorem Inv.not_constructing_of_complete (h : sys.Inv) (hs : sys.state = constructionComplete)
    (t : τ) : sys.pc t ≠ .constructing := fun hpc ↦ by
  rcases h.state_underway hpc with h' | h' <;> rw [hs] at h' <;> cases h'

/-- Once the word is `CONSTRUCTION_COMPLETE`, a step keeps it so, and logs at most an acquire
that returned 0. -/
theorem Inv.complete_transition (h : sys.Inv) (hs : sys.state = constructionComplete)
    (ht : Transition sys a sys') : sys'.state = constructionComplete ∧
      (sys'.log = sys.log ∨ ∃ u, sys'.log = sys.log ++ [.acquired u 0]) := by
  cases ht with
  | move => exact ⟨hs, .inl rfl⟩
  | returnZero t _ => exact ⟨hs, .inr ⟨t, rfl⟩⟩
  | returnOne _ _ hs' => rw [hs] at hs'; cases hs'
  | announce _ _ hs' => rw [hs] at hs'; cases hs'
  | wake => exact ⟨hs, .inl rfl⟩
  | release t hpc => exact absurd hpc (h.not_constructing_of_complete hs t)
  | abort t hpc => exact absurd hpc (h.not_constructing_of_complete hs t)

/-- After a release the word stays `CONSTRUCTION_COMPLETE`, and every acquire that returns
later returns 0. -/
theorem Inv.complete_run (h : sys.Inv) (hs : sys.state = constructionComplete)
    (schedule : List (GuardAction τ)) :
    (run guardStep sys schedule).state = constructionComplete ∧
      ∃ new, (run guardStep sys schedule).log = sys.log ++ new ∧
        ∀ u r, .acquired u r ∈ new → r = 0 := by
  let P : GuardSystem τ → Prop := fun s ↦ s.Inv ∧ s.state = constructionComplete ∧
    ∃ new, s.log = sys.log ++ new ∧ ∀ u r, .acquired u r ∈ new → r = 0
  have hP : Stable guardStep P := by
    rintro a s s' ⟨hinv, hs, new, hlog, hnew⟩ hstep
    have ht := guardStep_cases hstep
    obtain ⟨hs', hlog'⟩ := hinv.complete_transition hs ht
    refine ⟨hinv.transition ht, hs', ?_⟩
    rcases hlog' with hl | ⟨u, hl⟩
    · exact ⟨new, hl.trans hlog, hnew⟩
    · refine ⟨new ++ [.acquired u 0], by rw [hl, hlog, List.append_assoc], fun v r hr ↦ ?_⟩
      rcases List.mem_append.mp hr with hr | hr
      · exact hnew v r hr
      · simp only [List.mem_singleton, GuardEvent.acquired.injEq] at hr
        exact hr.2
  obtain ⟨-, hs', new, hlog, hnew⟩ := hP.run ⟨h, hs, [], by simp, by simp⟩ schedule
  exact ⟨hs', new, hlog, hnew⟩

/-- From `CONSTRUCTION_NOT_YET_STARTED`, the word changes only by a first compare-exchange,
whose `acquire` returns 1. -/
theorem Inv.notYetStarted_transition (h : sys.Inv) (hs : sys.state = constructionNotYetStarted)
    (ht : Transition sys a sys') : sys'.state = constructionNotYetStarted ∨
      ∃ t, a = .step t ∧ sys'.pc t = .constructing ∧ sys'.log = sys.log ++ [.acquired t 1] := by
  cases ht with
  | move => exact .inl hs
  | returnZero => exact .inl hs
  | returnOne t => exact .inr ⟨t, rfl, by simp, rfl⟩
  | announce _ _ hs' => rw [hs] at hs'; cases hs'
  | wake => exact .inl hs
  | release t hpc | abort t hpc =>
    rcases h.state_underway hpc with h' | h' <;> rw [hs] at h' <;> cases h'

/-- After an abort, in any run on, the word stays `CONSTRUCTION_NOT_YET_STARTED` until a first
compare-exchange succeeds, and that `acquire` returns 1. -/
theorem Inv.notYetStarted_run (h : sys.Inv) (hs : sys.state = constructionNotYetStarted)
    (later : List (GuardAction τ)) :
    (run guardStep sys later).state = constructionNotYetStarted ∨
      ∃ pre t post, later = pre ++ .step t :: post ∧
        (run guardStep sys pre).state = constructionNotYetStarted ∧
        ∃ sys', guardStep (.step t) (run guardStep sys pre) = some sys' ∧
          sys'.pc t = .constructing ∧ sys'.log = (run guardStep sys pre).log ++ [.acquired t 1] := by
  -- induction on the run: a first step that keeps the word passes the question on to the rest
  induction later generalizing sys with
  | nil => exact .inl hs
  | cons b later ih =>
    have hfirst : ((guardStep b sys).getD sys).state = constructionNotYetStarted ∨
        ∃ t sys', b = .step t ∧ guardStep (.step t) sys = some sys' ∧
          sys'.pc t = .constructing ∧ sys'.log = sys.log ++ [.acquired t 1] := by
      cases hstep : guardStep b sys with
      | none => exact .inl hs
      | some sys' =>
        rcases h.notYetStarted_transition hs (guardStep_cases hstep) with hs' | ⟨t, rfl, hpc, hlog⟩
        · exact .inl hs'
        · exact .inr ⟨t, sys', rfl, hstep, hpc, hlog⟩
    rcases hfirst with hs₁ | ⟨t, sys', rfl, hstep, hpc, hlog⟩
    · rcases ih (GuardSystem.inv_stable.getD h b) hs₁ with hend | ⟨pre, t, post, hlater, hpre, rest⟩
      · exact .inl hend
      · exact .inr ⟨b :: pre, t, post, by rw [hlater]; rfl, hpre, rest⟩
    · exact .inr ⟨[], t, later, rfl, hs, sys', hstep, hpc, hlog⟩

omit [DecidableEq τ] in
theorem Inv.lowByte (h : sys.Inv) :
    (sys.state % 256 = 0 ∧ ∀ t, .released t ∉ sys.log) ∨
      (sys.state % 2 = 1 ∧ ∃ t, .released t ∈ sys.log) := by
  rcases h.state_mem with hs | hs | hs | hs
  · exact .inl ⟨by rw [hs]; rfl, h.not_released (by rw [hs]; decide)⟩
  · exact .inr ⟨by rw [hs]; rfl, h.complete_iff.mp hs⟩
  · exact .inl ⟨by rw [hs]; rfl, h.not_released (by rw [hs]; decide)⟩
  · exact .inl ⟨by rw [hs]; rfl, h.not_released (by rw [hs]; decide)⟩

theorem guardStep_wake (hu : sys.pc u = .waking) (ht : sys.pc t = .asleep) :
    ∃ sys', guardStep (.step u) sys = some sys' ∧ sys'.pc t = .reloading := by
  have htu : t ≠ u := by rintro rfl; rw [hu] at ht; cases ht
  refine ⟨sys.wakeAll.setPc u .idle, by simp [guardStep, guardThreadStep, hu], ?_⟩
  simp [Function.update_of_ne htu, ht]

/-- While the word is `CONSTRUCTION_COMPLETE` or `CONSTRUCTION_NOT_YET_STARTED`, the steps of the
other threads move a thread only from asleep to reloading: a measure of its place that is no
larger at `reloading` than at `asleep` does not grow. -/
theorem Inv.pc_measure_frame (μ : GuardPc → ℕ) (hμ : μ .reloading ≤ μ .asleep) (h : sys.Inv)
    (hs : sys.state = constructionComplete ∨ sys.state = constructionNotYetStarted)
    {a : GuardAction τ} {sys' : GuardSystem τ} (hstep : guardStep a sys = some sys')
    (ha : a ≠ .step t) : μ (sys'.pc t) ≤ μ (sys.pc t) := by
  cases guardStep_cases hstep with
  | move u a p _ _ _ _ hau =>
    by_cases hut : t = u
    · -- only an interrupt moves `t` here: from asleep to reloading
      subst hut
      rcases hau with rfl | ⟨-, hpc, rfl⟩
      · exact absurd rfl ha
      · simpa [hpc] using hμ
    · simp [Function.update_of_ne hut]
  | returnZero u | returnOne u =>
    have hut : t ≠ u := by rintro rfl; exact ha rfl
    simp [Function.update_of_ne hut]
  | announce _ _ hs' => rcases hs with hs | hs <;> rw [hs] at hs' <;> cases hs'
  | wake u =>
    have hut : t ≠ u := by rintro rfl; exact ha rfl
    simp only [setPc_pc, Function.update_of_ne hut, wakeAll_pc]
    split_ifs with hpc
    · rw [hpc]
      exact hμ
    · exact le_rfl
  | release u hpc | abort u hpc =>
    rcases h.state_underway hpc with h' | h' <;> rcases hs with hs | hs <;> rw [hs] at h' <;>
      cases h'

end GuardSystem

/-- How many steps of its own a thread in `__cxa_guard_acquire` is from returning while the word
is `CONSTRUCTION_COMPLETE`; a sleeper needs its wake-up first. It is 0 outside `acquire`. -/
def GuardPc.stepsToReturn : GuardPc → ℕ
  | .check oldValue =>
    if oldValue = constructionComplete then 1
    else if oldValue = constructionNotYetStarted ∨ oldValue = constructionUnderwayWithoutWaiter
    then 2
    else 4
  | .reloading => 2
  | .waiting => 3
  | .asleep => 5
  | .idle | .constructing | .waking => 0

namespace GuardSystem

variable {sys sys' : GuardSystem τ} {a : GuardAction τ} {t u : τ}

/-- After a release, a thread in `acquire` that is awake can always step, and comes nearer to
returning. -/
theorem complete_progress (hs : sys.state = constructionComplete)
    (hin : 0 < (sys.pc t).stepsToReturn) (hawake : sys.pc t ≠ .asleep) :
    ∃ sys', guardStep (.step t) sys = some sys' ∧
      (sys'.pc t).stepsToReturn < (sys.pc t).stepsToReturn := by
  cases hpc : sys.pc t with
  | check oldValue =>
    -- a compare-exchange fails and loads `CONSTRUCTION_COMPLETE`
    have hne : constructionComplete ≠ constructionNotYetStarted ∧
        constructionComplete ≠ constructionUnderwayWithoutWaiter := by decide
    simp only [guardStep, guardThreadStep, hpc, hs, hne, if_false]
    split_ifs with h1 h0 h100 <;> refine ⟨_, rfl, ?_⟩
    · simp [GuardPc.stepsToReturn, h1]
    · simp only [setPc_pc, Function.update_self, GuardPc.stepsToReturn, h0]
      decide
    · simp only [setPc_pc, Function.update_self, GuardPc.stepsToReturn, h100]
      decide
    · simp [GuardPc.stepsToReturn, h1, h0, h100]
  | waiting =>
    -- `futex_wait` returns at once
    have hne : constructionComplete ≠ constructionUnderwayWithWaiter := by decide
    refine ⟨sys.setPc t .reloading, by simp [guardStep, guardThreadStep, hpc, hs, hne], ?_⟩
    simp [GuardPc.stepsToReturn]
  | reloading =>
    refine ⟨sys.setPc t (.check sys.state), by simp [guardStep, guardThreadStep, hpc], ?_⟩
    simp [GuardPc.stepsToReturn, hs]
  | asleep => exact absurd hpc hawake
  | idle | constructing | waking => simp [hpc, GuardPc.stepsToReturn] at hin

end GuardSystem

/-- How many steps of its own a thread in `__cxa_guard_acquire` is from the compare-exchange that
returns 1 while the word is `CONSTRUCTION_NOT_YET_STARTED`; a sleeper needs its wake-up first. It
is 0 outside `acquire` and while constructing. -/
def GuardPc.stepsToCas : GuardPc → ℕ
  | .check oldValue =>
    if oldValue = constructionNotYetStarted ∨ oldValue = constructionComplete then 1
    else if oldValue = constructionUnderwayWithoutWaiter then 2
    else 4
  | .reloading => 2
  | .waiting => 3
  | .asleep => 5
  | .idle | .constructing | .waking => 0

namespace GuardSystem

variable {sys sys' : GuardSystem τ} {a : GuardAction τ} {t u : τ}

/-- After an abort, a thread in `acquire` that is awake can always step, and comes nearer to the
compare-exchange that returns 1. -/
theorem notYetStarted_progress (hs : sys.state = constructionNotYetStarted)
    (hin : 0 < (sys.pc t).stepsToCas) (hawake : sys.pc t ≠ .asleep) :
    ∃ sys', guardStep (.step t) sys = some sys' ∧
      (sys'.pc t).stepsToCas < (sys.pc t).stepsToCas := by
  cases hpc : sys.pc t with
  | check oldValue =>
    -- the first compare-exchange succeeds; the second one fails and loads the word
    have hne : constructionNotYetStarted ≠ constructionUnderwayWithoutWaiter := by decide
    simp only [guardStep, guardThreadStep, hpc, hs, hne, if_true, if_false]
    split_ifs with h1 h0 h100 <;> refine ⟨_, rfl, ?_⟩
    · simp [GuardPc.stepsToCas, h1]
    · simp [GuardPc.stepsToCas, h0]
    · simp only [setPc_pc, Function.update_self, GuardPc.stepsToCas, h100]
      decide
    · simp [GuardPc.stepsToCas, h1, h0, h100]
  | waiting =>
    -- `futex_wait` returns at once
    have hne : constructionNotYetStarted ≠ constructionUnderwayWithWaiter := by decide
    refine ⟨sys.setPc t .reloading, by simp [guardStep, guardThreadStep, hpc, hs, hne], ?_⟩
    simp [GuardPc.stepsToCas]
  | reloading =>
    refine ⟨sys.setPc t (.check sys.state), by simp [guardStep, guardThreadStep, hpc], ?_⟩
    simp [GuardPc.stepsToCas, hs]
  | asleep => exact absurd hpc hawake
  | idle | constructing | waking => simp [hpc, GuardPc.stepsToCas] at hin

end GuardSystem

open GuardSystem in
theorem cxaGuard_run_safe (schedule : List (GuardAction τ)) :
    let sys := run guardStep guardInit schedule
    -- one thread at a time constructs
    (∀ t u, sys.pc t = .constructing → sys.pc u = .constructing → t = u) ∧
    -- after a release the word stays complete, and every later acquire returns 0
    ((∃ t, .released t ∈ sys.log) → ∀ later : List (GuardAction τ),
      (run guardStep sys later).state = constructionComplete ∧
      ∃ new, (run guardStep sys later).log = sys.log ++ new ∧
        ∀ u r, .acquired u r ∈ new → r = 0) ∧
    -- an abort resets the word, and from there only a first compare-exchange, which returns 1,
    -- changes it
    (∀ a sys', guardStep a sys = some sys' →
      (∀ t, a = .abort t → sys'.state = constructionNotYetStarted) ∧
      (sys.state = constructionNotYetStarted → sys'.state = constructionNotYetStarted ∨
        ∃ t, a = .step t ∧ sys'.pc t = .constructing ∧ sys'.log = sys.log ++ [.acquired t 1])) ∧
    -- no lost wake-up
    (∀ t, sys.pc t = .asleep → sys.state = constructionUnderwayWithWaiter ∨
      ∃ u sys', sys.pc u = .waking ∧ guardStep (.step u) sys = some sys' ∧
        sys'.pc t = .reloading) ∧
    -- after a release every thread in `acquire` nears its return with each step of its own,
    -- and with no step of the others does it get farther
    (sys.state = constructionComplete → ∀ t,
      (0 < (sys.pc t).stepsToReturn → sys.pc t ≠ .asleep → ∃ sys', guardStep (.step t) sys = some sys' ∧
        (sys'.pc t).stepsToReturn < (sys.pc t).stepsToReturn) ∧
      ∀ a sys', guardStep a sys = some sys' → a ≠ .step t →
        (sys'.pc t).stepsToReturn ≤ (sys.pc t).stepsToReturn) ∧
    -- from `CONSTRUCTION_NOT_YET_STARTED`, the first compare-exchange to change the word is an
    -- `acquire` that returns 1
    (sys.state = constructionNotYetStarted → ∀ later,
      (run guardStep sys later).state = constructionNotYetStarted ∨
        ∃ pre t post, later = pre ++ .step t :: post ∧
          (run guardStep sys pre).state = constructionNotYetStarted ∧
          ∃ sys', guardStep (.step t) (run guardStep sys pre) = some sys' ∧
            sys'.pc t = .constructing ∧
            sys'.log = (run guardStep sys pre).log ++ [.acquired t 1]) ∧
    -- after an abort every thread in `acquire` nears that compare-exchange with each step of
    -- its own, and with no step of the others does it get farther
    (sys.state = constructionNotYetStarted → ∀ t,
      (0 < (sys.pc t).stepsToCas → sys.pc t ≠ .asleep → ∃ sys', guardStep (.step t) sys = some sys' ∧
        (sys'.pc t).stepsToCas < (sys.pc t).stepsToCas) ∧
      ∀ a sys', guardStep a sys = some sys' → a ≠ .step t →
        (sys'.pc t).stepsToCas ≤ (sys.pc t).stepsToCas) ∧
    -- the low byte
    ((sys.state % 256 = 0 ∧ ∀ t, .released t ∉ sys.log) ∨
      (sys.state % 2 = 1 ∧ ∃ t, .released t ∈ sys.log)) := by
  intro sys
  have h : sys.Inv := inv_run schedule
  refine ⟨h.constructing_unique, fun hrel later ↦ h.complete_run (h.complete_iff.mpr hrel) later,
    fun a sys' hstep ↦ ⟨?_, fun hs ↦ ?_⟩, fun t ht ↦ ?_, fun hs t ↦ ?_,
    fun hs later ↦ h.notYetStarted_run hs later,
    fun hs t ↦ ⟨notYetStarted_progress hs, fun a sys' hstep ha ↦
      h.pc_measure_frame GuardPc.stepsToCas (by decide) (.inr hs) hstep ha⟩,
    h.lowByte⟩
  · rintro t rfl
    simp only [guardStep] at hstep
    split_ifs at hstep
    cases hstep
    rfl
  · rcases h.notYetStarted_transition hs (guardStep_cases hstep) with h' | ⟨t, ha, hpc, hlog⟩
    · exact .inl h'
    · exact .inr ⟨t, ha, hpc, hlog⟩
  · rcases h.asleep_woken t ht with hs | ⟨u, hu⟩
    · exact .inl hs
    · obtain ⟨sys', hstep, hpc⟩ := guardStep_wake hu ht
      exact .inr ⟨u, sys', hu, hstep, hpc⟩
  · exact ⟨complete_progress hs, fun a sys' hstep ha ↦
      h.pc_measure_frame GuardPc.stepsToReturn (by decide) (.inl hs) hstep ha⟩

end Bionic.Pthread
