import Bionic.Errno
import Bionic.Lib.Interleaving
import Mathlib.Algebra.Order.BigOperators.Group.Finset

/-!
# Barriers

`pthread_barrier_wait` lets `init_count` threads meet, cycle after cycle: in each cycle every
thread enters, the last one to enter returns `PTHREAD_BARRIER_SERIAL_THREAD` and the others 0,
and a thread that calls again before the others have left waits at the entry until they have.
The barrier is a `state` word, `WAIT` while threads arrive and `RELEASE` while they leave, and a
`wait_count` of the threads inside the cycle, raised by compare-exchange and lowered by
`fetch_sub`.

The model runs threads that call `pthread_barrier_wait` whenever they are scheduled between
calls, interleaved at single atomic steps (`Bionic.Lib.Interleaving`); a futex wait is a step
that is not enabled while the word holds the value waited on. Ghost fields record what each
thread's calls returned and which thread arrived last in each completed cycle.

With as many threads as `init_count`, `BarrierSystem.Inv` holds in every state a run from
`pthread_barrier_init` reaches (`BarrierSystem.inv_run`). From it (`pthreadBarrierWait_cycles`):
no thread returns from its `k`-th call before every thread has entered its `k`-th call, every
call returns 0 or `PTHREAD_BARRIER_SERIAL_THREAD`, exactly one of the `k`-th calls returns the
latter, and when no thread is inside, `wait_count` is 0 and `state` is `WAIT`. Once every thread
has entered its `k`-th call, each step of a thread still in it lowers the steps those calls have
left, and one of them can always step: the `k`-th calls all return under a fair scheduler.
-/

set_option autoImplicit false
set_option relaxedAutoImplicit false

namespace Bionic.Pthread

open Bionic.Lib.Interleaving

/-- `PTHREAD_BARRIER_SERIAL_THREAD`. -/
def pthreadBarrierSerialThread : ℤ := -1

/-- `BarrierState`. -/
inductive BarrierState where
  | wait
  | release
  deriving DecidableEq, Repr

/-- `pthread_barrier_internal_t`, without `pshared`, which only picks the flavour of the
futex calls. -/
structure PthreadBarrier where
  initCount : ℕ
  state : BarrierState
  waitCount : ℕ
  deriving DecidableEq, Repr

/-- `pthread_barrier_init`. -/
def pthreadBarrierInit (count : ℕ) : Except ℤ PthreadBarrier :=
  if count = 0 then .error einval
  else .ok { initCount := count, state := .wait, waitCount := 0 }

/-- Where a thread is in `pthread_barrier_wait`, with its locals. -/
inductive WaitPc where
  /-- Between two calls. -/
  | idle
  /-- `while (state == RELEASE) futex_wait`. -/
  | entering
  /-- `prev_wait_count = wait_count`. -/
  | loadingCount
  /-- The compare-exchange loop, with `prev_wait_count`. -/
  | casLoop (prev : ℕ)
  /-- The last thread to arrive stores `RELEASE`. -/
  | releasing
  /-- `while (state == WAIT) futex_wait`. -/
  | waiting
  /-- `fetch_sub(&wait_count, 1)`, with the `result` to return. -/
  | leaving (result : ℤ)
  /-- The last thread to leave stores `WAIT`. -/
  | resetting (result : ℤ)
  deriving DecidableEq, Repr

/-- The barrier and the threads, with ghost fields: what each thread's calls returned, and the
thread that arrived last in each completed cycle. -/
structure BarrierSystem (τ : Type) where
  barrier : PthreadBarrier
  pc : τ → WaitPc
  results : τ → List ℤ
  serials : List τ

variable {τ : Type} [DecidableEq τ]

namespace BarrierSystem

/-- Thread `t` moves to `p`. -/
def setPc (sys : BarrierSystem τ) (t : τ) (p : WaitPc) : BarrierSystem τ :=
  { sys with pc := Function.update sys.pc t p }

/-- Thread `t` returns `result`. -/
def finish (sys : BarrierSystem τ) (t : τ) (result : ℤ) : BarrierSystem τ :=
  { sys with
    pc := Function.update sys.pc t .idle
    results := Function.update sys.results t (sys.results t ++ [result]) }

end BarrierSystem

/-- One atomic step of thread `t` in `pthread_barrier_wait`; a thread between calls makes a new
one. -/
def waitStep (t : τ) (sys : BarrierSystem τ) : Option (BarrierSystem τ) :=
  let b := sys.barrier
  match sys.pc t with
  | .idle => some (sys.setPc t .entering)
  | .entering => if b.state = .release then none else some (sys.setPc t .loadingCount)
  | .loadingCount => some (sys.setPc t (.casLoop b.waitCount))
  | .casLoop prev =>
    if prev ≥ b.initCount then some (sys.finish t einval)
    else if b.waitCount = prev then
      let sys := { sys with barrier := { b with waitCount := prev + 1 } }
      if prev + 1 = b.initCount then
        -- `t` arrives last and completes the cycle
        let sys := { sys with serials := sys.serials ++ [t] }
        if prev ≠ 0 then some (sys.setPc t .releasing)
        else some (sys.setPc t (.leaving pthreadBarrierSerialThread))
      else some (sys.setPc t .waiting)
    -- a failed compare-exchange loads `wait_count` into `prev_wait_count`
    else some (sys.setPc t (.casLoop b.waitCount))
  | .releasing =>
    some ({ sys with barrier := { b with state := .release } }.setPc t
      (.leaving pthreadBarrierSerialThread))
  | .waiting => if b.state = .wait then none else some (sys.setPc t (.leaving 0))
  | .leaving result =>
    let sys' := { sys with barrier := { b with waitCount := b.waitCount - 1 } }
    if b.waitCount = 1 then some (sys'.setPc t (.resetting result))
    else some (sys'.finish t result)
  | .resetting result => some ({ sys with barrier := { b with state := .wait } }.finish t result)

/-! ### What a barrier is for -/

namespace BarrierSystem

/-- The number of calls thread `t` has entered. -/
def entered (sys : BarrierSystem τ) (t : τ) : ℕ :=
  (sys.results t).length + if sys.pc t = .idle then 0 else 1

end BarrierSystem

/-- How many steps of its own a thread is from returning, with `n` threads: a compare-exchange
that fails has seen a larger `wait_count`, so each one brings `prev` nearer to `n`. -/
def WaitPc.stepsToReturn (n : ℕ) : WaitPc → ℕ
  | .idle => 0
  | .entering => 2 * n + 4
  | .loadingCount => 2 * n + 3
  | .casLoop prev => 2 * (n - prev) + 2
  | .releasing | .waiting => 3
  | .leaving _ => 2
  | .resetting _ => 1

namespace BarrierSystem

/-- The steps thread `t` has left in its `k`-th call: none once it has returned from it. -/
def stepsLeft (sys : BarrierSystem τ) (k : ℕ) (t : τ) : ℕ :=
  if (sys.results t).length ≤ k then (sys.pc t).stepsToReturn sys.barrier.initCount else 0

/-- The steps left to the threads that have not returned from their `k`-th call. -/
def stepsToReturn [Fintype τ] (sys : BarrierSystem τ) (k : ℕ) : ℕ := ∑ t, sys.stepsLeft k t

/-- A barrier's contract, in a state of a run: no thread has returned from more calls than any
thread has entered; every call returned 0 or `PTHREAD_BARRIER_SERIAL_THREAD`; of the calls of one
cycle at most one returned the latter, and once all have returned, exactly one; a barrier
with no thread inside is back to `wait_count` 0 and `WAIT`; and once every thread has entered its
`k`-th call, each step of a thread still in it lowers the steps left to those calls, no step
raises them, and while one of them has not returned, one of them can step. -/
structure CyclesOk [Fintype τ] (sys : BarrierSystem τ) : Prop where
  returned_le_entered : ∀ t u, (sys.results t).length ≤ sys.entered u
  result_cases : ∀ t (k : ℕ) r, (sys.results t)[k]? = some r →
    r = 0 ∨ r = pthreadBarrierSerialThread
  serial_unique : ∀ t u (k : ℕ), (sys.results t)[k]? = some pthreadBarrierSerialThread →
    (sys.results u)[k]? = some pthreadBarrierSerialThread → t = u
  serial_exists : ∀ k : ℕ, (∀ t, k < (sys.results t).length) →
    ∃ s, (sys.results s)[k]? = some pthreadBarrierSerialThread ∧
      ∀ t, t ≠ s → (sys.results t)[k]? = some 0
  idle_reset : (∀ t, sys.pc t = .idle) → sys.barrier.waitCount = 0 ∧ sys.barrier.state = .wait
  progress : ∀ k : ℕ, (∀ t, k < sys.entered t) →
    (∀ t sys', waitStep t sys = some sys' → sys'.stepsToReturn k ≤ sys.stepsToReturn k ∧
      ((sys.results t).length ≤ k → sys'.stepsToReturn k < sys.stepsToReturn k)) ∧
    ((∃ t, (sys.results t).length ≤ k) →
      ∃ t, (sys.results t).length ≤ k ∧ (waitStep t sys).isSome)

end BarrierSystem

/-! ### The invariant -/

namespace WaitPc

/-- Counted in `wait_count`: arrived in the cycle and not past the `fetch_sub`. -/
def holds : WaitPc → Bool
  | releasing | waiting | leaving _ => true
  | _ => false

/-- Arrived in the cycle and not returned. -/
def arrived : WaitPc → Bool
  | releasing | waiting | leaving _ | resetting _ => true
  | _ => false

/-- Leaving the barrier: at the `fetch_sub` or past it. -/
def departed : WaitPc → Bool
  | leaving _ | resetting _ => true
  | _ => false

/-- Where a thread can be while threads arrive; a compare-exchange expects fewer than `n`. -/
def Gathers (n : ℕ) : WaitPc → Prop
  | idle | entering | loadingCount | waiting => True
  | casLoop prev => prev < n
  | _ => False

/-- Where a thread can be while threads leave. -/
def Departs : WaitPc → Prop
  | idle | entering | waiting | leaving _ | resetting _ => True
  | _ => False

end WaitPc

/-- A thread returning `r` from its call of cycle `k`: the serial value exactly when it arrived
last in that cycle, 0 otherwise. -/
def ResultOk (serials : List τ) (t : τ) (k : ℕ) (r : ℤ) : Prop :=
  (r = pthreadBarrierSerialThread ∧ serials[k]? = some t) ∨ (r = 0 ∧ serials[k]? ≠ some t)

/-- What a thread at `p` in its call of cycle `k` knows of the thread that arrives last in it. -/
def PcOk (serials : List τ) (t : τ) (k : ℕ) : WaitPc → Prop
  | .releasing => serials[k]? = some t
  | .waiting => serials[k]? ≠ some t
  | .leaving r | .resetting r => ResultOk serials t k r
  | _ => True

namespace BarrierSystem

/-- Threads arrive for the next cycle: every thread has returned from one call per completed
cycle, and those that arrived wait. -/
structure Gathering (sys : BarrierSystem τ) : Prop where
  state_eq : sys.barrier.state = .wait
  waitCount_lt : sys.barrier.waitCount < sys.barrier.initCount
  returned : ∀ t, (sys.results t).length = sys.serials.length
  gathers : ∀ t, (sys.pc t).Gathers sys.barrier.initCount

/-- Thread `s` arrived last and is about to store `RELEASE`; every other thread waits. -/
structure Closing (sys : BarrierSystem τ) (s : τ) : Prop where
  state_eq : sys.barrier.state = .wait
  pc_self : sys.pc s = .releasing
  pc_other : ∀ t, t ≠ s → sys.pc t = .waiting
  returned : ∀ t, (sys.results t).length + 1 = sys.serials.length

/-- The cycle is complete and threads leave; with one thread, no `RELEASE` is stored. A thread
that left may enter again but waits at the entry, and the last one to leave is alone. -/
structure Departing (sys : BarrierSystem τ) : Prop where
  released : sys.barrier.state = .release ∨
    (sys.barrier.initCount = 1 ∧ ∀ t, (sys.pc t).departed = true)
  active : ∃ t, (sys.pc t).arrived = true
  departs : ∀ t, (sys.pc t).Departs
  returned : ∀ t, (sys.results t).length + (if (sys.pc t).arrived then 1 else 0) =
    sys.serials.length
  last : ∀ t r, sys.pc t = .resetting r → ∀ u, u ≠ t → (sys.pc u).arrived = false

variable [Fintype τ]

/-- The invariant of every state a run reaches: `wait_count` counts the threads that hold the
barrier, the threads are in one of the three phases of a cycle, and the serial value goes to the
thread that arrived last. -/
structure Inv (sys : BarrierSystem τ) : Prop where
  card_eq : Fintype.card τ = sys.barrier.initCount
  waitCount_eq : sys.barrier.waitCount = count WaitPc.holds sys.pc
  phase : sys.Gathering ∨ (∃ s, sys.Closing s) ∨ sys.Departing
  results_ok : ∀ t k r, (sys.results t)[k]? = some r → ResultOk sys.serials t k r
  pc_ok : ∀ t, PcOk sys.serials t (sys.results t).length (sys.pc t)

end BarrierSystem

/-! ### What each place allows -/

namespace WaitPc

variable {p : WaitPc} {n : ℕ}

theorem not_gathers_of_departed (hp : p.departed = true) : ¬ p.Gathers n := by
  cases p <;> simp [departed, Gathers] at hp ⊢

theorem eq_waiting_of_gathers (hg : p.Gathers n) (hh : p.holds = true) : p = .waiting := by
  cases p <;> simp [holds, Gathers] at hg hh ⊢

theorem arrived_of_holds (hh : p.holds = true) : p.arrived = true := by
  cases p <;> simp [holds, arrived] at hh ⊢

theorem arrived_eq_false (hd : p.Departs) (hh : p.holds = false) (hr : ∀ r, p ≠ .resetting r) :
    p.arrived = false := by
  cases p <;> simp_all [Departs, holds, arrived]

theorem gathers_of_departs (hd : p.Departs) (ha : p.arrived = false) : p.Gathers n := by
  cases p <;> simp_all [Departs, arrived, Gathers]

end WaitPc

namespace BarrierSystem

variable {sys : BarrierSystem τ} {t : τ} {p : WaitPc} {r : ℤ}

@[simp] theorem setPc_pc : (sys.setPc t p).pc = Function.update sys.pc t p := rfl
@[simp] theorem setPc_results : (sys.setPc t p).results = sys.results := rfl
@[simp] theorem setPc_serials : (sys.setPc t p).serials = sys.serials := rfl
@[simp] theorem setPc_barrier : (sys.setPc t p).barrier = sys.barrier := rfl
@[simp] theorem finish_pc : (sys.finish t r).pc = Function.update sys.pc t .idle := rfl
@[simp] theorem finish_results :
    (sys.finish t r).results = Function.update sys.results t (sys.results t ++ [r]) := rfl
@[simp] theorem finish_serials : (sys.finish t r).serials = sys.serials := rfl
@[simp] theorem finish_barrier : (sys.finish t r).barrier = sys.barrier := rfl

/-! ### Bookkeeping of results -/

theorem pcOk_update {pc : τ → WaitPc} {results : τ → List ℤ} {serials : List τ}
    (h : ∀ u, PcOk serials u (results u).length (pc u))
    (ht : PcOk serials t (results t).length p) :
    ∀ u, PcOk serials u (results u).length (Function.update pc t p u) := by
  intro u
  by_cases hu : u = t
  · subst hu
    rw [Function.update_self]
    exact ht
  · rw [Function.update_of_ne hu]
    exact h u

theorem pcOk_finish {pc : τ → WaitPc} {results : τ → List ℤ} {serials : List τ}
    (h : ∀ u, PcOk serials u (results u).length (pc u)) :
    ∀ u, PcOk serials u (Function.update results t (results t ++ [r]) u).length
      (Function.update pc t .idle u) := by
  intro u
  by_cases hu : u = t
  · subst hu
    rw [Function.update_self, Function.update_self]
    trivial
  · rw [Function.update_of_ne hu, Function.update_of_ne hu]
    exact h u

theorem resultsOk_finish {results : τ → List ℤ} {serials : List τ}
    (h : ∀ u k r', (results u)[k]? = some r' → ResultOk serials u k r')
    (ht : ResultOk serials t (results t).length r) :
    ∀ u k r', (Function.update results t (results t ++ [r]) u)[k]? = some r' →
      ResultOk serials u k r' := by
  intro u k r' hk
  by_cases hu : u = t
  · subst hu
    rw [Function.update_self] at hk
    rcases Nat.lt_or_ge k (results u).length with hlt | hge
    · rw [List.getElem?_append_left hlt] at hk
      exact h u k r' hk
    · rw [List.getElem?_append_right hge, List.getElem?_singleton] at hk
      split_ifs at hk with hlen
      · cases hk
        rw [show k = (results u).length by omega]
        exact ht
  · rw [Function.update_of_ne hu] at hk
    exact h u k r' hk

omit [DecidableEq τ] in
theorem ResultOk.append {serials : List τ} {u : τ} {k : ℕ} {r' : ℤ}
    (h : ResultOk serials u k r') (hk : k < serials.length) : ResultOk (serials ++ [t]) u k r' := by
  unfold ResultOk at h ⊢
  rw [List.getElem?_append_left hk]
  exact h

/-! ### Where a thread is tells the phase -/

variable [Fintype τ]

theorem Inv.gathering_of_not_departs (h : sys.Inv) (hd : ¬ (sys.pc t).Departs)
    (hr : sys.pc t ≠ .releasing) : sys.Gathering := by
  rcases h.phase with hg | ⟨s, hc⟩ | hdep
  · exact hg
  · by_cases hts : t = s
    · exact absurd (hts ▸ hc.pc_self) hr
    · exact absurd (by rw [hc.pc_other t hts]; trivial) hd
  · exact absurd (hdep.departs t) hd

omit [DecidableEq τ] in
theorem Inv.gathering_of_entering (h : sys.Inv) (hpc : sys.pc t = .entering)
    (hstate : sys.barrier.state ≠ .release) : sys.Gathering := by
  rcases h.phase with hg | ⟨s, hc⟩ | hdep
  · exact hg
  · have hts : t ≠ s := fun hts ↦ by
      rw [hts, hc.pc_self] at hpc
      cases hpc
    have := hc.pc_other t hts
    rw [hpc] at this
    cases this
  · rcases hdep.released with hrel | ⟨-, hdeparted⟩
    · exact absurd hrel hstate
    · have := hdeparted t
      rw [hpc] at this
      cases this

theorem Inv.closing_of_releasing (h : sys.Inv) (hpc : sys.pc t = .releasing) : sys.Closing t := by
  rcases h.phase with hg | ⟨s, hc⟩ | hdep
  · have := hg.gathers t
    rw [hpc] at this
    cases this
  · by_cases hts : t = s
    · exact hts ▸ hc
    · have := hc.pc_other t hts
      rw [hpc] at this
      cases this
  · have := hdep.departs t
    rw [hpc] at this
    cases this

theorem Inv.departing_of_departed (h : sys.Inv) (hpc : (sys.pc t).departed = true) :
    sys.Departing := by
  rcases h.phase with hg | ⟨s, hc⟩ | hdep
  · exact absurd (hg.gathers t) (WaitPc.not_gathers_of_departed hpc)
  · have : sys.pc t = .releasing ∨ sys.pc t = .waiting := by
      by_cases hts : t = s
      · exact Or.inl (hts ▸ hc.pc_self)
      · exact Or.inr (hc.pc_other t hts)
    rcases this with hp | hp <;> rw [hp] at hpc <;> cases hpc
  · exact hdep

omit [DecidableEq τ] in
theorem Inv.departing_of_waiting (h : sys.Inv) (hstate : sys.barrier.state ≠ .wait) :
    sys.Departing := by
  rcases h.phase with hg | ⟨s, hc⟩ | hdep
  · exact absurd hg.state_eq hstate
  · exact absurd hc.state_eq hstate
  · exact hdep

theorem Inv.gathering_or_departing_of_idle (h : sys.Inv) (hpc : sys.pc t = .idle) :
    sys.Gathering ∨ sys.Departing := by
  rcases h.phase with hg | ⟨s, hc⟩ | hdep
  · exact Or.inl hg
  · have : sys.pc t = .releasing ∨ sys.pc t = .waiting := by
      by_cases hts : t = s
      · exact Or.inl (hts ▸ hc.pc_self)
      · exact Or.inr (hc.pc_other t hts)
    rcases this with hp | hp <;> rw [hp] at hpc <;> cases hpc
  · exact Or.inr hdep

theorem Inv.prev_lt (h : sys.Inv) {prev : ℕ} (hpc : sys.pc t = .casLoop prev) :
    prev < sys.barrier.initCount := by
  have hg := h.gathering_of_not_departs (by rw [hpc]; exact id) (by rw [hpc]; exact nofun)
  have := hg.gathers t
  rw [hpc] at this
  exact this

/-! ### Moves within a phase -/

omit [Fintype τ] in
theorem Gathering.setPc (hg : sys.Gathering) (hp : p.Gathers sys.barrier.initCount) :
    (sys.setPc t p).Gathering where
  state_eq := hg.state_eq
  waitCount_lt := hg.waitCount_lt
  returned := hg.returned
  gathers := by
    intro u
    by_cases hu : u = t
    · subst hu
      rw [setPc_pc, Function.update_self]
      exact hp
    · rw [setPc_pc, Function.update_of_ne hu]
      exact hg.gathers u

omit [Fintype τ] in
/-- After the `RELEASE` store, a thread moving between two places that have arrived alike, none
of them the last leaver's, keeps the threads leaving. -/
theorem Departing.setPc (hd : sys.Departing) (hstate : sys.barrier.state = .release)
    (harr : p.arrived = (sys.pc t).arrived) (hp : p.Departs) (hr : ∀ r, p ≠ .resetting r) :
    (sys.setPc t p).Departing where
  released := Or.inl hstate
  active := by
    obtain ⟨u, hu⟩ := hd.active
    refine ⟨u, ?_⟩
    by_cases hut : u = t
    · subst hut
      rw [setPc_pc, Function.update_self, harr]
      exact hu
    · rw [setPc_pc, Function.update_of_ne hut]
      exact hu
  departs := by
    intro u
    by_cases hut : u = t
    · subst hut
      rw [setPc_pc, Function.update_self]
      exact hp
    · rw [setPc_pc, Function.update_of_ne hut]
      exact hd.departs u
  returned := by
    intro u
    by_cases hut : u = t
    · subst hut
      rw [setPc_pc, Function.update_self, harr]
      exact hd.returned u
    · rw [setPc_pc, Function.update_of_ne hut]
      exact hd.returned u
  last := by
    intro u r' hu v hv
    have hut : u ≠ t := by
      rintro rfl
      rw [setPc_pc, Function.update_self] at hu
      exact hr r' hu
    rw [setPc_pc, Function.update_of_ne hut] at hu
    by_cases hvt : v = t
    · subst hvt
      rw [setPc_pc, Function.update_self, harr]
      exact hd.last u r' hu v hv
    · rw [setPc_pc, Function.update_of_ne hvt]
      exact hd.last u r' hu v hv

/-! ### Each step keeps the invariant -/

theorem Inv.enter (h : sys.Inv) (hpc : sys.pc t = .idle) : (sys.setPc t .entering).Inv where
  card_eq := h.card_eq
  waitCount_eq := h.waitCount_eq.trans
    (count_update_of_eq WaitPc.holds sys.pc (a := t) (b := .entering) (by rw [hpc]; rfl)).symm
  phase := by
    rcases h.gathering_or_departing_of_idle hpc with hg | hd
    · exact Or.inl (hg.setPc trivial)
    · refine Or.inr (Or.inr (hd.setPc ?_ (by rw [hpc]; rfl) trivial nofun))
      rcases hd.released with hrel | ⟨-, hall⟩
      · exact hrel
      · have := hall t
        rw [hpc] at this
        cases this
  results_ok := h.results_ok
  pc_ok := pcOk_update h.pc_ok trivial

theorem Inv.passEntry (h : sys.Inv) (hpc : sys.pc t = .entering)
    (hstate : sys.barrier.state ≠ .release) : (sys.setPc t .loadingCount).Inv where
  card_eq := h.card_eq
  waitCount_eq := h.waitCount_eq.trans
    (count_update_of_eq WaitPc.holds sys.pc (a := t) (b := .loadingCount) (by rw [hpc]; rfl)).symm
  phase := Or.inl ((h.gathering_of_entering hpc hstate).setPc trivial)
  results_ok := h.results_ok
  pc_ok := pcOk_update h.pc_ok trivial

theorem Inv.loadCount (h : sys.Inv)
    (hpc : sys.pc t = .loadingCount ∨ ∃ prev, sys.pc t = .casLoop prev) :
    (sys.setPc t (.casLoop sys.barrier.waitCount)).Inv where
  card_eq := h.card_eq
  waitCount_eq := by
    have hholds : (sys.pc t).holds = (WaitPc.casLoop sys.barrier.waitCount).holds := by
      rcases hpc with hp | ⟨prev, hp⟩ <;> rw [hp] <;> rfl
    exact h.waitCount_eq.trans (count_update_of_eq WaitPc.holds sys.pc hholds).symm
  phase := by
    have hg : sys.Gathering := h.gathering_of_not_departs
      (by rcases hpc with hp | ⟨prev, hp⟩ <;> rw [hp] <;> exact id)
      (by rcases hpc with hp | ⟨prev, hp⟩ <;> rw [hp] <;> exact nofun)
    exact Or.inl (hg.setPc hg.waitCount_lt)
  results_ok := h.results_ok
  pc_ok := pcOk_update h.pc_ok trivial

section Arrive

variable {prev : ℕ} (h : sys.Inv) (hpc : sys.pc t = .casLoop prev)
  (hwc : sys.barrier.waitCount = prev)
include h hpc hwc

theorem Inv.count_arrive (q : WaitPc) (hq : q.holds = true) :
    count WaitPc.holds (Function.update sys.pc t q) = prev + 1 := by
  rw [count_update_of_false_true WaitPc.holds sys.pc (by rw [hpc]; rfl) hq, ← h.waitCount_eq, hwc]

theorem Inv.waiting_of_arriveLast (hlast : prev + 1 = sys.barrier.initCount) (q : WaitPc)
    (hq : q.holds = true) : ∀ u, u ≠ t → sys.pc u = .waiting := by
  have hall := (count_eq_card_iff WaitPc.holds (Function.update sys.pc t q)).mp
    (by rw [h.count_arrive hpc hwc q hq, hlast, h.card_eq])
  intro u hu
  have hg := h.gathering_of_not_departs (by rw [hpc]; exact id) (by rw [hpc]; exact nofun)
  have hholds := hall u
  rw [Function.update_of_ne hu] at hholds
  exact WaitPc.eq_waiting_of_gathers (hg.gathers u) hholds

theorem Inv.arrive (hlast : prev + 1 ≠ sys.barrier.initCount) :
    ({ sys with barrier := { sys.barrier with waitCount := prev + 1 } }.setPc t .waiting).Inv where
  card_eq := h.card_eq
  waitCount_eq := (h.count_arrive hpc hwc .waiting rfl).symm
  phase := by
    have hg := h.gathering_of_not_departs (by rw [hpc]; exact id) (by rw [hpc]; exact nofun)
    have hlt := h.prev_lt hpc
    have hg' : Gathering { sys with barrier := { sys.barrier with waitCount := prev + 1 } } :=
      ⟨hg.state_eq, by show prev + 1 < sys.barrier.initCount; omega, hg.returned, hg.gathers⟩
    exact Or.inl (hg'.setPc trivial)
  results_ok := h.results_ok
  pc_ok := by
    have hg := h.gathering_of_not_departs (by rw [hpc]; exact id) (by rw [hpc]; exact nofun)
    refine pcOk_update h.pc_ok ?_
    show sys.serials[(sys.results t).length]? ≠ some t
    rw [hg.returned t, List.getElem?_eq_none (Nat.le_refl _)]
    exact nofun

theorem Inv.arriveLast (hlast : prev + 1 = sys.barrier.initCount) :
    ({ { sys with barrier := { sys.barrier with waitCount := prev + 1 } } with
        serials := sys.serials ++ [t] }.setPc t .releasing).Inv where
  card_eq := h.card_eq
  waitCount_eq := (h.count_arrive hpc hwc .releasing rfl).symm
  phase := by
    have hg := h.gathering_of_not_departs (by rw [hpc]; exact id) (by rw [hpc]; exact nofun)
    have hothers := h.waiting_of_arriveLast hpc hwc hlast .releasing rfl
    refine Or.inr (Or.inl ⟨t, hg.state_eq, Function.update_self .., ?_, ?_⟩)
    · intro u hu
      show Function.update sys.pc t .releasing u = .waiting
      rw [Function.update_of_ne hu]
      exact hothers u hu
    · intro u
      show (sys.results u).length + 1 = (sys.serials ++ [t]).length
      rw [List.length_append, hg.returned u]
      rfl
  results_ok := by
    have hg := h.gathering_of_not_departs (by rw [hpc]; exact id) (by rw [hpc]; exact nofun)
    intro u k r hk
    refine ResultOk.append (h.results_ok u k r hk) ?_
    rw [← hg.returned u]
    exact (List.getElem?_eq_some_iff.mp hk).1
  pc_ok := by
    have hg := h.gathering_of_not_departs (by rw [hpc]; exact id) (by rw [hpc]; exact nofun)
    have hothers := h.waiting_of_arriveLast hpc hwc hlast .releasing rfl
    intro u
    show PcOk (sys.serials ++ [t]) u (sys.results u).length (Function.update sys.pc t .releasing u)
    rw [hg.returned u]
    by_cases hu : u = t
    · subst hu
      rw [Function.update_self]
      exact List.getElem?_concat_length ..
    · rw [Function.update_of_ne hu, hothers u hu]
      show (sys.serials ++ [t])[sys.serials.length]? ≠ some u
      rw [List.getElem?_concat_length]
      exact fun heq ↦ hu (Option.some.inj heq).symm

theorem Inv.eq_of_arriveAlone (hlast : prev + 1 = sys.barrier.initCount) (hzero : prev = 0) :
    ∀ u, u = t := by
  have hothers := h.waiting_of_arriveLast hpc hwc hlast .releasing rfl
  have hnone := (count_eq_zero_iff WaitPc.holds sys.pc).mp (by rw [← h.waitCount_eq, hwc, hzero])
  intro u
  by_contra hu
  have := hnone u
  rw [hothers u hu] at this
  cases this

theorem Inv.arriveAlone (hlast : prev + 1 = sys.barrier.initCount) (hzero : prev = 0) :
    ({ { sys with barrier := { sys.barrier with waitCount := prev + 1 } } with
        serials := sys.serials ++ [t] }.setPc t (.leaving pthreadBarrierSerialThread)).Inv := by
  have hg := h.gathering_of_not_departs (by rw [hpc]; exact id) (by rw [hpc]; exact nofun)
  have honly := h.eq_of_arriveAlone hpc hwc hlast hzero
  have hself : ∀ u, Function.update sys.pc t (.leaving pthreadBarrierSerialThread) u =
      .leaving pthreadBarrierSerialThread := by
    intro u
    rw [honly u, Function.update_self]
  refine ⟨h.card_eq, (h.count_arrive hpc hwc _ rfl).symm, ?_, ?_, ?_⟩
  · refine Or.inr (Or.inr ⟨Or.inr ⟨?_, ?_⟩, ⟨t, ?_⟩, ?_, ?_, ?_⟩)
    · show sys.barrier.initCount = 1
      omega
    · intro u
      rw [setPc_pc, hself u]
      rfl
    · rw [setPc_pc, hself t]
      rfl
    · intro u
      rw [setPc_pc, hself u]
      trivial
    · intro u
      show (sys.results u).length + (if (Function.update sys.pc t _ u).arrived then 1 else 0) =
        (sys.serials ++ [t]).length
      rw [hself u, List.length_append, hg.returned u]
      rfl
    · intro u r' hu
      rw [setPc_pc, hself u] at hu
      cases hu
  · intro u k r hk
    refine ResultOk.append (h.results_ok u k r hk) ?_
    rw [← hg.returned u]
    exact (List.getElem?_eq_some_iff.mp hk).1
  · intro u
    show PcOk (sys.serials ++ [t]) u (sys.results u).length (Function.update sys.pc t _ u)
    rw [hself u, hg.returned u, honly u]
    exact Or.inl ⟨rfl, List.getElem?_concat_length ..⟩

end Arrive

theorem Inv.release (h : sys.Inv) (hpc : sys.pc t = .releasing) :
    ({ sys with barrier := { sys.barrier with state := .release } }.setPc t
      (.leaving pthreadBarrierSerialThread)).Inv := by
  have hc := h.closing_of_releasing hpc
  have hpc' : ∀ u, Function.update sys.pc t (.leaving pthreadBarrierSerialThread) u =
      .leaving pthreadBarrierSerialThread ∨
        (u ≠ t ∧ Function.update sys.pc t (.leaving pthreadBarrierSerialThread) u = .waiting) := by
    intro u
    by_cases hu : u = t
    · subst hu
      exact Or.inl (Function.update_self ..)
    · rw [Function.update_of_ne hu]
      exact Or.inr ⟨hu, hc.pc_other u hu⟩
  refine ⟨h.card_eq, h.waitCount_eq.trans
    (count_update_of_eq WaitPc.holds sys.pc (a := t) (by rw [hpc]; rfl)).symm, ?_,
    h.results_ok, pcOk_update h.pc_ok ?_⟩
  · refine Or.inr (Or.inr ⟨Or.inl rfl, ⟨t, ?_⟩, ?_, ?_, ?_⟩)
    · rw [setPc_pc, Function.update_self]
      rfl
    · intro u
      rw [setPc_pc]
      rcases hpc' u with hu | ⟨-, hu⟩ <;> rw [hu] <;> trivial
    · intro u
      show (sys.results u).length + (if (Function.update sys.pc t _ u).arrived then 1 else 0) =
        sys.serials.length
      have harr : (Function.update sys.pc t (.leaving pthreadBarrierSerialThread) u).arrived :=
        by rcases hpc' u with hu | ⟨-, hu⟩ <;> rw [hu] <;> rfl
      rw [harr]
      exact hc.returned u
    · intro u r' hu
      rw [setPc_pc] at hu
      rcases hpc' u with hu' | ⟨-, hu'⟩ <;> rw [hu'] at hu <;> cases hu
  · have := h.pc_ok t
    rw [hpc] at this
    exact Or.inl ⟨rfl, this⟩

theorem Inv.wake (h : sys.Inv) (hpc : sys.pc t = .waiting) (hstate : sys.barrier.state ≠ .wait) :
    (sys.setPc t (.leaving 0)).Inv := by
  have hd := h.departing_of_waiting hstate
  have hrel : sys.barrier.state = .release := by
    cases hs : sys.barrier.state
    · exact absurd hs hstate
    · rfl
  refine ⟨h.card_eq, h.waitCount_eq.trans
    (count_update_of_eq WaitPc.holds sys.pc (a := t) (by rw [hpc]; rfl)).symm,
    Or.inr (Or.inr (hd.setPc hrel (by rw [hpc]; rfl) trivial nofun)), h.results_ok,
    pcOk_update h.pc_ok ?_⟩
  have := h.pc_ok t
  rw [hpc] at this
  exact Or.inr ⟨rfl, this⟩

omit [DecidableEq τ] in
theorem Inv.waitCount_pos (h : sys.Inv) (hholds : (sys.pc t).holds = true) :
    0 < sys.barrier.waitCount := by
  rw [h.waitCount_eq, Nat.pos_iff_ne_zero]
  intro hzero
  have := (count_eq_zero_iff WaitPc.holds sys.pc).mp hzero t
  rw [hholds] at this
  cases this

omit [DecidableEq τ] [Fintype τ] in
theorem Departing.not_resetting (hd : sys.Departing) (hpc : sys.pc t = .leaving r) (u : τ)
    (r' : ℤ) : sys.pc u ≠ .resetting r' := by
  intro hu
  have hut : t ≠ u := by
    rintro rfl
    rw [hpc] at hu
    cases hu
  have := hd.last u r' hu t hut
  rw [hpc] at this
  cases this

section Leave

variable (h : sys.Inv) (hpc : sys.pc t = .leaving r)
include h hpc

theorem Inv.count_leave (q : WaitPc) (hq : q.holds = false) :
    count WaitPc.holds (Function.update sys.pc t q) = sys.barrier.waitCount - 1 := by
  have := count_update_of_true_false WaitPc.holds sys.pc (a := t) (by rw [hpc]; rfl) hq
  rw [h.waitCount_eq]
  omega

theorem Inv.leaveLast (hwc : sys.barrier.waitCount = 1) :
    ({ sys with barrier := { sys.barrier with waitCount := sys.barrier.waitCount - 1 } }.setPc t
      (.resetting r)).Inv := by
  have hd := h.departing_of_departed (by rw [hpc]; rfl)
  have hcount := h.count_leave hpc (.resetting r) rfl
  have hnone := (count_eq_zero_iff WaitPc.holds _).mp (hcount.trans (by rw [hwc]))
  -- every other thread is outside the barrier or at its entry
  have hout : ∀ u, u ≠ t → (sys.pc u).arrived = false := by
    intro u hu
    have hholds := hnone u
    rw [Function.update_of_ne hu] at hholds
    exact WaitPc.arrived_eq_false (hd.departs u) hholds (hd.not_resetting hpc u)
  have hpc' : ∀ u, u ≠ t → Function.update sys.pc t (.resetting r) u = sys.pc u :=
    fun u hu ↦ Function.update_of_ne hu _ _
  refine ⟨h.card_eq, hcount.symm, Or.inr (Or.inr ⟨?_, ⟨t, ?_⟩, ?_, ?_, ?_⟩), h.results_ok,
    pcOk_update h.pc_ok ?_⟩
  · rcases hd.released with hrel | ⟨hone, hall⟩
    · exact Or.inl hrel
    · refine Or.inr ⟨hone, fun u ↦ ?_⟩
      by_cases hu : u = t
      · subst hu
        rw [setPc_pc, Function.update_self]
        rfl
      · rw [setPc_pc, hpc' u hu]
        exact hall u
  · rw [setPc_pc, Function.update_self]
    rfl
  · intro u
    by_cases hu : u = t
    · subst hu
      rw [setPc_pc, Function.update_self]
      trivial
    · rw [setPc_pc, hpc' u hu]
      exact hd.departs u
  · intro u
    by_cases hu : u = t
    · subst hu
      have := hd.returned u
      rw [hpc] at this
      rw [setPc_pc, Function.update_self]
      exact this
    · rw [setPc_pc, hpc' u hu]
      exact hd.returned u
  · intro u r' hu v hv
    have hut : u = t := by
      by_contra hut
      rw [setPc_pc, hpc' u hut] at hu
      exact hd.not_resetting hpc u r' hu
    subst hut
    rw [setPc_pc, hpc' v hv]
    exact hout v hv
  · have := h.pc_ok t
    rw [hpc] at this
    exact this

theorem Inv.leave (hwc : sys.barrier.waitCount ≠ 1) :
    ({ sys with barrier := { sys.barrier with waitCount := sys.barrier.waitCount - 1 } }.finish t
      r).Inv := by
  have hd := h.departing_of_departed (by rw [hpc]; rfl)
  have hcount := h.count_leave hpc .idle rfl
  have hpos := h.waitCount_pos (by rw [hpc]; rfl)
  have hpc' : ∀ u, u ≠ t → Function.update sys.pc t .idle u = sys.pc u :=
    fun u hu ↦ Function.update_of_ne hu _ _
  refine ⟨h.card_eq, hcount.symm, Or.inr (Or.inr ⟨?_, ?_, ?_, ?_, ?_⟩), ?_, pcOk_finish h.pc_ok⟩
  · rcases hd.released with hrel | ⟨hone, -⟩
    · exact Or.inl hrel
    · -- with one thread, the only thread leaving is the last one
      have hle := count_le_card WaitPc.holds sys.pc
      rw [← h.waitCount_eq, h.card_eq, hone] at hle
      omega
  · obtain ⟨u, hu⟩ := exists_of_count_ne_zero WaitPc.holds _ (by rw [hcount]; omega)
    exact ⟨u, WaitPc.arrived_of_holds hu⟩
  · intro u
    by_cases hu : u = t
    · subst hu
      rw [finish_pc, Function.update_self]
      trivial
    · rw [finish_pc, hpc' u hu]
      exact hd.departs u
  · intro u
    by_cases hu : u = t
    · subst hu
      have := hd.returned u
      rw [hpc] at this
      rw [finish_pc, finish_results, Function.update_self, Function.update_self,
        List.length_append]
      exact this
    · rw [finish_pc, finish_results, hpc' u hu, Function.update_of_ne hu]
      exact hd.returned u
  · intro u r' hu
    have hut : u ≠ t := by
      rintro rfl
      rw [finish_pc, Function.update_self] at hu
      cases hu
    rw [finish_pc, hpc' u hut] at hu
    exact absurd hu (hd.not_resetting hpc u r')
  · have := h.pc_ok t
    rw [hpc] at this
    exact resultsOk_finish h.results_ok this

end Leave

theorem Inv.reset (h : sys.Inv) (hpc : sys.pc t = .resetting r) :
    ({ sys with barrier := { sys.barrier with state := .wait } }.finish t r).Inv := by
  have hd := h.departing_of_departed (by rw [hpc]; rfl)
  have hout := hd.last t r hpc
  have hpc' : ∀ u, u ≠ t → Function.update sys.pc t .idle u = sys.pc u :=
    fun u hu ↦ Function.update_of_ne hu _ _
  have hzero : sys.barrier.waitCount = 0 := by
    rw [h.waitCount_eq, count_eq_zero_iff]
    intro u
    by_cases hu : u = t
    · subst hu
      rw [hpc]
      rfl
    · cases hholds : (sys.pc u).holds
      · rfl
      · have := hout u hu
        rw [WaitPc.arrived_of_holds hholds] at this
        cases this
  refine ⟨h.card_eq, h.waitCount_eq.trans
    (count_update_of_eq WaitPc.holds sys.pc (a := t) (by rw [hpc]; rfl)).symm,
    Or.inl ⟨rfl, ?_, ?_, ?_⟩, ?_, pcOk_finish h.pc_ok⟩
  · show sys.barrier.waitCount < sys.barrier.initCount
    rw [hzero, ← h.card_eq]
    exact Fintype.card_pos_iff.mpr ⟨t⟩
  · intro u
    by_cases hu : u = t
    · subst hu
      have := hd.returned u
      rw [hpc] at this
      rw [finish_results, Function.update_self, List.length_append]
      exact this
    · have := hd.returned u
      rw [hout u hu] at this
      rw [finish_results, Function.update_of_ne hu]
      exact this
  · intro u
    by_cases hu : u = t
    · subst hu
      rw [finish_pc, Function.update_self]
      trivial
    · rw [finish_pc, hpc' u hu]
      exact WaitPc.gathers_of_departs (hd.departs u) (hout u hu)
  · have := h.pc_ok t
    rw [hpc] at this
    exact resultsOk_finish h.results_ok this

theorem Inv.waitStep (h : sys.Inv) {sys' : BarrierSystem τ} (hs : waitStep t sys = some sys') :
    sys'.Inv := by
  unfold Pthread.waitStep at hs
  cases hpc : sys.pc t with
  | idle =>
    rw [hpc] at hs
    cases hs
    exact h.enter hpc
  | entering =>
    rw [hpc] at hs
    dsimp only at hs
    split_ifs at hs with hstate
    cases hs
    exact h.passEntry hpc hstate
  | loadingCount =>
    rw [hpc] at hs
    cases hs
    exact h.loadCount (Or.inl hpc)
  | casLoop prev =>
    rw [hpc] at hs
    dsimp only at hs
    split_ifs at hs with hge hwc hlast hzero
    · exact absurd (h.prev_lt hpc) (Nat.not_lt.mpr hge)
    · cases hs
      exact h.arriveLast hpc hwc hlast
    · cases hs
      exact h.arriveAlone hpc hwc hlast (Decidable.not_not.mp hzero)
    · cases hs
      exact h.arrive hpc hwc hlast
    · cases hs
      exact h.loadCount (Or.inr ⟨prev, hpc⟩)
  | releasing =>
    rw [hpc] at hs
    cases hs
    exact h.release hpc
  | waiting =>
    rw [hpc] at hs
    dsimp only at hs
    split_ifs at hs with hstate
    cases hs
    exact h.wake hpc hstate
  | leaving r =>
    rw [hpc] at hs
    dsimp only at hs
    split_ifs at hs with hwc
    · cases hs
      exact h.leaveLast hpc hwc
    · cases hs
      exact h.leave hpc hwc
  | resetting r =>
    rw [hpc] at hs
    cases hs
    exact h.reset hpc

theorem inv_stable : Stable waitStep fun sys : BarrierSystem τ ↦ sys.Inv :=
  fun _ _ _ h hs ↦ h.waitStep hs

/-! ### Progress -/

omit [Fintype τ] in
theorem waitStep_frame {sys' : BarrierSystem τ} (hs : waitStep t sys = some sys') :
    sys'.barrier.initCount = sys.barrier.initCount ∧
      (sys.results t).length ≤ (sys'.results t).length ∧
      ∀ u, u ≠ t → sys'.pc u = sys.pc u ∧ sys'.results u = sys.results u := by
  unfold Pthread.waitStep at hs
  cases hpc : sys.pc t <;> rw [hpc] at hs <;> dsimp only at hs <;> (try split_ifs at hs) <;>
    cases hs <;> simp +contextual [Function.update_of_ne]

omit [Fintype τ] in
theorem waitCount_le_waitStep {sys' : BarrierSystem τ} (hs : waitStep t sys = some sys')
    (hpc : ∀ r, sys.pc t ≠ .leaving r) : sys.barrier.waitCount ≤ sys'.barrier.waitCount := by
  unfold Pthread.waitStep at hs
  cases hp : sys.pc t with
  | leaving r => exact absurd hp (hpc r)
  | _ => rw [hp] at hs; dsimp only at hs; (try split_ifs at hs) <;> cases hs <;> simp <;> omega

omit [Fintype τ] in
theorem eq_waitCount_of_waitStep {sys' : BarrierSystem τ} (hs : waitStep t sys = some sys')
    {prev : ℕ} (hprev : sys'.pc t = .casLoop prev) : prev = sys'.barrier.waitCount := by
  unfold Pthread.waitStep at hs
  cases hpc : sys.pc t <;> rw [hpc] at hs <;> dsimp only at hs <;> (try split_ifs at hs) <;>
    cases hs <;> simp at hprev <;> exact hprev.symm

/-- A compare-exchange expects no more than `wait_count`: the count only grows while threads
arrive. -/
def PrevLe (sys : BarrierSystem τ) : Prop :=
  ∀ t prev, sys.pc t = .casLoop prev → prev ≤ sys.barrier.waitCount

theorem Inv.prevLe_waitStep (h : sys.Inv) (hle : sys.PrevLe) {sys' : BarrierSystem τ}
    (hs : Pthread.waitStep t sys = some sys') : sys'.PrevLe := by
  intro u prev hu
  by_cases hut : u = t
  · subst hut
    exact (eq_waitCount_of_waitStep hs hu).le
  · rw [((waitStep_frame hs).2.2 u hut).1] at hu
    -- a thread at the compare-exchange means nobody is leaving
    have hleave : ∀ r, sys.pc t ≠ .leaving r := fun r hr ↦ by
      have := (h.departing_of_departed (by rw [hr]; rfl)).departs u
      rw [hu] at this
      exact this
    exact (hle u prev hu).trans (waitCount_le_waitStep hs hleave)

omit [DecidableEq τ] [Fintype τ] in
theorem stepsToReturn_pos (hidle : p ≠ .idle) (n : ℕ) : 0 < p.stepsToReturn n := by
  cases p <;> simp_all [WaitPc.stepsToReturn]

omit [Fintype τ] in
theorem PrevLe.stepsToReturn_lt (hle : sys.PrevLe) (hidle : sys.pc t ≠ .idle)
    {sys' : BarrierSystem τ} (hs : waitStep t sys = some sys') :
    (sys'.pc t).stepsToReturn sys.barrier.initCount <
      (sys.pc t).stepsToReturn sys.barrier.initCount := by
  unfold Pthread.waitStep at hs
  cases hpc : sys.pc t with
  | idle => exact absurd hpc hidle
  | casLoop prev =>
    -- a failed compare-exchange loads a larger `wait_count`
    have hprev := hle t prev hpc
    rw [hpc] at hs
    dsimp only at hs
    split_ifs at hs <;> cases hs <;> simp [WaitPc.stepsToReturn] <;> omega
  | _ =>
    rw [hpc] at hs
    dsimp only at hs
    (try split_ifs at hs) <;> cases hs <;> simp [WaitPc.stepsToReturn] <;> omega

omit [Fintype τ] in
/-- A thread that has entered its `k`-th call and not returned from it is inside a call. -/
theorem ne_idle_of_lt_entered {k : ℕ} (hin : k < sys.entered t) (hlen : (sys.results t).length ≤ k) :
    sys.pc t ≠ .idle := fun hi ↦ by
  unfold entered at hin
  rw [hi, if_pos rfl] at hin
  omega

/-- Each step of a thread still in its `k`-th call lowers the steps left to those calls, and the
steps of the threads past it leave them. -/
theorem PrevLe.stepsToReturn_waitStep (hle : sys.PrevLe) {k : ℕ} (hin : k < sys.entered t)
    {sys' : BarrierSystem τ} (hs : waitStep t sys = some sys') :
    sys'.stepsToReturn k ≤ sys.stepsToReturn k ∧
      ((sys.results t).length ≤ k → sys'.stepsToReturn k < sys.stepsToReturn k) := by
  obtain ⟨hn, hlen, hother⟩ := waitStep_frame hs
  have hframe : ∀ u, u ≠ t → sys'.stepsLeft k u = sys.stepsLeft k u := fun u hu ↦ by
    simp only [stepsLeft, hn, hother u hu]
  by_cases ht : (sys.results t).length ≤ k
  · have hidle := ne_idle_of_lt_entered hin ht
    have hlt : sys'.stepsLeft k t < sys.stepsLeft k t := by
      unfold stepsLeft
      rw [if_pos ht, hn]
      split_ifs
      · exact hle.stepsToReturn_lt hidle hs
      · exact stepsToReturn_pos hidle _
    have hsum : sys'.stepsToReturn k < sys.stepsToReturn k :=
      Finset.sum_lt_sum (fun u _ ↦ if hu : u = t then hu ▸ hlt.le else (hframe u hu).le)
        ⟨t, Finset.mem_univ t, hlt⟩
    exact ⟨hsum.le, fun _ ↦ hsum⟩
  · -- `t` has returned from its `k`-th call, and counts for nothing before and after
    have hpast : sys'.stepsLeft k t = sys.stepsLeft k t := by
      simp only [stepsLeft, ht, if_false, show ¬ (sys'.results t).length ≤ k by omega]
    have hsum : sys'.stepsToReturn k = sys.stepsToReturn k :=
      Finset.sum_congr rfl fun u _ ↦ if hu : u = t then hu ▸ hpast else hframe u hu
    exact ⟨hsum.le, fun h ↦ absurd h ht⟩

/-- Once every thread has entered its `k`-th call, while one of them has not returned from it, a
thread still in it can step: one that has not arrived while threads arrive, the last arrival, or
a thread leaving. -/
theorem Inv.exists_waitStep (h : sys.Inv) {k : ℕ} (hall : ∀ t, k < sys.entered t)
    (hex : ∃ t, (sys.results t).length ≤ k) :
    ∃ t, (sys.results t).length ≤ k ∧ (Pthread.waitStep t sys).isSome := by
  obtain ⟨t₀, ht₀⟩ := hex
  rcases h.phase with hg | ⟨s, hc⟩ | hd
  · obtain ⟨u, hu⟩ := exists_of_count_ne_card WaitPc.holds sys.pc
      (by rw [← h.waitCount_eq, h.card_eq]; exact hg.waitCount_lt.ne)
    have hlen : (sys.results u).length ≤ k := by rw [hg.returned u, ← hg.returned t₀]; exact ht₀
    have hidle := ne_idle_of_lt_entered (hall u) hlen
    have hgu := hg.gathers u
    refine ⟨u, hlen, ?_⟩
    cases hpc : sys.pc u with
    | idle => exact absurd hpc hidle
    | entering => simp [Pthread.waitStep, hpc, hg.state_eq]
    | loadingCount => simp [Pthread.waitStep, hpc]
    | casLoop prev => simp only [Pthread.waitStep, hpc]; split_ifs <;> rfl
    | waiting => rw [hpc] at hu; cases hu
    | releasing | leaving _ | resetting _ => rw [hpc] at hgu; cases hgu
  · refine ⟨s, ?_, by simp [Pthread.waitStep, hc.pc_self]⟩
    have := hc.returned s
    have := hc.returned t₀
    omega
  · -- a thread that has arrived is leaving, or waits on a `RELEASE` already stored
    have hstep : ∀ v, (sys.pc v).arrived = true → (Pthread.waitStep v sys).isSome := fun v hv ↦ by
      cases hpc : sys.pc v with
      | waiting =>
        rcases hd.released with hrel | ⟨-, hall'⟩
        · simp [Pthread.waitStep, hpc, hrel]
        · have := hall' v
          rw [hpc] at this
          cases this
      | leaving _ => simp only [Pthread.waitStep, hpc]; split_ifs <;> rfl
      | resetting _ => simp [Pthread.waitStep, hpc]
      | releasing =>
        have := hd.departs v
        rw [hpc] at this
        cases this
      | idle | entering | loadingCount | casLoop _ => rw [hpc] at hv; cases hv
    obtain ⟨a, ha⟩ := hd.active
    by_cases h₀ : (sys.pc t₀).arrived = true
    · exact ⟨t₀, ht₀, hstep t₀ h₀⟩
    · refine ⟨a, ?_, hstep a ha⟩
      have ha' := hd.returned a
      have h₀' := hd.returned t₀
      rw [ha, if_pos rfl] at ha'
      rw [Bool.not_eq_true] at h₀
      rw [h₀, if_neg Bool.false_ne_true] at h₀'
      omega

/-! ### Runs -/

/-- The threads with the barrier `pthread_barrier_init` made, none of them in a call. -/
def start (b : PthreadBarrier) : BarrierSystem τ :=
  { barrier := b, pc := fun _ ↦ .idle, results := fun _ ↦ [], serials := [] }

omit [DecidableEq τ] in
theorem inv_start {b : PthreadBarrier} (hb : pthreadBarrierInit (Fintype.card τ) = .ok b) :
    (start b : BarrierSystem τ).Inv := by
  unfold pthreadBarrierInit at hb
  split_ifs at hb with hcard
  cases hb
  refine ⟨rfl, ?_, Or.inl ⟨rfl, Nat.pos_of_ne_zero hcard, fun _ ↦ rfl, fun _ ↦ trivial⟩, ?_,
    fun _ ↦ trivial⟩
  · exact ((count_eq_zero_iff WaitPc.holds _).mpr fun _ ↦ rfl).symm
  · intro t k r hk
    simp [start] at hk

theorem inv_run {b : PthreadBarrier} (hb : pthreadBarrierInit (Fintype.card τ) = .ok b)
    (schedule : List τ) : (run waitStep (start b) schedule).Inv ∧
      (run waitStep (start b) schedule).PrevLe :=
  (inv_stable.and fun _ _ _ h hle hs ↦ h.prevLe_waitStep hle hs).run
    ⟨inv_start hb, fun _ _ hpc ↦ by cases hpc⟩ schedule

/-! ### What the invariant gives -/

omit [DecidableEq τ] in
theorem Inv.nonempty (h : sys.Inv) : Nonempty τ := by
  rcases h.phase with hg | ⟨s, -⟩ | hd
  · have := hg.waitCount_lt
    rw [← h.card_eq] at this
    exact Fintype.card_pos_iff.mp (Nat.lt_of_le_of_lt (Nat.zero_le _) this)
  · exact ⟨s⟩
  · exact ⟨hd.active.choose⟩

omit [DecidableEq τ] in
theorem Inv.returned_le (h : sys.Inv) (t : τ) : (sys.results t).length ≤ sys.serials.length := by
  rcases h.phase with hg | ⟨s, hc⟩ | hd
  · exact (hg.returned t).le
  · have := hc.returned t
    omega
  · have := hd.returned t
    omega

omit [DecidableEq τ] in
theorem Inv.serials_le_entered (h : sys.Inv) (u : τ) : sys.serials.length ≤ sys.entered u := by
  unfold entered
  rcases h.phase with hg | ⟨s, hc⟩ | hd
  · rw [hg.returned u]
    omega
  · have hne : sys.pc u ≠ .idle := by
      by_cases hu : u = s
      · rw [hu, hc.pc_self]
        exact nofun
      · rw [hc.pc_other u hu]
        exact nofun
    have := hc.returned u
    rw [if_neg hne]
    omega
  · have := hd.returned u
    cases ha : (sys.pc u).arrived
    · rw [ha, if_neg Bool.false_ne_true] at this
      omega
    · have hne : sys.pc u ≠ .idle := fun hi ↦ by
        rw [hi] at ha
        cases ha
      rw [ha, if_pos rfl] at this
      rw [if_neg hne]
      omega

omit [DecidableEq τ] in
theorem Inv.waitCount_state_of_idle (h : sys.Inv) (hidle : ∀ t, sys.pc t = .idle) :
    sys.barrier.waitCount = 0 ∧ sys.barrier.state = .wait := by
  rcases h.phase with hg | ⟨s, hc⟩ | hd
  · refine ⟨?_, hg.state_eq⟩
    rw [h.waitCount_eq, count_eq_zero_iff]
    intro t
    rw [hidle t]
    rfl
  · have := hc.pc_self
    rw [hidle s] at this
    cases this
  · obtain ⟨t, ht⟩ := hd.active
    rw [hidle t] at ht
    cases ht

omit [DecidableEq τ] in
theorem Inv.serial_of_result (h : sys.Inv) {k : ℕ}
    (hk : (sys.results t)[k]? = some pthreadBarrierSerialThread) : sys.serials[k]? = some t := by
  rcases h.results_ok t k _ hk with ⟨-, hs⟩ | ⟨hr, -⟩
  · exact hs
  · exact absurd hr (by decide)

omit [DecidableEq τ] in
/-- Once every thread has returned from its call of cycle `k`, the thread that arrived last got
the serial value and every other one 0. -/
theorem Inv.serial_exists (h : sys.Inv) {k : ℕ} (hall : ∀ t, k < (sys.results t).length) :
    ∃ s, (sys.results s)[k]? = some pthreadBarrierSerialThread ∧
      ∀ t, t ≠ s → (sys.results t)[k]? = some 0 := by
  obtain ⟨t₀⟩ := h.nonempty
  have hk : k < sys.serials.length := Nat.lt_of_lt_of_le (hall t₀) (h.returned_le t₀)
  obtain ⟨s, hs⟩ : ∃ s, sys.serials[k]? = some s := ⟨_, List.getElem?_eq_getElem hk⟩
  refine ⟨s, ?_, fun t ht ↦ ?_⟩
  · obtain ⟨r, hr⟩ : ∃ r, (sys.results s)[k]? = some r := ⟨_, List.getElem?_eq_getElem (hall s)⟩
    rcases h.results_ok s k r hr with ⟨hser, -⟩ | ⟨-, hne⟩
    · rw [hr, hser]
    · exact absurd hs hne
  · obtain ⟨r, hr⟩ : ∃ r, (sys.results t)[k]? = some r := ⟨_, List.getElem?_eq_getElem (hall t)⟩
    rcases h.results_ok t k r hr with ⟨-, hst⟩ | ⟨h0, -⟩
    · rw [hs] at hst
      exact absurd (Option.some.inj hst).symm ht
    · rw [hr, h0]

theorem Inv.cyclesOk (h : sys.Inv) (hle : sys.PrevLe) : sys.CyclesOk where
  returned_le_entered t u := (h.returned_le t).trans (h.serials_le_entered u)
  result_cases t k r hk := by
    rcases h.results_ok t k r hk with ⟨hr, -⟩ | ⟨hr, -⟩
    · exact Or.inr hr
    · exact Or.inl hr
  serial_unique t u k ht hu := by
    have := h.serial_of_result ht
    rw [h.serial_of_result hu] at this
    exact (Option.some.inj this).symm
  serial_exists _ hall := h.serial_exists hall
  idle_reset := h.waitCount_state_of_idle
  progress _ hall :=
    ⟨fun t _ hs ↦ hle.stepsToReturn_waitStep (hall t) hs, h.exists_waitStep hall⟩

end BarrierSystem

/-- Any number of threads, as many as the count the barrier was initialised with, calling
`pthread_barrier_wait` again and again under any interleaving, meet in cycles. -/
theorem pthreadBarrierWait_cycles [Fintype τ] {b : PthreadBarrier}
    (hb : pthreadBarrierInit (Fintype.card τ) = .ok b) (schedule : List τ) :
    (run waitStep (BarrierSystem.start b) schedule).CyclesOk :=
  (BarrierSystem.inv_run hb schedule).1.cyclesOk (BarrierSystem.inv_run hb schedule).2

/-- Two threads, each through two cycles. -/
theorem pthreadBarrierWait_cycles_twoThreads :
    (run waitStep (BarrierSystem.start ⟨2, .wait, 0⟩ : BarrierSystem (Fin 2))
      [0, 0, 0, 0, 1, 1, 1, 1, 1, 1, 0, 0, 0, 0, 1, 1, 1, 1, 1, 0, 0, 0, 1, 1, 1]).CyclesOk :=
  pthreadBarrierWait_cycles rfl _

example :
    (run waitStep (BarrierSystem.start ⟨2, .wait, 0⟩ : BarrierSystem (Fin 2))
      [0, 0, 0, 0, 1, 1, 1, 1, 1, 1, 0, 0, 0]).results 0 = [0] ∧
    (run waitStep (BarrierSystem.start ⟨2, .wait, 0⟩ : BarrierSystem (Fin 2))
      [0, 0, 0, 0, 1, 1, 1, 1, 1, 1, 0, 0, 0]).results 1 = [pthreadBarrierSerialThread] := by
  decide

end Bionic.Pthread
