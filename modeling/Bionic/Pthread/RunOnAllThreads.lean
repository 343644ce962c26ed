import Bionic.Lib.Interleaving

/-!
# Running a function on every thread

`android_run_on_all_threads(func, arg)` runs `func` on the calling thread, then sends
`BIONIC_SIGNAL_RUN_ON_ALL_THREADS` with `tgkill` to every other thread of `g_thread_list` that is
not `terminating`, and waits on `g_sem` once per signal sent; the handler runs `func` and posts
`g_sem`. The caller holds `g_thread_creation_lock` for writing and `g_thread_list_lock` for reading
throughout. `pthread_exit` sets `terminating` and blocks every signal under the creation lock held
for reading, and `pthread_create` clones with every signal blocked and adds the thread to the list
under it, so while the caller holds it no thread joins or leaves the list, and none stops taking
the signal.

The model interleaves atomic steps (`Bionic.Lib.Interleaving`): the caller's, those of the other
threads (starting `pthread_exit` and its locked part, `pthread_create` with its locked part, a new
thread setting its start mask, the removal from the list), and the kernel running the handler of a
pending signal on a thread that has it unblocked, to completion. What `func` returns on each thread
and whether each `tgkill` succeeds are parameters. Ghost fields count the runs of `func` on each
thread and mark the threads the scan chose.

`System.Inv` holds in every state of every run (`System.inv_run`). From it
(`androidRunOnAllThreads_spec`): the call takes the locks in one step, always possible before it,
and returns, since every step during it lowers `measure` and some step is always possible; when it returns, `func` has run once on the caller and once on each
chosen thread whose `tgkill` succeeded, and on no other; the chosen threads are those of the list,
other than the caller, that are not terminating; a thread with the signal pending never
terminates; no handler runs after the return; and the result is true iff every `func` returned
true and every `tgkill` succeeded. A `tgkill` that fails leaves its thread without a run of
`func` (`androidRunOnAllThreads_tgkill_fails`).
-/

set_option autoImplicit false
set_option relaxedAutoImplicit false

namespace Bionic.Pthread.RunOnAllThreads

open Bionic.Lib.Interleaving

/-- Where a thread other than the caller is, for this protocol. -/
inductive ThreadPc where
  /-- Not created yet. -/
  | notStarted
  /-- Cloned with every signal blocked, before `__pthread_start` sets its start mask. -/
  | starting
  /-- Running its code, with the signal unblocked. -/
  | running
  /-- In `pthread_exit`, before its part under the creation lock. -/
  | exiting
  /-- `terminating` set and every signal blocked. -/
  | terminated
  deriving DecidableEq, Repr

/-- Where the caller is in `android_run_on_all_threads`. -/
inductive CallerPc (τ : Type) where
  /-- Before the call. -/
  | idle
  /-- Holding both locks, before `func` on itself. -/
  | locked
  /-- The scan of `g_thread_list`: the threads left, and `num_tids`. -/
  | scanning (rest : List τ) (numTids : ℕ)
  /-- The `sem_wait` loop, with the waits left. -/
  | waiting (remaining : ℕ)
  /-- Returned `result`. -/
  | done (result : Bool)
  deriving DecidableEq, Repr

/-- The threads and the globals, with ghost fields: the runs of `func` on each thread, and the
threads the scan chose to signal. -/
structure System (τ : Type) where
  caller : CallerPc τ
  pc : τ → ThreadPc
  threadList : List τ
  pending : τ → Bool
  installed : Bool
  sem : ℕ
  retval : Bool
  funcRuns : τ → ℕ
  scanned : τ → Bool

variable {τ : Type} [DecidableEq τ]

/-- Whether the caller holds `g_thread_creation_lock` for writing and `g_thread_list_lock` for
reading. -/
def CallerPc.holdsLocks : CallerPc τ → Bool
  | .locked | .scanning _ _ | .waiting _ => true
  | _ => false

/-- What can take a step. -/
inductive Agent (τ : Type) where
  | caller
  /-- Thread `t` calls `pthread_exit`. -/
  | exit (t : τ)
  /-- Under the creation lock for reading, `t` sets `terminating` and blocks every signal. -/
  | exitLocked (t : τ)
  /-- Under the creation lock for reading, `t` clones `u` with every signal blocked and adds it to
  the list. -/
  | create (t u : τ)
  /-- Thread `t` passes the start handshake and sets its start mask. -/
  | start (t : τ)
  /-- A terminated `t` is removed from the list, under the list lock for writing. -/
  | remove (t : τ)
  /-- The kernel delivers the pending signal to `t` and the handler runs. -/
  | handler (t : τ)

namespace System

/-- Thread `t` moves to `p`. -/
def setPc (s : System τ) (t : τ) (p : ThreadPc) : System τ :=
  { s with pc := Function.update s.pc t p }

@[simp] theorem setPc_caller (s : System τ) (t : τ) (p : ThreadPc) :
    (s.setPc t p).caller = s.caller := rfl

@[simp] theorem setPc_threadList (s : System τ) (t : τ) (p : ThreadPc) :
    (s.setPc t p).threadList = s.threadList := rfl

@[simp] theorem setPc_pending (s : System τ) (t : τ) (p : ThreadPc) :
    (s.setPc t p).pending = s.pending := rfl

end System

section Step

variable (c : τ) (funcOk tgkillOk : τ → Bool)

/-- One step of the caller `c` in `android_run_on_all_threads`. -/
def callerStep (s : System τ) : Option (System τ) :=
  match s.caller with
  | .idle => some { s with caller := .locked }
  | .locked =>
    -- `func` on the calling thread, directly
    let s := { s with funcRuns := Function.update s.funcRuns c (s.funcRuns c + 1) }
    if funcOk c then
      some { s with caller := .scanning s.threadList 0, installed := true, retval := true, sem := 0 }
    else some { s with caller := .done false }
  | .scanning [] numTids => some { s with caller := .waiting numTids }
  | .scanning (t :: rest) numTids =>
    if t = c ∨ s.pc t = .terminated then some { s with caller := .scanning rest numTids }
    else if tgkillOk t then
      some { s with
        caller := .scanning rest (numTids + 1)
        pending := Function.update s.pending t true
        scanned := Function.update s.scanned t true }
    else
      some { s with
        caller := .scanning rest numTids
        retval := false
        scanned := Function.update s.scanned t true }
  | .waiting 0 => some { s with caller := .done s.retval, installed := false }
  | .waiting (k + 1) => if 0 < s.sem then some { s with caller := .waiting k, sem := s.sem - 1 } else none
  | .done _ => none

/-- One atomic step of the system. -/
def step : Agent τ → System τ → Option (System τ)
  | .caller, s => callerStep c funcOk tgkillOk s
  | .exit t, s => if t ≠ c ∧ s.pc t = .running then some (s.setPc t .exiting) else none
  | .exitLocked t, s =>
    if s.pc t = .exiting ∧ s.caller.holdsLocks = false then some (s.setPc t .terminated) else none
  | .create t u, s =>
    if t ≠ c ∧ s.pc t = .running ∧ s.pc u = .notStarted ∧ s.caller.holdsLocks = false then
      some { s.setPc u .starting with threadList := u :: s.threadList }
    else none
  | .start t, s => if s.pc t = .starting then some (s.setPc t .running) else none
  | .remove t, s =>
    if s.pc t = .terminated ∧ t ∈ s.threadList ∧ s.caller.holdsLocks = false then
      some { s with threadList := s.threadList.erase t }
    else none
  | .handler t, s =>
    if s.pending t = true ∧ s.installed = true ∧ (s.pc t = .running ∨ s.pc t = .exiting) then
      some { s with
        pending := Function.update s.pending t false
        funcRuns := Function.update s.funcRuns t (s.funcRuns t + 1)
        retval := s.retval && funcOk t
        sem := s.sem + 1 }
    else none

end Step

/-! ## The invariant -/

section Invariant

variable [Fintype τ] (c : τ) (funcOk tgkillOk : τ → Bool)

namespace System

/-- The threads that took the signal and ran the handler: chosen by the scan, `tgkill` succeeded,
and the signal no longer pending. -/
def ran (s : System τ) (t : τ) : Bool := s.scanned t && tgkillOk t && !s.pending t

/-- Before the call, and while the caller has not yet run `func`: nothing chosen, pending or run,
and no handler installed. -/
structure Quiet (s : System τ) : Prop where
  pending_eq : ∀ t, s.pending t = false
  scanned_eq : ∀ t, s.scanned t = false
  funcRuns_eq : ∀ t, s.funcRuns t = 0
  installed_eq : s.installed = false

/-- The scan has reached `rest`, and `outstanding` posts of `g_sem` are still to be waited for:
the chosen threads are those already scanned that are not the caller and not terminating; the
signal is pending on the chosen threads whose `tgkill` succeeded until their handler runs; each
post waited for or not yet consumed is a handler that ran. -/
structure Signalling (s : System τ) (rest : List τ) (outstanding : ℕ) : Prop where
  suffix : rest <:+ s.threadList
  scanned_iff : ∀ t, s.scanned t = true ↔
    t ∈ s.threadList ∧ t ∉ rest ∧ t ≠ c ∧ s.pc t ≠ .terminated
  pending_imp : ∀ t, s.pending t = true → s.scanned t = true ∧ tgkillOk t = true
  outstanding_eq : outstanding = s.sem + count id s.pending
  funcRuns_eq : ∀ t, s.funcRuns t = if t = c then 1 else if s.ran tgkillOk t then 1 else 0
  retval_eq : s.retval = (decide (∀ t, s.scanned t = true → tgkillOk t = true) &&
    decide (∀ t, s.ran tgkillOk t = true → funcOk t = true))
  installed_eq : s.installed = true
  funcOk_caller : funcOk c = true

/-- The call has returned `result`: no signal pending and the handler uninstalled; `func` ran once
on the caller and once on each chosen thread whose `tgkill` succeeded; and `result` says whether
every `func` returned true and every `tgkill` succeeded. -/
structure Returned (s : System τ) (result : Bool) : Prop where
  pending_eq : ∀ t, s.pending t = false
  installed_eq : s.installed = false
  funcRuns_eq : ∀ t, s.funcRuns t = if t = c then 1 else if s.scanned t && tgkillOk t then 1 else 0
  result_eq : result = (funcOk c &&
    decide (∀ t, s.scanned t = true → tgkillOk t = true ∧ funcOk t = true))

/-- What holds in each phase of the caller. -/
def PhaseOk (s : System τ) : Prop :=
  match s.caller with
  | .idle | .locked => s.Quiet
  | .scanning rest numTids => s.Signalling c funcOk tgkillOk rest numTids
  | .waiting remaining => s.Signalling c funcOk tgkillOk [] remaining
  | .done result => s.Returned c funcOk tgkillOk result

/-- The invariant: the list has no repeats and only created threads, among them the caller, which
runs; and the phase of the caller holds. -/
structure Inv (s : System τ) : Prop where
  nodup : s.threadList.Nodup
  listed : ∀ t ∈ s.threadList, s.pc t ≠ .notStarted
  caller_listed : c ∈ s.threadList
  caller_running : s.pc c = .running
  phase : s.PhaseOk c funcOk tgkillOk

end System

namespace System

variable {c funcOk tgkillOk}

theorem phaseOk_of_caller_eq {s s' : System τ} (hcaller : s'.caller = s.caller)
    (hquiet : s.Quiet → s'.Quiet)
    (hsig : ∀ rest n, s.Signalling c funcOk tgkillOk rest n → s'.Signalling c funcOk tgkillOk rest n)
    (hret : ∀ r, s.Returned c funcOk tgkillOk r → s'.Returned c funcOk tgkillOk r)
    (h : s.PhaseOk c funcOk tgkillOk) : s'.PhaseOk c funcOk tgkillOk := by
  unfold PhaseOk at h ⊢
  rw [hcaller]
  rcases hc : s.caller with _ | _ | ⟨rest, n⟩ | k | r <;> simp only [hc] at h ⊢
  · exact hquiet h
  · exact hquiet h
  · exact hsig rest n h
  · exact hsig [] k h
  · exact hret r h

theorem phaseOk_setPc {s : System τ} {t : τ} {p : ThreadPc}
    (hp : s.pc t = .terminated ↔ p = .terminated) (h : s.PhaseOk c funcOk tgkillOk) :
    (s.setPc t p).PhaseOk c funcOk tgkillOk := by
  have hterm : ∀ u, (s.setPc t p).pc u ≠ .terminated ↔ s.pc u ≠ .terminated := by
    intro u
    by_cases hu : u = t
    · subst hu
      simp [setPc, hp]
    · simp [setPc, hu]
  -- only the scan reads the threads' places, and only whether they terminated
  have hsig : ∀ rest n, s.Signalling c funcOk tgkillOk rest n →
      (s.setPc t p).Signalling c funcOk tgkillOk rest n := fun rest n h ↦
    { suffix := h.suffix
      scanned_iff := fun u ↦ by rw [hterm u]; exact h.scanned_iff u
      pending_imp := h.pending_imp
      outstanding_eq := h.outstanding_eq
      funcRuns_eq := h.funcRuns_eq
      retval_eq := h.retval_eq
      installed_eq := h.installed_eq
      funcOk_caller := h.funcOk_caller }
  exact phaseOk_of_caller_eq (s := s) rfl
    (fun h ↦ ⟨h.pending_eq, h.scanned_eq, h.funcRuns_eq, h.installed_eq⟩) hsig
    (fun _ h ↦ ⟨h.pending_eq, h.installed_eq, h.funcRuns_eq, h.result_eq⟩) h

theorem phaseOk_of_not_holdsLocks {s s' : System τ} (hlocks : s.caller.holdsLocks = false)
    (hcaller : s'.caller = s.caller) (hpending : s'.pending = s.pending)
    (hscanned : s'.scanned = s.scanned) (hruns : s'.funcRuns = s.funcRuns)
    (hinstalled : s'.installed = s.installed) (h : s.PhaseOk c funcOk tgkillOk) :
    s'.PhaseOk c funcOk tgkillOk := by
  unfold PhaseOk at h ⊢
  rw [hcaller]
  rcases hc : s.caller with _ | _ | ⟨rest, n⟩ | k | r <;>
    simp only [hc, CallerPc.holdsLocks, Bool.true_eq_false] at h hlocks ⊢
  · exact ⟨hpending ▸ h.pending_eq, hscanned ▸ h.scanned_eq, hruns ▸ h.funcRuns_eq,
      hinstalled ▸ h.installed_eq⟩
  · exact ⟨hpending ▸ h.pending_eq, hinstalled ▸ h.installed_eq,
      by rw [hruns, hscanned]; exact h.funcRuns_eq, by rw [hscanned]; exact h.result_eq⟩

theorem Signalling.handler {s : System τ} {rest : List τ} {n : ℕ}
    (h : s.Signalling c funcOk tgkillOk rest n) {t : τ} (hpend : s.pending t = true) :
    ({ s with
        pending := Function.update s.pending t false
        funcRuns := Function.update s.funcRuns t (s.funcRuns t + 1)
        retval := s.retval && funcOk t
        sem := s.sem + 1 } : System τ).Signalling c funcOk tgkillOk rest n := by
  obtain ⟨hscanned, hkill⟩ := h.pending_imp t hpend
  have htc : t ≠ c := ((h.scanned_iff t).1 hscanned).2.2.1
  -- `t` moves from pending to ran; every other thread keeps its state
  have hran : ∀ u, (s.scanned u && tgkillOk u && !Function.update s.pending t false u) =
      if u = t then true else s.ran tgkillOk u := by
    intro u
    by_cases hu : u = t
    · subst hu
      simp [hscanned, hkill]
    · simp [ran, hu]
  have hcount := count_update_of_true_false id s.pending (a := t) (b := false) hpend rfl
  refine
    { suffix := h.suffix
      scanned_iff := h.scanned_iff
      pending_imp := fun u hu ↦ ?_
      outstanding_eq := ?_
      funcRuns_eq := fun u ↦ ?_
      retval_eq := ?_
      installed_eq := h.installed_eq
      funcOk_caller := h.funcOk_caller }
  · by_cases hut : u = t
    · subst hut
      simp at hu
    · exact h.pending_imp u (by simpa [hut] using hu)
  · have := h.outstanding_eq
    simp only at hcount ⊢
    omega
  · simp only [ran, hran]
    by_cases hut : u = t
    · subst hut
      have hold := h.funcRuns_eq u
      simp only [ran, hscanned, hkill, hpend, Bool.not_true, Bool.and_false, Bool.false_eq_true,
        if_false, if_neg htc] at hold
      simp [hold, htc]
    · simp only [Function.update_of_ne hut, hut, if_false]
      exact h.funcRuns_eq u
  · simp only [ran, hran]
    rw [h.retval_eq, Bool.and_assoc]
    congr 1
    -- the runs that returned true now include that on `t`
    apply Bool.eq_iff_iff.2
    simp only [Bool.and_eq_true, decide_eq_true_eq]
    constructor
    · rintro ⟨hall, ht⟩ u hu
      by_cases hut : u = t
      · simp [hut, ht]
      · have hu' : ran tgkillOk s u = true := by simpa [ran, hut] using hu
        exact hall u hu'
    · intro hall
      refine ⟨fun u hu ↦ ?_, by simpa using hall t⟩
      by_cases hut : u = t
      · simpa [hut] using hall t
      · exact hall u (by simp only [hut, if_false]; simpa [ran] using hu)

/-! ### The caller's steps -/

theorem Quiet.signalling {s : System τ} (h : s.Quiet) (hok : funcOk c = true) :
    ({ s with
        funcRuns := Function.update s.funcRuns c (s.funcRuns c + 1)
        caller := .scanning s.threadList 0
        installed := true
        retval := true
        sem := 0 } : System τ).Signalling c funcOk tgkillOk s.threadList 0 where
  suffix := List.suffix_refl _
  scanned_iff u := by
    simp only [h.scanned_eq u, Bool.false_eq_true, false_iff]
    rintro ⟨h₁, h₂, -⟩
    exact h₂ h₁
  pending_imp u hu := by simp [h.pending_eq u] at hu
  outstanding_eq := by
    simp [(count_eq_zero_iff id s.pending).2 fun u ↦ by simpa using h.pending_eq u]
  funcRuns_eq u := by
    by_cases hu : u = c
    · subst hu
      simp [h.funcRuns_eq]
    · simp [hu, h.funcRuns_eq, ran, h.scanned_eq]
  retval_eq := by simp [ran, h.scanned_eq]
  installed_eq := rfl
  funcOk_caller := hok

theorem Quiet.returned {s : System τ} (h : s.Quiet) (hok : funcOk c = false) :
    ({ s with
        funcRuns := Function.update s.funcRuns c (s.funcRuns c + 1)
        caller := .done false } : System τ).Returned c funcOk tgkillOk false where
  pending_eq := h.pending_eq
  installed_eq := h.installed_eq
  funcRuns_eq u := by
    by_cases hu : u = c
    · subst hu
      simp [h.funcRuns_eq]
    · simp [hu, h.funcRuns_eq, h.scanned_eq]
  result_eq := by simp [hok]

section Scan

variable {s : System τ} {t : τ} {rest : List τ} {n : ℕ}

theorem mem_of_scan (hnodup : s.threadList.Nodup) (h : s.Signalling c funcOk tgkillOk (t :: rest) n) :
    t ∈ s.threadList ∧ t ∉ rest ∧ s.scanned t = false ∧ s.pending t = false := by
  have hcons : (t :: rest).Nodup := hnodup.sublist h.suffix.sublist
  have hscanned : s.scanned t = false := by
    rw [Bool.eq_false_iff]
    intro ht
    exact ((h.scanned_iff t).1 ht).2.1 List.mem_cons_self
  refine ⟨h.suffix.subset List.mem_cons_self, (List.nodup_cons.1 hcons).1, hscanned, ?_⟩
  rw [Bool.eq_false_iff]
  intro hp
  simp [(h.pending_imp t hp).1] at hscanned

theorem mem_scanned_iff
    (h : s.Signalling c funcOk tgkillOk (t :: rest) n) (u : τ) (hut : u ≠ t) :
    (u ∈ s.threadList ∧ u ∉ rest ∧ u ≠ c ∧ s.pc u ≠ .terminated) ↔ s.scanned u = true := by
  rw [h.scanned_iff u]
  simp [hut]

theorem Signalling.skip (hnodup : s.threadList.Nodup) (h : s.Signalling c funcOk tgkillOk (t :: rest) n)
    (hskip : t = c ∨ s.pc t = .terminated) (caller : CallerPc τ) :
    ({ s with caller := caller } : System τ).Signalling c funcOk tgkillOk rest n where
  suffix := (List.suffix_cons t rest).trans h.suffix
  scanned_iff u := by
    by_cases hut : u = t
    · subst hut
      obtain ⟨-, -, hscanned, -⟩ := mem_of_scan hnodup h
      simp only [hscanned, Bool.false_eq_true, false_iff]
      rintro ⟨-, -, hc, hterm⟩
      exact hskip.elim hc hterm
    · exact (mem_scanned_iff h u hut).symm
  pending_imp := h.pending_imp
  outstanding_eq := h.outstanding_eq
  funcRuns_eq := h.funcRuns_eq
  retval_eq := h.retval_eq
  installed_eq := h.installed_eq
  funcOk_caller := h.funcOk_caller

theorem Signalling.signal (hnodup : s.threadList.Nodup)
    (h : s.Signalling c funcOk tgkillOk (t :: rest) n) (htc : t ≠ c)
    (hterm : s.pc t ≠ .terminated) (hkill : tgkillOk t = true) :
    ({ s with
        caller := .scanning rest (n + 1)
        pending := Function.update s.pending t true
        scanned := Function.update s.scanned t true } : System τ).Signalling c funcOk tgkillOk
      rest (n + 1) := by
  obtain ⟨hmem, hnot, hscanned, hpend⟩ := mem_of_scan hnodup h
  have hcount := count_update_of_false_true id s.pending (a := t) (b := true) hpend rfl
  refine
    { suffix := (List.suffix_cons t rest).trans h.suffix
      scanned_iff := fun u ↦ ?_
      pending_imp := fun u hu ↦ ?_
      outstanding_eq := ?_
      funcRuns_eq := fun u ↦ ?_
      retval_eq := ?_
      installed_eq := h.installed_eq
      funcOk_caller := h.funcOk_caller }
  · by_cases hut : u = t
    · subst hut
      simp [hmem, hnot, htc, hterm]
    · simpa [hut] using (mem_scanned_iff h u hut).symm
  · by_cases hut : u = t
    · subst hut
      simp [hkill]
    · simpa [hut] using h.pending_imp u (by simpa [hut] using hu)
  · have := h.outstanding_eq
    simp only at hcount ⊢
    omega
  -- `t` is chosen but has not run: no run of `func` on it yet
  · by_cases hut : u = t
    · subst hut
      have hold := h.funcRuns_eq u
      simp only [ran, hscanned, Bool.false_and, Bool.false_eq_true, if_false] at hold
      simp [ran, hold]
    · simpa [ran, hut] using h.funcRuns_eq u
  · rw [h.retval_eq]
    apply Bool.eq_iff_iff.2
    simp only [ran, Bool.and_eq_true, decide_eq_true_eq]
    constructor
    · rintro ⟨hall, hran⟩
      refine ⟨fun u hu ↦ ?_, fun u hu ↦ ?_⟩
      · by_cases hut : u = t
        · exact hut ▸ hkill
        · exact hall u (by simpa [hut] using hu)
      · by_cases hut : u = t
        · subst hut
          simp at hu
        · exact hran u (by simpa [hut] using hu)
    · rintro ⟨hall, hran⟩
      refine ⟨fun u hu ↦ hall u ?_, fun u hu ↦ ?_⟩
      · by_cases hut : u = t
        · simp [hut]
        · simpa [hut] using hu
      · by_cases hut : u = t
        · subst hut
          simp [hpend] at hu
          simp [hscanned] at hu
        · exact hran u (by simpa [hut] using hu)

theorem Signalling.fail (hnodup : s.threadList.Nodup)
    (h : s.Signalling c funcOk tgkillOk (t :: rest) n) (htc : t ≠ c)
    (hterm : s.pc t ≠ .terminated) (hkill : tgkillOk t = false) :
    ({ s with
        caller := .scanning rest n
        retval := false
        scanned := Function.update s.scanned t true } : System τ).Signalling c funcOk tgkillOk
      rest n := by
  obtain ⟨hmem, hnot, hscanned, hpend⟩ := mem_of_scan hnodup h
  refine
    { suffix := (List.suffix_cons t rest).trans h.suffix
      scanned_iff := fun u ↦ ?_
      pending_imp := fun u hu ↦ ?_
      outstanding_eq := h.outstanding_eq
      funcRuns_eq := fun u ↦ ?_
      retval_eq := ?_
      installed_eq := h.installed_eq
      funcOk_caller := h.funcOk_caller }
  · by_cases hut : u = t
    · subst hut
      simp [hmem, hnot, htc, hterm]
    · simpa [hut] using (mem_scanned_iff h u hut).symm
  · have hold := h.pending_imp u hu
    by_cases hut : u = t
    · subst hut
      simp [hpend] at hu
    · simpa [hut] using hold
  · by_cases hut : u = t
    · subst hut
      have hold := h.funcRuns_eq u
      simp only [ran, hscanned, Bool.false_and, Bool.false_eq_true, if_false] at hold
      simp [ran, hold, hkill]
    · simpa [ran, hut] using h.funcRuns_eq u
  -- the failed `tgkill` on `t` makes the result false
  · symm
    simp only [Bool.and_eq_false_imp, decide_eq_true_eq]
    intro hall
    exact absurd (hall t (by simp)) (by simp [hkill])

end Scan

theorem Signalling.wait {s : System τ} {k : ℕ} (h : s.Signalling c funcOk tgkillOk [] (k + 1))
    (hsem : 0 < s.sem) :
    ({ s with caller := .waiting k, sem := s.sem - 1 } : System τ).Signalling c funcOk tgkillOk
      [] k where
  suffix := h.suffix
  scanned_iff := h.scanned_iff
  pending_imp := h.pending_imp
  outstanding_eq := by have := h.outstanding_eq; simp only; omega
  funcRuns_eq := h.funcRuns_eq
  retval_eq := h.retval_eq
  installed_eq := h.installed_eq
  funcOk_caller := h.funcOk_caller

theorem Signalling.returned {s : System τ} (h : s.Signalling c funcOk tgkillOk [] 0) :
    ({ s with caller := .done s.retval, installed := false } : System τ).Returned c funcOk
      tgkillOk s.retval := by
  have hzero : count id s.pending = 0 := by have := h.outstanding_eq; omega
  have hpending : ∀ t, s.pending t = false := fun t ↦ by
    simpa using (count_eq_zero_iff id s.pending).1 hzero t
  refine ⟨hpending, rfl, fun u ↦ ?_, ?_⟩
  · simpa [ran, hpending u] using h.funcRuns_eq u
  -- every chosen thread with a successful `tgkill` ran
  · rw [h.retval_eq, h.funcOk_caller, Bool.true_and]
    apply Bool.eq_iff_iff.2
    simp only [ran, hpending, Bool.not_false, Bool.and_true, Bool.and_eq_true, decide_eq_true_eq]
    constructor
    · rintro ⟨hkill, hrun⟩ u hu
      exact ⟨hkill u hu, hrun u ⟨hu, hkill u hu⟩⟩
    · intro hall
      exact ⟨fun u hu ↦ (hall u hu).1, fun u hu ↦ (hall u hu.1).2⟩

theorem Signalling.setCaller {s : System τ} {rest : List τ} {n : ℕ}
    (h : s.Signalling c funcOk tgkillOk rest n) (caller : CallerPc τ) :
    ({ s with caller := caller } : System τ).Signalling c funcOk tgkillOk rest n :=
  ⟨h.suffix, h.scanned_iff, h.pending_imp, h.outstanding_eq, h.funcRuns_eq, h.retval_eq,
    h.installed_eq, h.funcOk_caller⟩

/-! ### Every step keeps the invariant -/

/-- A step that leaves the threads and the list alone keeps the invariant when it keeps the
phase. -/
theorem Inv.of_phaseOk {s s' : System τ} (h : s.Inv c funcOk tgkillOk) (hpc : s'.pc = s.pc)
    (hlist : s'.threadList = s.threadList) (hphase : s'.PhaseOk c funcOk tgkillOk) :
    s'.Inv c funcOk tgkillOk where
  nodup := hlist ▸ h.nodup
  listed := hpc ▸ hlist ▸ h.listed
  caller_listed := hlist ▸ h.caller_listed
  caller_running := hpc ▸ h.caller_running
  phase := hphase

theorem Inv.callerStep {s s' : System τ} (h : s.Inv c funcOk tgkillOk)
    (hs : callerStep c funcOk tgkillOk s = some s') : s'.Inv c funcOk tgkillOk := by
  have hphase := h.phase
  unfold PhaseOk at hphase
  unfold RunOnAllThreads.callerStep at hs
  rcases hc : s.caller with _ | _ | ⟨_ | ⟨t, rest⟩, n⟩ | (_ | k) | r <;>
    simp only [hc] at hs hphase
  · -- idle: take the locks
    obtain rfl := Option.some.inj hs
    exact h.of_phaseOk rfl rfl
      (show Quiet _ from ⟨hphase.pending_eq, hphase.scanned_eq, hphase.funcRuns_eq,
        hphase.installed_eq⟩)
  · -- locked: `func` on the caller
    split_ifs at hs with hok
    · obtain rfl := Option.some.inj hs
      exact h.of_phaseOk rfl rfl (hphase.signalling hok)
    · obtain rfl := Option.some.inj hs
      exact h.of_phaseOk rfl rfl (hphase.returned (Bool.eq_false_iff.2 hok))
  · -- the scan is over
    obtain rfl := Option.some.inj hs
    exact h.of_phaseOk rfl rfl (hphase.setCaller _)
  · -- the scan at `t`
    split_ifs at hs with hskip hkill
    · obtain rfl := Option.some.inj hs
      exact h.of_phaseOk rfl rfl (hphase.skip h.nodup hskip _)
    · obtain rfl := Option.some.inj hs
      push Not at hskip
      exact h.of_phaseOk rfl rfl (hphase.signal h.nodup hskip.1 hskip.2 hkill)
    · obtain rfl := Option.some.inj hs
      push Not at hskip
      exact h.of_phaseOk rfl rfl
        (hphase.fail h.nodup hskip.1 hskip.2 (Bool.eq_false_iff.2 hkill))
  · -- no post left to wait for: return
    obtain rfl := Option.some.inj hs
    exact h.of_phaseOk rfl rfl hphase.returned
  · -- `sem_wait`
    split_ifs at hs with hsem
    obtain rfl := Option.some.inj hs
    exact h.of_phaseOk rfl rfl (hphase.wait hsem)
  · simp at hs

/-- A thread other than the caller that moves without starting or stopping terminating keeps the
invariant. -/
theorem Inv.setPc {s : System τ} (h : s.Inv c funcOk tgkillOk) {t : τ} {p : ThreadPc}
    (htc : t ≠ c) (hp : p ≠ .notStarted) (hterm : s.pc t = .terminated ↔ p = .terminated) :
    (s.setPc t p).Inv c funcOk tgkillOk where
  nodup := h.nodup
  listed u hu := by
    by_cases hut : u = t
    · simp [System.setPc, hut, hp]
    · simpa [System.setPc, hut] using h.listed u hu
  caller_listed := h.caller_listed
  caller_running := by simpa [System.setPc, Ne.symm htc] using h.caller_running
  phase := phaseOk_setPc hterm h.phase

/-- Outside the call, a step that changes only the threads and the list keeps the invariant when
it keeps the list's shape. -/
theorem Inv.of_not_holdsLocks {s s' : System τ} (h : s.Inv c funcOk tgkillOk)
    (hlocks : s.caller.holdsLocks = false) (hcaller : s'.caller = s.caller)
    (hpending : s'.pending = s.pending) (hscanned : s'.scanned = s.scanned)
    (hruns : s'.funcRuns = s.funcRuns) (hinstalled : s'.installed = s.installed)
    (hnodup : s'.threadList.Nodup) (hlisted : ∀ t ∈ s'.threadList, s'.pc t ≠ .notStarted)
    (hcl : c ∈ s'.threadList) (hcr : s'.pc c = .running) : s'.Inv c funcOk tgkillOk :=
  ⟨hnodup, hlisted, hcl, hcr,
    phaseOk_of_not_holdsLocks hlocks hcaller hpending hscanned hruns hinstalled h.phase⟩

theorem inv_stable : Stable (step c funcOk tgkillOk) fun s : System τ ↦ s.Inv c funcOk tgkillOk := by
  intro a s s' h hs
  cases a with
  | caller => exact h.callerStep hs
  | exit t =>
    simp only [step] at hs
    split_ifs at hs with ht
    obtain rfl := Option.some.inj hs
    exact h.setPc ht.1 (by decide) (by simp [ht.2])
  | exitLocked t =>
    simp only [step] at hs
    split_ifs at hs with ht
    obtain rfl := Option.some.inj hs
    have htc : t ≠ c := fun htc ↦ by simp [htc, h.caller_running] at ht
    -- the locked part of `pthread_exit` waits for the caller to release the creation lock
    refine h.of_not_holdsLocks ht.2 rfl rfl rfl rfl rfl h.nodup (fun u hu ↦ ?_) h.caller_listed
      (by simpa [setPc, Ne.symm htc] using h.caller_running)
    by_cases hut : u = t
    · simp [setPc, hut]
    · simpa [setPc, hut] using h.listed u hu
  | create t u =>
    simp only [step] at hs
    split_ifs at hs with ht
    obtain rfl := Option.some.inj hs
    obtain ⟨htc, -, hu, hlocks⟩ := ht
    have hnot : u ∉ s.threadList := fun hmem ↦ h.listed u hmem hu
    have huc : u ≠ c := fun huc ↦ by simp [huc, h.caller_running] at hu
    refine h.of_not_holdsLocks hlocks rfl rfl rfl rfl rfl (List.nodup_cons.2 ⟨hnot, h.nodup⟩)
      (fun v hv ↦ ?_) (List.mem_cons_of_mem _ h.caller_listed)
      (by simpa [setPc, Ne.symm huc] using h.caller_running)
    by_cases hvu : v = u
    · simp [setPc, hvu]
    · have hv' : v ∈ s.threadList := by simpa [hvu] using hv
      simpa [setPc, hvu] using h.listed v hv'
  | start t =>
    simp only [step] at hs
    split_ifs at hs with ht
    obtain rfl := Option.some.inj hs
    have htc : t ≠ c := fun htc ↦ by simp [htc, h.caller_running] at ht
    exact h.setPc htc (by decide) (by simp [ht])
  | remove t =>
    simp only [step] at hs
    split_ifs at hs with ht
    obtain rfl := Option.some.inj hs
    obtain ⟨hterm, -, hlocks⟩ := ht
    have htc : t ≠ c := fun htc ↦ by simp [htc, h.caller_running] at hterm
    exact h.of_not_holdsLocks hlocks rfl rfl rfl rfl rfl (h.nodup.erase t)
      (fun u hu ↦ h.listed u ((List.erase_subset) hu))
      ((List.mem_erase_of_ne (Ne.symm htc)).2 h.caller_listed) h.caller_running
  | handler t =>
    simp only [step] at hs
    split_ifs at hs with ht
    obtain rfl := Option.some.inj hs
    obtain ⟨hpend, -, -⟩ := ht
    -- a pending signal means the call is in its scan or its waits
    exact h.of_phaseOk rfl rfl (phaseOk_of_caller_eq (s := s) rfl
      (fun hq ↦ absurd hpend (by simp [hq.pending_eq t])) (fun _ _ hsig ↦ hsig.handler hpend)
      (fun _ hr ↦ absurd hpend (by simp [hr.pending_eq t])) h.phase)

/-! ### Runs -/

variable (c) in
/-- A state before the call: the caller is a running thread of the list, nothing is pending,
chosen or run, and no handler is installed. The other threads may be anywhere. -/
structure Init (s : System τ) : Prop where
  caller_eq : s.caller = .idle
  nodup : s.threadList.Nodup
  listed : ∀ t ∈ s.threadList, s.pc t ≠ .notStarted
  caller_listed : c ∈ s.threadList
  caller_running : s.pc c = .running
  quiet : s.Quiet

theorem Init.inv {s : System τ} (h : s.Init c) : s.Inv c funcOk tgkillOk where
  nodup := h.nodup
  listed := h.listed
  caller_listed := h.caller_listed
  caller_running := h.caller_running
  phase := by unfold PhaseOk; rw [h.caller_eq]; exact h.quiet

theorem inv_run {s : System τ} (h : s.Init c) (schedule : List (Agent τ)) :
    (run (step c funcOk tgkillOk) s schedule).Inv c funcOk tgkillOk := by
  have h₀ : s.Inv c funcOk tgkillOk := h.inv
  exact inv_stable.run h₀ schedule

end System

/-! ### The call ends -/

/-- How far a thread is from terminating, which the creation lock keeps it from doing. -/
def ThreadPc.rank : ThreadPc → ℕ
  | .starting => 3
  | .running => 2
  | .exiting => 1
  | _ => 0

namespace System

variable {c funcOk tgkillOk}

/-- The caller's steps left in the call: three per thread left to scan, one per post left to wait
for, and the steps between. -/
def callerRank (s : System τ) : ℕ :=
  match s.caller with
  | .locked => 3 * s.threadList.length + 3
  | .scanning rest numTids => 3 * rest.length + numTids + 2
  | .waiting remaining => remaining + 1
  | _ => 0

/-- What is left of the call: the caller's steps, the steps of the threads until they would
terminate, and the handlers still to run. -/
def measure (s : System τ) : ℕ :=
  s.callerRank + ∑ t, (s.pc t).rank + count id s.pending

theorem sum_rank_setPc (s : System τ) (t : τ) (p : ThreadPc) :
    ∑ u, ((s.setPc t p).pc u).rank + (s.pc t).rank = ∑ u, (s.pc u).rank + p.rank := by
  have hupdate : (fun u ↦ ((s.setPc t p).pc u).rank) =
      Function.update (fun u ↦ (s.pc u).rank) t p.rank := by
    funext u
    exact Function.apply_update (fun _ q ↦ q.rank) s.pc t p u
  rw [hupdate, Finset.sum_update_of_mem (Finset.mem_univ t),
    Finset.sum_eq_add_sum_sdiff_singleton_of_mem (Finset.mem_univ t)]
  omega

/-- **During the call every step lowers the measure.** The threads cannot create, terminate or
leave the list while the caller holds the locks, so the measure bounds every run of the call. -/
theorem measure_lt {s s' : System τ} (h : s.Inv c funcOk tgkillOk)
    (hlocks : s.caller.holdsLocks = true) {a : Agent τ}
    (hs : step c funcOk tgkillOk a s = some s') : s'.measure < s.measure := by
  cases a with
  | caller =>
    have hphase := h.phase
    unfold PhaseOk at hphase
    simp only [step] at hs
    unfold RunOnAllThreads.callerStep at hs
    simp only [measure, callerRank]
    rcases hc : s.caller with _ | _ | ⟨_ | ⟨t, rest⟩, n⟩ | (_ | k) | r <;>
      simp only [hc, CallerPc.holdsLocks, Bool.false_eq_true] at hs hphase hlocks ⊢
    · split_ifs at hs <;> obtain rfl := Option.some.inj hs <;> simp only <;> omega
    · obtain rfl := Option.some.inj hs
      simp only
      omega
    · split_ifs at hs with hskip hkill
      · obtain rfl := Option.some.inj hs
        simp only [List.length_cons]
        omega
      · -- the signal sent is one more handler to run
        obtain rfl := Option.some.inj hs
        obtain ⟨-, -, -, hpend⟩ := mem_of_scan h.nodup hphase
        have hcount := count_update_of_false_true id s.pending (a := t) (b := true) hpend rfl
        simp only [List.length_cons] at hcount ⊢
        omega
      · obtain rfl := Option.some.inj hs
        simp only [List.length_cons]
        omega
    · obtain rfl := Option.some.inj hs
      simp only
      omega
    · split_ifs at hs
      obtain rfl := Option.some.inj hs
      simp only
      omega
  | exit t =>
    simp only [step] at hs
    split_ifs at hs with ht
    obtain rfl := Option.some.inj hs
    have hrank := sum_rank_setPc s t .exiting
    simp only [measure, callerRank, setPc_caller, setPc_threadList, setPc_pending, ht.2,
      ThreadPc.rank] at hrank ⊢
    omega
  | exitLocked t =>
    simp only [step, hlocks, Bool.true_eq_false, and_false, if_false] at hs
    simp at hs
  | create t u =>
    simp only [step, hlocks, Bool.true_eq_false, and_false, if_false] at hs
    simp at hs
  | start t =>
    simp only [step] at hs
    split_ifs at hs with ht
    obtain rfl := Option.some.inj hs
    have hrank := sum_rank_setPc s t .running
    simp only [measure, callerRank, setPc_caller, setPc_threadList, setPc_pending, ht,
      ThreadPc.rank] at hrank ⊢
    omega
  | remove t =>
    simp only [step, hlocks, Bool.true_eq_false, and_false, if_false] at hs
    simp at hs
  | handler t =>
    simp only [step] at hs
    split_ifs at hs with ht
    obtain rfl := Option.some.inj hs
    have hcount := count_update_of_true_false id s.pending (a := t) (b := false) ht.1 rfl
    simp only [measure, callerRank] at hcount ⊢
    omega

/-- **During the call some step is always possible**: the caller's, or, while it waits on
`g_sem` with no post, the start or the handler of a thread with the signal pending. -/
theorem exists_step {s : System τ} (h : s.Inv c funcOk tgkillOk)
    (hlocks : s.caller.holdsLocks = true) : ∃ a s', step c funcOk tgkillOk a s = some s' := by
  have hphase := h.phase
  unfold PhaseOk at hphase
  rcases hc : s.caller with _ | _ | ⟨_ | ⟨t, rest⟩, n⟩ | (_ | k) | r <;>
    simp only [hc, CallerPc.holdsLocks, Bool.false_eq_true] at hphase hlocks
  · refine ⟨.caller, ?_⟩
    simp only [step, callerStep, hc]
    split_ifs <;> exact ⟨_, rfl⟩
  · exact ⟨.caller, _, by simp only [step, callerStep, hc]; rfl⟩
  · refine ⟨.caller, ?_⟩
    simp only [step, callerStep, hc]
    split_ifs <;> exact ⟨_, rfl⟩
  · exact ⟨.caller, _, by simp only [step, callerStep, hc]; rfl⟩
  · by_cases hsem : 0 < s.sem
    · exact ⟨.caller, _, by simp only [step, callerStep, hc, if_pos hsem]; rfl⟩
    -- no post yet: a post is still to come from a thread with the signal pending
    · have hcount : count id s.pending ≠ 0 := by have := hphase.outstanding_eq; omega
      obtain ⟨t, ht⟩ := exists_of_count_ne_zero id s.pending hcount
      replace ht : s.pending t = true := ht
      have hscanned := (hphase.pending_imp t ht).1
      obtain ⟨hmem, -, -, hterm⟩ := (hphase.scanned_iff t).1 hscanned
      have hstarted := h.listed t hmem
      cases hpc : s.pc t with
      | notStarted => exact absurd hpc hstarted
      | starting => exact ⟨.start t, _, by simp only [step, hpc, if_true]; rfl⟩
      | running =>
        refine ⟨.handler t, ?_⟩
        simp [step, ht, hpc, hphase.installed_eq]
      | exiting =>
        refine ⟨.handler t, ?_⟩
        simp [step, ht, hpc, hphase.installed_eq]
      | terminated => exact absurd hpc hterm

theorem funcRuns_step_of_returned {s s' : System τ} {r : Bool}
    (h : s.Returned c funcOk tgkillOk r) (hc : s.caller = .done r) {a : Agent τ}
    (hs : step c funcOk tgkillOk a s = some s') : s'.funcRuns = s.funcRuns := by
  cases a with
  | caller => simp [step, callerStep, hc] at hs
  | handler t => simp [step, h.pending_eq t] at hs
  | exit t | exitLocked t | start t | remove t =>
    simp only [step] at hs
    split_ifs at hs
    obtain rfl := Option.some.inj hs
    rfl
  | create t u =>
    simp only [step] at hs
    split_ifs at hs
    obtain rfl := Option.some.inj hs
    rfl

end System

/-- What `android_run_on_all_threads` does, in a state of a run. Before the call, the caller's
next step takes both locks: the other threads hold them only within single steps. During the call
every step lowers `measure` and some step is possible, so the call returns. While the caller waits, the
chosen threads are those of the list, other than the caller, that are not terminating. A thread
with the signal pending was chosen and has not terminated. When the call has returned, `func` ran
once on the caller and once on each chosen thread whose `tgkill` succeeded, the result says
whether every `func` returned true and every `tgkill` succeeded, and no step runs `func` again. -/
structure CallSpec (s : System τ) : Prop where
  progress : (s.caller = .idle →
      ∃ s', step c funcOk tgkillOk .caller s = some s' ∧ s'.caller.holdsLocks = true) ∧
    (s.caller.holdsLocks = true →
      (∀ a s', step c funcOk tgkillOk a s = some s' → s'.measure < s.measure) ∧
        ∃ a s', step c funcOk tgkillOk a s = some s')
  chosen : ∀ k, s.caller = .waiting k →
    ∀ t, s.scanned t = true ↔ t ∈ s.threadList ∧ t ≠ c ∧ s.pc t ≠ .terminated
  pending_live : ∀ t, s.pending t = true → s.scanned t = true ∧ s.pc t ≠ .terminated
  returned : ∀ r, s.caller = .done r →
    s.funcRuns c = 1 ∧
      (∀ t, t ≠ c → s.funcRuns t = if s.scanned t && tgkillOk t then 1 else 0) ∧
      r = (funcOk c && decide (∀ t, s.scanned t = true → tgkillOk t = true ∧ funcOk t = true))
  no_late_runs : ∀ r, s.caller = .done r →
    ∀ a s', step c funcOk tgkillOk a s = some s' → s'.funcRuns = s.funcRuns

namespace System

variable {c funcOk tgkillOk}

theorem Inv.callSpec {s : System τ} (h : s.Inv c funcOk tgkillOk) :
    CallSpec c funcOk tgkillOk s := by
  have hphase := h.phase
  unfold PhaseOk at hphase
  -- from `idle` the caller takes both locks in one step
  have hlock : s.caller = .idle → step c funcOk tgkillOk .caller s = some { s with caller := .locked } :=
    fun hidle ↦ by simp [step, RunOnAllThreads.callerStep, hidle]
  refine ⟨⟨fun hidle ↦ ⟨_, hlock hidle, rfl⟩,
      fun hlocks ↦ ⟨fun a s' hs ↦ measure_lt h hlocks hs, exists_step h hlocks⟩⟩,
    fun k hk t ↦ ?_, fun t ht ↦ ?_, fun r hr ↦ ?_, fun r hr a s' hs ↦ ?_⟩
  · simp only [hk] at hphase
    simpa using hphase.scanned_iff t
  -- a pending signal means the call is in its scan or its waits
  · rcases hc : s.caller with _ | _ | ⟨rest, n⟩ | k | r <;> simp only [hc] at hphase
    · simp [hphase.pending_eq t] at ht
    · simp [hphase.pending_eq t] at ht
    · have hscanned := (hphase.pending_imp t ht).1
      exact ⟨hscanned, ((hphase.scanned_iff t).1 hscanned).2.2.2⟩
    · have hscanned := (hphase.pending_imp t ht).1
      exact ⟨hscanned, ((hphase.scanned_iff t).1 hscanned).2.2.2⟩
    · simp [hphase.pending_eq t] at ht
  · simp only [hr] at hphase
    refine ⟨by simpa using hphase.funcRuns_eq c, fun t htc ↦ ?_, hphase.result_eq⟩
    simpa [htc] using hphase.funcRuns_eq t
  · simp only [hr] at hphase
    exact funcRuns_step_of_returned hphase hr hs

end System

variable {c funcOk tgkillOk} in
/-- **`android_run_on_all_threads` over every interleaving**: from a state before the call, every
state of every run meets `CallSpec`. -/
theorem androidRunOnAllThreads_spec {s : System τ} (h : s.Init c) (schedule : List (Agent τ)) :
    CallSpec c funcOk tgkillOk (run (step c funcOk tgkillOk) s schedule) :=
  (System.inv_run h schedule).callSpec

/-- Two running threads, `1` then the caller `0` in the list, before the call. -/
def twoThreads : System (Fin 2) where
  caller := .idle
  pc := fun _ ↦ .running
  threadList := [⟨1, Nat.one_lt_two⟩, ⟨0, Nat.zero_lt_two⟩]
  pending := fun _ ↦ false
  installed := false
  sem := 0
  retval := true
  funcRuns := fun _ ↦ 0
  scanned := fun _ ↦ false

theorem twoThreads_init : twoThreads.Init 0 :=
  ⟨rfl, by decide, fun t _ ↦ by simp [twoThreads], by decide, rfl,
    ⟨fun _ ↦ rfl, fun _ ↦ rfl, fun _ ↦ rfl, rfl⟩⟩

/-- The caller's steps and the handler on `1`. -/
theorem androidRunOnAllThreads_spec_twoThreads :
    CallSpec 0 (fun _ ↦ true) (fun _ ↦ true)
      (run (step 0 (fun _ ↦ true) (fun _ ↦ true)) twoThreads
        [.caller, .caller, .caller, .caller, .caller, .handler 1, .caller, .caller]) :=
  androidRunOnAllThreads_spec twoThreads_init _

/-- **A `tgkill` that fails leaves a chosen thread without a run of `func`**: with the `tgkill` to
thread `1` failing, the call returns false, and `func` never ran on `1`, which was in the list and
not terminating. -/
theorem androidRunOnAllThreads_tgkill_fails :
    let s := run (step 0 (fun _ ↦ true) (fun t ↦ decide (t = 0))) twoThreads
      (List.replicate 6 .caller)
    s.caller = .done false ∧ s.scanned 1 = true ∧ s.funcRuns 1 = 0 := by
  decide

end Invariant

end Bionic.Pthread.RunOnAllThreads
