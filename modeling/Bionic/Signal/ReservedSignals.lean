import Mathlib.Data.BitVec
import Bionic.Errno
import Bionic.Lib.BitField

/-!
# The reserved real-time signals in signal masks and wait sets

Bionic keeps nine real-time signals, `__SIGRTMIN + 0` to `__SIGRTMIN + 8`, for itself.
`filter_reserved_signals` rewrites every set a caller hands to the kernel: the POSIX timer signal
`__SIGRTMIN + 0` is "blocked" and the other eight "unblocked", where for `SIG_UNBLOCK` the two
roles swap, since that set lists what to remove from the mask. `sigprocmask64` filters with the
caller's `how`; `sigsuspend64` and `sigtimedwait64`, and so `sigwait64` and `sigwaitinfo64`,
filter with `SIG_SETMASK`. On LP32, `SigSetConverter` widens the 32-bit `sigset_t` of the old
entry points to a `sigset64_t`.

A set is its 64 bits, signal `sig` at bit `sig - 1`. The model gives, for each wrapper, the
arguments of the system call it makes, or the error it returns before making one, and the
kernel's rule for which pending signals a wait may take (`mayDequeue`).

`isMember_filterReservedSignals` says what the filter does to every signal. The wait set of
`sigtimedwait64` is the caller's set without the eight and with `__SIGRTMIN + 0` added
(`isMember_sigtimedwait64`), so the kernel may hand `sigtimedwait64`, `sigwaitinfo64` and
`sigwait64` the POSIX timer signal when the caller did not ask for it
(`sigtimedwait64_may_return_unrequested`).
-/

set_option autoImplicit false
set_option relaxedAutoImplicit false

namespace Bionic.Signal

open Bionic.Lib.BitField

/-! ## Signal sets -/

/-- `sigset64_t`: signal `sig` is bit `sig - 1`. On LP32 it is two `unsigned long`s, low word
first, which `SigAddSet` indexes as the one 64-bit word here. -/
abbrev SigSet64 := BitVec 64

/-- `sigset_t` of LP32: signals 1 to 32. -/
abbrev SigSet32 := BitVec 32

/-- Whether signal `sig` is in the set: bit `sig - 1`, and no signal 0. -/
def isMember {w : ℕ} (set : BitVec w) (sig : ℕ) : Bool := decide (1 ≤ sig) && set.getLsbD (sig - 1)

/-- `SigAddSet` and `SigDelSet` of `signal.cpp`, which differ only in how they change the bit:
`EINVAL` for a signal with no bit in the set, else the set with bit `sig - 1` changed by `op`. -/
def sigChangeSet (op : SigSet64 → SigSet64 → SigSet64) (set : SigSet64) (sig : ℤ) :
    Except ℤ SigSet64 :=
  let bit := sig - 1
  if bit < 0 ∨ 8 * 8 ≤ bit then .error einval else .ok (op set (1#64 <<< bit.toNat))

/-- `sigaddset64`. -/
def sigaddset64 : SigSet64 → ℤ → Except ℤ SigSet64 := sigChangeSet (· ||| ·)

/-- `sigdelset64`. -/
def sigdelset64 : SigSet64 → ℤ → Except ℤ SigSet64 := sigChangeSet (fun set b ↦ set &&& ~~~b)

/-- A call through a pointer to `sigaddset64` or `sigdelset64` on a local set whose result is
ignored: the set it leaves. -/
def changeIgnoringResult (f : SigSet64 → ℤ → Except ℤ SigSet64) (set : SigSet64) (sig : ℤ) :
    SigSet64 :=
  match f set sig with
  | .ok set => set
  | .error _ => set

/-- `__SIGRTMIN`. -/
def sigRtMin : ℕ := 32

/-- `__SIGRT_RESERVED`. -/
def sigRtReserved : ℕ := 9

/-- The `how` of `sigprocmask`: `SIG_BLOCK`, `SIG_UNBLOCK` and `SIG_SETMASK`. -/
inductive How where
  | block
  | unblock
  | setmask
  deriving DecidableEq, Repr

/-- The value of `SIG_BLOCK`, `SIG_UNBLOCK` and `SIG_SETMASK`. -/
def How.toInt : How → ℤ
  | .block => 0
  | .unblock => 1
  | .setmask => 2

/-- The `how` an `int` names, if any. -/
def How.ofInt? (how : ℤ) : Option How :=
  if how = 0 then some .block
  else if how = 1 then some .unblock
  else if how = 2 then some .setmask
  else none

/-! ## `filter_reserved_signals` -/

/-- The pair `block`, `unblock` that `filter_reserved_signals` chooses for `how`. -/
def blockOps : How → (SigSet64 → ℤ → Except ℤ SigSet64) × (SigSet64 → ℤ → Except ℤ SigSet64)
  | .block | .setmask => (sigaddset64, sigdelset64)
  | .unblock => (sigdelset64, sigaddset64)

/-- `filter_reserved_signals(sigset, how)`: "block" the POSIX timer signal and "unblock" the
other reserved signals. -/
def filterReservedSignals (sigset : SigSet64) (how : How) : SigSet64 :=
  let sigset := changeIgnoringResult (blockOps how).1 sigset (sigRtMin + 0)
  (List.range' 1 (sigRtReserved - 1)).foldl
    (fun sigset (i : ℕ) ↦ changeIgnoringResult (blockOps how).2 sigset (sigRtMin + i)) sigset

/-! ## What each change does to the members -/

section Members

variable {w : ℕ}

@[simp]
theorem isMember_or (x y : BitVec w) (sig : ℕ) :
    isMember (x ||| y) sig = (isMember x sig || isMember y sig) := by
  simp only [isMember, BitVec.getLsbD_or]
  cases decide (1 ≤ sig) <;> rfl

@[simp]
theorem isMember_and_not (x y : BitVec w) (sig : ℕ) :
    isMember (x &&& ~~~y) sig = (isMember x sig && !isMember y sig) := by
  simp only [isMember, BitVec.getLsbD_and, BitVec.getLsbD_not]
  by_cases hsig : 1 ≤ sig
  · by_cases hw : sig - 1 < w
    · simp [hsig, hw]
    -- above the width the bit of `x` is false
    · simp [hsig, hw, BitVec.getLsbD_of_ge x (sig - 1) (by omega)]
  · simp [hsig]

end Members

theorem sigChangeSet_of_le {k : ℕ} (hk : 1 ≤ k ∧ k ≤ 64) (op : SigSet64 → SigSet64 → SigSet64)
    (set : SigSet64) : sigChangeSet op set k = .ok (op set (1#64 <<< (k - 1))) := by
  have hbit : ((k : ℤ) - 1).toNat = k - 1 := by omega
  rw [sigChangeSet, if_neg (by omega), hbit]

theorem isMember_sigaddset64 {k : ℕ} (hk : 1 ≤ k ∧ k ≤ 64) (set : SigSet64) (sig : ℕ) :
    isMember (changeIgnoringResult sigaddset64 set k) sig =
      if sig = k then true else isMember set sig := by
  simp only [changeIgnoringResult, sigaddset64, sigChangeSet_of_le hk, isMember,
    getLsbD_or_one_shiftLeft set (show k - 1 < 64 by omega)]
  split_ifs with hsig
  · simp [hsig, hk.1, show k - 1 < 64 by omega]
  · by_cases h1 : 1 ≤ sig
    · have hne : sig - 1 ≠ k - 1 := by omega
      simp [h1, hne]
    · simp [h1]

theorem isMember_sigdelset64 {k : ℕ} (hk : 1 ≤ k ∧ k ≤ 64) (set : SigSet64) (sig : ℕ) :
    isMember (changeIgnoringResult sigdelset64 set k) sig =
      if sig = k then false else isMember set sig := by
  simp only [changeIgnoringResult, sigdelset64, sigChangeSet_of_le hk, isMember,
    getLsbD_and_not_one_shiftLeft set (show k - 1 < 64 by omega)]
  split_ifs with hsig
  · simp [hsig]
  · by_cases h1 : 1 ≤ sig
    · have hne : sig - 1 ≠ k - 1 := by omega
      simp [h1, hne]
    · simp [h1]

theorem isMember_block {k : ℕ} (hk : 1 ≤ k ∧ k ≤ 64) (how : How) (set : SigSet64) (sig : ℕ) :
    isMember (changeIgnoringResult (blockOps how).1 set k) sig =
      if sig = k then decide (how ≠ .unblock) else isMember set sig := by
  cases how with
  | block | setmask => simpa [blockOps] using isMember_sigaddset64 hk set sig
  | unblock => simpa [blockOps] using isMember_sigdelset64 hk set sig

theorem isMember_unblock {k : ℕ} (hk : 1 ≤ k ∧ k ≤ 64) (how : How) (set : SigSet64) (sig : ℕ) :
    isMember (changeIgnoringResult (blockOps how).2 set k) sig =
      if sig = k then decide (how = .unblock) else isMember set sig := by
  cases how with
  | block | setmask => simpa [blockOps] using isMember_sigdelset64 hk set sig
  | unblock => simpa [blockOps] using isMember_sigaddset64 hk set sig

theorem isMember_foldl_unblock (how : How) (l : List ℕ) (hl : ∀ i ∈ l, sigRtMin + i ≤ 64)
    (set : SigSet64) (sig : ℕ) :
    isMember (l.foldl (fun set (i : ℕ) ↦ changeIgnoringResult (blockOps how).2 set (sigRtMin + i))
      set) sig = if ∃ i ∈ l, sig = sigRtMin + i then decide (how = .unblock) else isMember set sig := by
  induction l generalizing set with
  | nil => simp
  | cons i l ih =>
    rw [List.foldl_cons, ih (fun j hj ↦ hl j (List.mem_cons_of_mem i hj)), ← Nat.cast_add,
      isMember_unblock ⟨by simp only [sigRtMin]; omega, hl i List.mem_cons_self⟩]
    -- the later calls win, and the first only matters for its own signal
    by_cases hlater : ∃ j ∈ l, sig = sigRtMin + j
    · simp [hlater]
    · by_cases hsig : sig = sigRtMin + i
      · simp [hsig]
      · simp only [hlater, hsig, if_false, List.mem_cons, exists_eq_or_imp, false_or]

/-- **What the filter does to each signal.** The POSIX timer signal is in the result unless
`how` is `SIG_UNBLOCK`; the other eight reserved signals are in it exactly for `SIG_UNBLOCK`;
every other signal is as in the caller's set. -/
theorem isMember_filterReservedSignals (sigset : SigSet64) (how : How) (sig : ℕ) :
    isMember (filterReservedSignals sigset how) sig =
      if sig = 32 then decide (how ≠ .unblock)
      else if 33 ≤ sig ∧ sig ≤ 40 then decide (how = .unblock)
      else isMember sigset sig := by
  have hrange : ∀ i ∈ List.range' 1 (sigRtReserved - 1), sigRtMin + i ≤ 64 := by
    intro i hi
    simp only [List.mem_range', sigRtReserved, sigRtMin] at hi ⊢
    omega
  have hhit : (∃ i ∈ List.range' 1 (sigRtReserved - 1), sig = sigRtMin + i) ↔
      33 ≤ sig ∧ sig ≤ 40 := by
    simp only [List.mem_range', sigRtReserved, sigRtMin]
    constructor
    · rintro ⟨i, ⟨j, hj, rfl⟩, rfl⟩
      omega
    · rintro ⟨h₁, h₂⟩
      exact ⟨sig - 32, ⟨sig - 33, by omega, by omega⟩, by omega⟩
  rw [filterReservedSignals, isMember_foldl_unblock how _ hrange, Int.add_zero,
    isMember_block ⟨by decide, by decide⟩]
  -- the other eight, the timer signal, and the rest
  by_cases hres : 33 ≤ sig ∧ sig ≤ 40
  · rw [if_pos (hhit.2 hres), if_neg (by omega), if_pos hres]
  · rw [if_neg (mt hhit.1 hres)]
    by_cases h32 : sig = 32
    · simp [h32, sigRtMin]
    · rw [if_neg (by simp only [sigRtMin]; omega), if_neg h32, if_neg hres]

/-! ## The wrappers -/

/-- `sigprocmask64(how, new_set, …)`: `EINVAL` before any system call for a set with an unknown
`how`, else the `how` and the set it passes to `__rt_sigprocmask`. -/
def sigprocmask64 (how : ℤ) (newSet : Option SigSet64) : Except ℤ (ℤ × Option SigSet64) :=
  match newSet with
  | none => .ok (how, none)
  | some set =>
    match How.ofInt? how with
    | none => .error einval
    | some h => .ok (how, some (filterReservedSignals set h))

/-- `sigsuspend64(set)`: the mask it passes to `__rt_sigsuspend`, which the kernel installs for
the wait as `SIG_SETMASK` would. -/
def sigsuspend64 (set : Option SigSet64) : Option SigSet64 :=
  set.map (filterReservedSignals · .setmask)

/-- `sigtimedwait64(set, …)`: the wait set it passes to `__rt_sigtimedwait`. -/
def sigtimedwait64 (set : Option SigSet64) : Option SigSet64 :=
  set.map (filterReservedSignals · .setmask)

/-- `sigwaitinfo64(set, info)` is `sigtimedwait64(set, info, nullptr)`. -/
def sigwaitinfo64 (set : Option SigSet64) : Option SigSet64 := sigtimedwait64 set

/-- `sigwait64(set, &sig)` as the kernel answers its calls to `sigtimedwait64(set, …)` in turn:
it calls again after `EAGAIN` and `EINTR`, and on the first other reply returns `0` with the
signal stored, or the error. `none` while the replies given do not end the loop. -/
def sigwait64 : List (Except ℤ ℕ) → Option (ℤ × Option ℕ)
  | [] => none
  | .ok sig :: _ => some (0, some sig)
  | .error e :: replies => if e ≠ eagain ∧ e ≠ eintr then some (e, none) else sigwait64 replies

/-- Whether `rt_sigtimedwait` with wait set `waitSet` may return `sig` while the signals of
`pending` are pending. -/
def mayDequeue (waitSet pending : SigSet64) (sig : ℕ) : Bool :=
  isMember waitSet sig && isMember pending sig

/-- `SigSetConverter` on LP32: the `sigset64_t` a `sigset_t` is copied into, zero above signal
32. -/
def SigSetConverter.ptr (set : Option SigSet32) : Option SigSet64 := set.map (BitVec.setWidth 64)

/-- `sigprocmask` of LP32. -/
def sigprocmask (how : ℤ) (newSet : Option SigSet32) : Except ℤ (ℤ × Option SigSet64) :=
  sigprocmask64 how (SigSetConverter.ptr newSet)

/-- `sigsuspend` of LP32. -/
def sigsuspend (set : Option SigSet32) : Option SigSet64 := sigsuspend64 (SigSetConverter.ptr set)

/-- `sigtimedwait` of LP32. -/
def sigtimedwait (set : Option SigSet32) : Option SigSet64 :=
  sigtimedwait64 (SigSetConverter.ptr set)

@[simp]
theorem isMember_setWidth {w v : ℕ} (hwv : w ≤ v) (x : BitVec w) (sig : ℕ) :
    isMember (x.setWidth v) sig = isMember x sig := by
  simp only [isMember, BitVec.getLsbD_setWidth]
  by_cases hlt : sig - 1 < v
  · simp [hlt]
  -- above the wider width, the narrower set has no bit either
  · simp [hlt, BitVec.getLsbD_of_ge x (sig - 1) (by omega)]

@[simp]
theorem How.ofInt?_toInt (how : How) : How.ofInt? how.toInt = some how := by
  cases how <;> rfl

/-- **The wait set of `sigtimedwait64`**, which is also the temporary mask of `sigsuspend64`: the
caller's set with the POSIX timer signal added and the other eight reserved signals taken out. -/
theorem sigtimedwait64_waitSet (set : SigSet64) :
    ∃ waitSet, sigtimedwait64 (some set) = some waitSet ∧ sigwaitinfo64 (some set) = some waitSet ∧
      sigsuspend64 (some set) = some waitSet ∧
      ∀ sig, isMember waitSet sig =
        if sig = 32 then true else if 33 ≤ sig ∧ sig ≤ 40 then false else isMember set sig := by
  refine ⟨_, rfl, rfl, rfl, fun sig ↦ ?_⟩
  rw [isMember_filterReservedSignals]
  simp

theorem mem_of_sigwait64_eq_some {replies : List (Except ℤ ℕ)} {sig : ℕ}
    (h : sigwait64 replies = some (0, some sig)) : .ok sig ∈ replies := by
  induction replies with
  | nil => simp [sigwait64] at h
  | cons reply replies ih =>
    cases reply with
    | ok sig' =>
      simp only [sigwait64, Option.some.injEq, Prod.mk.injEq, true_and] at h
      rw [h]
      exact List.mem_cons_self
    | error e =>
      simp only [sigwait64] at h
      split_ifs at h
      -- a reply that ends the loop with an error stores no signal
      · simp at h
      · exact List.mem_cons_of_mem _ (ih h)

/-- **`sigtimedwait64` waits for the POSIX timer signal.** For any set without `__SIGRTMIN + 0`, the
wait set handed to the kernel holds it, so with that signal pending the kernel may return it to
`sigtimedwait64`, `sigwaitinfo64` and `sigwait64` although the caller did not ask for it. -/
theorem sigtimedwait64_may_return_unrequested (set : SigSet64) (hset : isMember set 32 = false) :
    ∃ waitSet pending sig, sigtimedwait64 (some set) = some waitSet ∧
      mayDequeue waitSet pending sig = true ∧ isMember set sig = false := by
  have hpending : isMember (1#64 <<< 31 : SigSet64) 32 = true := by decide
  refine ⟨filterReservedSignals set .setmask, 1#64 <<< 31, 32, rfl, ?_, hset⟩
  rw [mayDequeue, isMember_filterReservedSignals, hpending]
  simp

/-- The empty set. -/
theorem sigtimedwait64_may_return_unrequested_empty :
    ∃ waitSet pending sig, sigtimedwait64 (some 0) = some waitSet ∧
      mayDequeue waitSet pending sig = true ∧ isMember (0 : SigSet64) sig = false :=
  sigtimedwait64_may_return_unrequested 0 (by decide)

end Bionic.Signal
