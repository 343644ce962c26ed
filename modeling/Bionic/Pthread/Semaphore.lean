import Mathlib.Data.BitVec
import Bionic.Errno
import Bionic.Lib.Interleaving

/-!
# Semaphores

A semaphore (semaphore.cpp) is one 32-bit word: a 31-bit signed value above a `shared` flag in
bit 0. The value is the number of tokens, or `-1` for "zero, with waiters". `sem_post` raises it
by `__sem_inc`, a compare-exchange loop that stops at `SEM_VALUE_MAX` and takes `-1` straight to
`1` (and then wakes the waiters); `sem_wait` lowers it by `__sem_dec`, which takes `0` to `-1`
and then sleeps on the futex; `sem_trywait` and the first try of `sem_timedwait` use
`__sem_trydec`, which only takes a token that is there.

The model runs threads that call `sem_post`, `sem_wait`, `sem_trywait` and `sem_timedwait`,
interleaved at single atomic steps (`Bionic.Lib.Interleaving`): a load, or one round of a
compare-exchange loop, whose check of the loaded value is local and goes with it. A weak
compare-exchange that fails spuriously loads the value the thread holds already and is a turn
that changes nothing. A futex wait returns at any moment with any result (a wake, `EAGAIN`,
`EINTR` or `ETIMEDOUT`), so the runs of the model include the kernel's; the futex wake and the
loads of `SEM_GET_SHARED`, which only pick the futex's flavour, are steps that change no word. A
ghost log records what every call returned.

From `sem_init(sem, pshared, v)`, every state of every run satisfies `SemSystem.Inv`
(`SemSystem.inv_run`): the value stays in `[-1, SEM_VALUE_MAX]`, the shared bit is the one
`sem_init` set, and the tokens balance: `max(value, 0)` and the waits that returned 0 make up
`v`, the posts that returned 0 and the posts past their exchange that are still at their futex
wake. `semaphore_token_balance` states this, with the one way a `sem_post` fails: it loaded
`SEM_VALUE_MAX`, returns `EOVERFLOW` and writes nothing (`semStep_post_error`). A post at its
wake has added its token to the word before it returns, so the balance counted over returned
calls alone fails in such a state (`semPost_at_wake_unbalanced`).
-/

set_option autoImplicit false
set_option relaxedAutoImplicit false

namespace Bionic.Pthread.Semaphore

open Bionic.Lib.Interleaving

/-! ### The count word -/

/-- `SEM_VALUE_MAX`. -/
def semValueMax : ℤ := 0x3fffffff

def semcountSharedMask : BitVec 32 := 0x00000001

def semcountValueMask : BitVec 32 := 0xfffffffe

def semcountValueShift : ℕ := 1

/-- `SEMCOUNT_FROM_VALUE(val)`. -/
def semcountFromValue (val : BitVec 32) : BitVec 32 :=
  (val <<< semcountValueShift) &&& semcountValueMask

/-- `SEMCOUNT_TO_VALUE(sval)`: the word read as an `int`, shifted right arithmetically. -/
def semcountToValue (sval : BitVec 32) : ℤ := (sval.sshiftRight semcountValueShift).toInt

/-- `SEMCOUNT_ONE`. -/
def semcountOne : BitVec 32 := semcountFromValue 1

/-- `SEMCOUNT_DECREMENT(sval)`. -/
def semcountDecrement (sval : BitVec 32) : BitVec 32 :=
  (sval - (1 <<< semcountValueShift)) &&& semcountValueMask

/-- `SEMCOUNT_INCREMENT(sval)`. -/
def semcountIncrement (sval : BitVec 32) : BitVec 32 :=
  (sval + (1 <<< semcountValueShift)) &&& semcountValueMask

/-- `sem_init(sem, pshared, value)`: the initial word, or `EINVAL`. -/
def semInit (pshared : ℤ) (value : BitVec 32) : Except ℤ (BitVec 32) :=
  if semValueMax < value.toNat then .error einval
  else
    let count := semcountFromValue value
    .ok (if pshared ≠ 0 then count ||| semcountSharedMask else count)

/-! ### Reading the word

A word whose value bits hold `k` reads back `k` through the arithmetic shift. Decrementing or
incrementing the value bits and ORing back the shared bit is subtracting or adding 2 to the word,
and that moves the value by one as long as it does not cross the sign bit. -/

theorem semcountToValue_eq_toInt_div (x : BitVec 32) : semcountToValue x = x.toInt / 2 := by
  simp [semcountToValue, semcountValueShift, BitVec.toInt_sshiftRight, Int.shiftRight_eq_div_pow]

theorem semcountValueMask_eq_not : semcountValueMask = ~~~1 := rfl

theorem valueBits_or_sharedBit (x : BitVec 32) :
    x &&& semcountValueMask ||| x &&& semcountSharedMask = x := by
  rw [semcountValueMask_eq_not, semcountSharedMask]
  ext i hi
  simp only [BitVec.getElem_or, BitVec.getElem_and, BitVec.getElem_not]
  cases x[i] <;> simp

theorem toNat_sharedBit (x : BitVec 32) : (x &&& semcountSharedMask).toNat = x.toNat % 2 := by
  simp [semcountSharedMask, BitVec.toNat_and, Nat.and_one_is_mod]

theorem sharedBit_eq_zero_or_one (x : BitVec 32) :
    x &&& semcountSharedMask = 0 ∨ x &&& semcountSharedMask = 1 := by
  have hbit := toNat_sharedBit x
  rcases Nat.mod_two_eq_zero_or_one x.toNat with h | h
  · left
    apply BitVec.eq_of_toNat_eq
    rw [hbit, h]
    rfl
  · right
    apply BitVec.eq_of_toNat_eq
    rw [hbit, h]
    rfl

theorem toNat_two : (2 : BitVec 32).toNat = 2 := rfl

theorem sharedBit_sub_two (x : BitVec 32) :
    (x - 2) &&& semcountSharedMask = x &&& semcountSharedMask := by
  apply BitVec.eq_of_toNat_eq
  rw [toNat_sharedBit, toNat_sharedBit, BitVec.toNat_sub, toNat_two]
  omega

theorem sharedBit_add_two (x : BitVec 32) :
    (x + 2) &&& semcountSharedMask = x &&& semcountSharedMask := by
  apply BitVec.eq_of_toNat_eq
  rw [toNat_sharedBit, toNat_sharedBit, BitVec.toNat_add, toNat_two]
  omega

theorem semcountDecrement_or_sharedBit (x : BitVec 32) :
    semcountDecrement x ||| x &&& semcountSharedMask = x - 2 := by
  rw [← sharedBit_sub_two]
  exact valueBits_or_sharedBit (x - 2)

theorem semcountIncrement_or_sharedBit (x : BitVec 32) :
    semcountIncrement x ||| x &&& semcountSharedMask = x + 2 := by
  rw [← sharedBit_add_two]
  exact valueBits_or_sharedBit (x + 2)

theorem semcountToValue_sub_two {x : BitVec 32} (hx : 0 ≤ semcountToValue x) :
    semcountToValue (x - 2) = semcountToValue x - 1 := by
  rw [semcountToValue_eq_toInt_div] at hx ⊢
  rw [semcountToValue_eq_toInt_div]
  have hlt := x.isLt
  rw [BitVec.toInt_eq_toNat_cond, BitVec.toNat_sub, toNat_two] at *
  rw [BitVec.toInt_eq_toNat_cond x]
  split_ifs at * <;> omega

theorem semcountToValue_add_two {x : BitVec 32} (hx : 0 ≤ semcountToValue x)
    (hmax : semcountToValue x < semValueMax) : semcountToValue (x + 2) = semcountToValue x + 1 := by
  rw [semcountToValue_eq_toInt_div] at hx hmax ⊢
  rw [semcountToValue_eq_toInt_div]
  have hlt := x.isLt
  rw [BitVec.toInt_eq_toNat_cond, BitVec.toNat_add, toNat_two] at *
  rw [BitVec.toInt_eq_toNat_cond x]
  simp only [semValueMax] at *
  split_ifs at * <;> omega

theorem semcountOne_or {b : BitVec 32} (hb : b = 0 ∨ b = 1) :
    semcountToValue (semcountOne ||| b) = 1 ∧ (semcountOne ||| b) &&& semcountSharedMask = b := by
  rcases hb with rfl | rfl <;> decide

/-- The value bits of `SEMCOUNT_FROM_VALUE(val)` are those of `val`, shifted: the mask only
clears bit 0, which the shift left empty. -/
theorem semcountFromValue_eq_shiftLeft (val : BitVec 32) :
    semcountFromValue val = val <<< 1 := by
  rw [semcountFromValue, semcountValueShift, semcountValueMask_eq_not]
  ext i hi
  simp only [BitVec.getElem_and, BitVec.getElem_shiftLeft, BitVec.getElem_not]
  rcases i with _ | i <;> simp

theorem shiftLeft_one_or_eq_add (val : BitVec 32) {b : BitVec 32} (hb : b = 0 ∨ b = 1) :
    val <<< 1 ||| b = val <<< 1 + b := by
  rcases hb with rfl | rfl
  · simp
  · refine (BitVec.add_eq_or_of_and_eq_zero _ _ ?_).symm
    ext i hi
    simp only [BitVec.getElem_and, BitVec.getElem_shiftLeft]
    rcases i with _ | i <;> simp

theorem semcountToValue_of_toNat_lt {x : BitVec 32} (hx : x.toNat < 2 ^ 31) :
    semcountToValue x = (x.toNat / 2 : ℕ) := by
  rw [semcountToValue_eq_toInt_div, BitVec.toInt_eq_toNat_cond, if_pos (by omega)]
  omega

theorem semcountToValue_shiftLeft_one_add {val b : BitVec 32}
    (hval : (val.toNat : ℤ) ≤ semValueMax) (hb : b = 0 ∨ b = 1) :
    semcountToValue (val <<< 1 + b) = val.toNat := by
  have hbit : b.toNat ≤ 1 := by
    rcases hb with rfl | rfl <;> decide
  simp only [semValueMax] at hval
  have hword : (val <<< 1 + b).toNat = 2 * val.toNat + b.toNat := by
    rw [BitVec.toNat_add, BitVec.toNat_shiftLeft, Nat.shiftLeft_eq]
    omega
  rw [semcountToValue_of_toNat_lt (by omega), hword]
  omega

theorem semInit_eq_ok {pshared : ℤ} {val word : BitVec 32} (h : semInit pshared val = .ok word) :
    (val.toNat : ℤ) ≤ semValueMax ∧ semcountToValue word = val.toNat := by
  unfold semInit at h
  split_ifs at h with hmax hshared
  · obtain rfl : _ = word := Except.ok.inj h
    have hval : (val.toNat : ℤ) ≤ semValueMax := not_lt.mp hmax
    rw [semcountFromValue_eq_shiftLeft, semcountSharedMask, shiftLeft_one_or_eq_add val (.inr rfl)]
    exact ⟨hval, semcountToValue_shiftLeft_one_add hval (.inr rfl)⟩
  · obtain rfl : _ = word := Except.ok.inj h
    have hval : (val.toNat : ℤ) ≤ semValueMax := not_lt.mp hmax
    have hzero : semcountToValue (val <<< 1) = val.toNat := by
      simpa using semcountToValue_shiftLeft_one_add hval (b := 0) (.inl rfl)
    rw [semcountFromValue_eq_shiftLeft]
    exact ⟨hval, hzero⟩

/-! ### Threads calling the semaphore -/

/-- `struct timespec`. -/
structure Timespec where
  tvSec : ℤ
  tvNsec : ℤ
  deriving DecidableEq, Repr

/-- `NS_PER_S`. -/
def nsPerS : ℤ := 1000000000

/-- `check_timespec(ts, false)`. -/
def checkTimespec (ts : Timespec) : ℤ :=
  if ts.tvNsec < 0 ∨ nsPerS ≤ ts.tvNsec then einval
  else if ts.tvSec < 0 then etimedout
  else 0

/-- The calls a thread makes; `sem_timedwait_monotonic_np` is `sem_timedwait` on another clock. -/
inductive SemCall where
  | post
  | wait
  | trywait
  | timedwait (absTimeout : Timespec)
  deriving DecidableEq, Repr

def SemCall.isPost : SemCall → Bool
  | post => true
  | _ => false

/-- The caller of `__sem_trydec`: `sem_trywait`, or `__sem_timedwait` with its timeout. -/
def trydecCaller : Option Timespec → SemCall
  | none => .trywait
  | some absTimeout => .timedwait absTimeout

/-- The caller of `__sem_dec`: `sem_wait`, or the loop of `__sem_timedwait`. -/
def decCaller : Option Timespec → SemCall
  | none => .wait
  | some absTimeout => .timedwait absTimeout

/-- Where a thread is, with its locals. In the waits, `absTimeout` is `none` for `sem_wait` and
`sem_trywait` and the timeout of `sem_timedwait`. -/
inductive SemPc where
  /-- Between two calls. -/
  | idle
  /-- `__sem_inc`'s first load. -/
  | incLoad
  /-- `__sem_inc`'s loop, with `old_value` and `shared`. -/
  | incLoop (old shared : BitVec 32)
  /-- `sem_post` after raising a negative value: `__futex_wake_ex`, then return 0. -/
  | postWake
  /-- `__sem_trydec`'s first load. -/
  | trydecLoad (absTimeout : Option Timespec)
  /-- `__sem_trydec`'s loop. -/
  | trydecLoop (absTimeout : Option Timespec) (old shared : BitVec 32)
  /-- `__sem_dec`'s first load. -/
  | decLoad (absTimeout : Option Timespec)
  /-- `__sem_dec`'s loop. -/
  | decLoop (absTimeout : Option Timespec) (old shared : BitVec 32)
  /-- `__futex_wait_ex`. -/
  | futexWait (absTimeout : Option Timespec)
  deriving DecidableEq, Repr

/-- Where a call starts. -/
def startPc : SemCall → SemPc
  | .post => .incLoad
  | .wait => .decLoad none
  | .trywait => .trydecLoad none
  | .timedwait absTimeout => .trydecLoad (some absTimeout)

/-- A call that returned: what it returned, and `errno` if it set it. -/
structure SemReturn (τ : Type) where
  thread : τ
  call : SemCall
  result : ℤ
  errno : Option ℤ
  deriving DecidableEq, Repr

/-- The word `sem->count`, the threads, and the ghost log of returned calls. -/
structure SemSystem (τ : Type) where
  count : BitVec 32
  pc : τ → SemPc
  returns : List (SemReturn τ)

/-- What can happen next: an idle thread calls, a thread takes its next atomic step, or a
futex wait returns `result` (`0`, or an error negated, as the kernel gives it). -/
inductive SemEvent (τ : Type) where
  | call (t : τ) (call : SemCall)
  | step (t : τ)
  | futexReturn (t : τ) (result : ℤ)
  deriving DecidableEq, Repr

variable {τ : Type} [DecidableEq τ]

namespace SemSystem

/-- No thread inside a call, after `sem_init` wrote `count`. -/
def init (count : BitVec 32) : SemSystem τ := ⟨count, fun _ ↦ .idle, []⟩

/-- Thread `t` moves to `p`. -/
def setPc (s : SemSystem τ) (t : τ) (p : SemPc) : SemSystem τ :=
  { s with pc := Function.update s.pc t p }

/-- Thread `t` returns `result` from `call`, with `errno` if it set it. -/
def finish (s : SemSystem τ) (t : τ) (call : SemCall) (result : ℤ) (errno : Option ℤ) :
    SemSystem τ :=
  { s with
    pc := Function.update s.pc t .idle
    returns := s.returns ++ [⟨t, call, result, errno⟩] }

end SemSystem

/-- `__sem_trydec` found no token: `sem_trywait` fails with `EAGAIN`; `__sem_timedwait` checks
the timeout and goes on to its loop. -/
def trydecFailed (s : SemSystem τ) (t : τ) : Option Timespec → SemSystem τ
  | none => s.finish t .trywait (-1) (some eagain)
  | some absTimeout =>
    let result := checkTimespec absTimeout
    if result ≠ 0 then s.finish t (.timedwait absTimeout) (-1) (some result)
    else s.setPc t (.decLoad (some absTimeout))

/-- `__futex_wait_ex` returned `result`: `sem_wait` fails on `EINTR` for apps that target API
level 24 or later, `__sem_timedwait` on `ETIMEDOUT` and `EINTR`; otherwise the loop goes round. -/
def futexWaitReturned (targetSdkVersion : ℕ) (s : SemSystem τ) (t : τ) (result : ℤ) :
    Option Timespec → SemSystem τ
  | none =>
    if 24 ≤ targetSdkVersion ∧ result = -eintr then s.finish t .wait (-1) (some eintr)
    else s.setPc t (.decLoad none)
  | some absTimeout =>
    if result = -etimedout ∨ result = -eintr then
      s.finish t (.timedwait absTimeout) (-1) (some (-result))
    else s.setPc t (.decLoad (some absTimeout))

/-- The next atomic step of thread `t`; a thread between calls or in a futex wait has none. -/
def threadStep (t : τ) (s : SemSystem τ) : Option (SemSystem τ) :=
  match s.pc t with
  | .idle | .futexWait _ => none
  | .incLoad => some (s.setPc t (.incLoop s.count (s.count &&& semcountSharedMask)))
  | .incLoop old shared =>
    if semcountToValue old = semValueMax then some (s.finish t .post (-1) (some eoverflow))
    else
      let newValue :=
        if semcountToValue old < 0 then semcountOne ||| shared
        else semcountIncrement old ||| shared
      if s.count = old then
        let s := { s with count := newValue }
        -- `__sem_inc` returns `old_value`; a negative one means waiters to wake
        if semcountToValue old < 0 then some (s.setPc t .postWake)
        else some (s.finish t .post 0 none)
      else some (s.setPc t (.incLoop s.count shared))
  | .postWake => some (s.finish t .post 0 none)
  | .trydecLoad absTimeout =>
    some (s.setPc t (.trydecLoop absTimeout s.count (s.count &&& semcountSharedMask)))
  | .trydecLoop absTimeout old shared =>
    if semcountToValue old ≤ 0 then some (trydecFailed s t absTimeout)
    else if s.count = old then
      some ({ s with count := semcountDecrement old ||| shared }.finish t
        (trydecCaller absTimeout) 0 none)
    else some (s.setPc t (.trydecLoop absTimeout s.count shared))
  | .decLoad absTimeout =>
    some (s.setPc t (.decLoop absTimeout s.count (s.count &&& semcountSharedMask)))
  | .decLoop absTimeout old shared =>
    if semcountToValue old < 0 then some (s.setPc t (.futexWait absTimeout))
    else if s.count = old then
      let s := { s with count := semcountDecrement old ||| shared }
      -- a value of 0 became `-1`: the thread goes to sleep
      if 0 < semcountToValue old then some (s.finish t (decCaller absTimeout) 0 none)
      else some (s.setPc t (.futexWait absTimeout))
    else some (s.setPc t (.decLoop absTimeout s.count shared))

/-- One event, for apps that target API level `targetSdkVersion`. -/
def semStep (targetSdkVersion : ℕ) : SemEvent τ → SemSystem τ → Option (SemSystem τ)
  | .call t call, s => if s.pc t = .idle then some (s.setPc t (startPc call)) else none
  | .step t, s => threadStep t s
  | .futexReturn t result, s =>
    match s.pc t with
    | .futexWait absTimeout => some (futexWaitReturned targetSdkVersion s t result absTimeout)
    | _ => none

/-! ### The ghost counts -/

/-- The `sem_post` calls that returned 0. -/
def postsReturnedZero (rs : List (SemReturn τ)) : ℕ :=
  rs.countP fun r ↦ r.call.isPost && r.result == 0

/-- The `sem_wait`, `sem_trywait` and `sem_timedwait` calls that returned 0. -/
def waitsReturnedZero (rs : List (SemReturn τ)) : ℕ :=
  rs.countP fun r ↦ !r.call.isPost && r.result == 0

/-- At `sem_post`'s futex wake. -/
def SemPc.isPostWake : SemPc → Bool
  | postWake => true
  | _ => false

/-- The local `shared` of a thread in a loop is `sharedBit`. -/
def SemPc.SharedIs (sharedBit : BitVec 32) : SemPc → Prop
  | incLoop _ shared | trydecLoop _ _ shared | decLoop _ _ shared => shared = sharedBit
  | _ => True

/-- The `sem_post` calls at their futex wake: past their exchange, and not returned. -/
def postsAtWake [Fintype τ] (s : SemSystem τ) : ℕ := count SemPc.isPostWake s.pc

namespace SemSystem

@[simp] theorem setPc_count (s : SemSystem τ) (t : τ) (p : SemPc) : (s.setPc t p).count = s.count :=
  rfl

@[simp] theorem setPc_returns (s : SemSystem τ) (t : τ) (p : SemPc) :
    (s.setPc t p).returns = s.returns := rfl

@[simp] theorem setPc_pc (s : SemSystem τ) (t : τ) (p : SemPc) :
    (s.setPc t p).pc = Function.update s.pc t p := rfl

@[simp] theorem finish_count (s : SemSystem τ) (t : τ) (call : SemCall) (result : ℤ)
    (errno : Option ℤ) : (s.finish t call result errno).count = s.count := rfl

@[simp] theorem finish_returns (s : SemSystem τ) (t : τ) (call : SemCall) (result : ℤ)
    (errno : Option ℤ) :
    (s.finish t call result errno).returns = s.returns ++ [⟨t, call, result, errno⟩] := rfl

@[simp] theorem finish_pc (s : SemSystem τ) (t : τ) (call : SemCall) (result : ℤ)
    (errno : Option ℤ) : (s.finish t call result errno).pc = Function.update s.pc t .idle := rfl

end SemSystem

omit [DecidableEq τ] in
@[simp] theorem postsReturnedZero_append_singleton (rs : List (SemReturn τ)) (r : SemReturn τ) :
    postsReturnedZero (rs ++ [r]) =
      postsReturnedZero rs + if r.call.isPost && r.result == 0 then 1 else 0 := by
  simp [postsReturnedZero, List.countP_append]

omit [DecidableEq τ] in
@[simp] theorem waitsReturnedZero_append_singleton (rs : List (SemReturn τ)) (r : SemReturn τ) :
    waitsReturnedZero (rs ++ [r]) =
      waitsReturnedZero rs + if !r.call.isPost && r.result == 0 then 1 else 0 := by
  simp [waitsReturnedZero, List.countP_append]

/-! ### What one step can do -/

/-- What one step of thread `t` does to `s` (`semStep_effect`). -/
inductive Effect (s : SemSystem τ) (t : τ) : SemSystem τ → Prop
  /-- `t` moves on without writing the word or returning; a local `shared` it loads or keeps is
  the word's shared bit or the one it had. -/
  | move (p : SemPc) (hfrom : (s.pc t).isPostWake = false) (hto : p.isPostWake = false)
      (hshared : ∀ sharedBit, s.count &&& semcountSharedMask = sharedBit →
        (s.pc t).SharedIs sharedBit → p.SharedIs sharedBit) :
      Effect s t (s.setPc t p)
  /-- `t` returns `-1` without writing the word; a `sem_post` does so only on `EOVERFLOW`, after
  loading `SEM_VALUE_MAX`. -/
  | fail (call : SemCall) (errno : Option ℤ) (hfrom : (s.pc t).isPostWake = false)
      (hpost : call = .post → errno = some eoverflow ∧
        ∃ old shared, s.pc t = .incLoop old shared ∧ semcountToValue old = semValueMax) :
      Effect s t (s.finish t call (-1) errno)
  /-- `sem_post` returns 0 after its futex wake. -/
  | wake (hpc : s.pc t = .postWake) : Effect s t (s.finish t .post 0 none)
  /-- `__sem_inc` takes a negative value to 1, and `sem_post` goes on to its futex wake. -/
  | incToOne (shared : BitVec 32) (hfrom : (s.pc t).isPostWake = false)
      (hshared : ∀ sharedBit, (s.pc t).SharedIs sharedBit → shared = sharedBit)
      (hneg : semcountToValue s.count < 0) :
      Effect s t ({ s with count := semcountOne ||| shared }.setPc t .postWake)
  /-- `__sem_inc` raises a value below `SEM_VALUE_MAX`, and `sem_post` returns 0. -/
  | inc (shared : BitVec 32) (hfrom : (s.pc t).isPostWake = false)
      (hshared : ∀ sharedBit, (s.pc t).SharedIs sharedBit → shared = sharedBit)
      (hnonneg : 0 ≤ semcountToValue s.count) (hmax : semcountToValue s.count ≠ semValueMax) :
      Effect s t ({ s with count := semcountIncrement s.count ||| shared }.finish t .post 0 none)
  /-- `__sem_dec` or `__sem_trydec` takes a token, and the wait returns 0. -/
  | take (call : SemCall) (shared : BitVec 32) (hcall : call.isPost = false)
      (hfrom : (s.pc t).isPostWake = false)
      (hshared : ∀ sharedBit, (s.pc t).SharedIs sharedBit → shared = sharedBit)
      (hpos : 0 < semcountToValue s.count) :
      Effect s t ({ s with count := semcountDecrement s.count ||| shared }.finish t call 0 none)
  /-- `__sem_dec` takes a value of 0 to `-1`, and the thread goes to its futex wait. -/
  | decToMinusOne (absTimeout : Option Timespec) (shared : BitVec 32)
      (hfrom : (s.pc t).isPostWake = false)
      (hshared : ∀ sharedBit, (s.pc t).SharedIs sharedBit → shared = sharedBit)
      (hzero : semcountToValue s.count = 0) :
      Effect s t ({ s with count := semcountDecrement s.count ||| shared }.setPc t
        (.futexWait absTimeout))

section Effects

variable {t : τ} {s s' : SemSystem τ}

theorem trydecFailed_effect (hfrom : (s.pc t).isPostWake = false) (absTimeout : Option Timespec) :
    Effect s t (trydecFailed s t absTimeout) := by
  cases absTimeout with
  | none => exact .fail _ _ hfrom nofun
  | some absTimeout =>
    dsimp only [trydecFailed]
    split_ifs
    · exact .fail _ _ hfrom nofun
    · exact .move _ hfrom rfl fun _ _ _ ↦ trivial

theorem futexWaitReturned_effect (targetSdkVersion : ℕ) (result : ℤ)
    (hfrom : (s.pc t).isPostWake = false) (absTimeout : Option Timespec) :
    Effect s t (futexWaitReturned targetSdkVersion s t result absTimeout) := by
  cases absTimeout with
  | none =>
    dsimp only [futexWaitReturned]
    split_ifs
    · exact .fail _ _ hfrom nofun
    · exact .move _ hfrom rfl fun _ _ _ ↦ trivial
  | some absTimeout =>
    dsimp only [futexWaitReturned]
    split_ifs
    · exact .fail _ _ hfrom nofun
    · exact .move _ hfrom rfl fun _ _ _ ↦ trivial

theorem threadStep_effect (h : threadStep t s = some s') : Effect s t s' := by
  unfold threadStep at h
  cases hpc : s.pc t with
  | idle => simp [hpc] at h
  | futexWait absTimeout => simp [hpc] at h
  | postWake =>
    simp only [hpc, Option.some.injEq] at h
    subst h
    exact .wake hpc
  | incLoad =>
    simp only [hpc, Option.some.injEq] at h
    subst h
    exact .move _ (by rw [hpc]; rfl) rfl fun _ hbit _ ↦ hbit
  | trydecLoad absTimeout =>
    simp only [hpc, Option.some.injEq] at h
    subst h
    exact .move _ (by rw [hpc]; rfl) rfl fun _ hbit _ ↦ hbit
  | decLoad absTimeout =>
    simp only [hpc, Option.some.injEq] at h
    subst h
    exact .move _ (by rw [hpc]; rfl) rfl fun _ hbit _ ↦ hbit
  | incLoop old shared =>
    have hfrom : (s.pc t).isPostWake = false := by rw [hpc]; rfl
    have hkeep : ∀ sharedBit, (s.pc t).SharedIs sharedBit → shared = sharedBit := by
      intro sharedBit hbit
      rw [hpc] at hbit
      exact hbit
    simp only [hpc] at h
    split_ifs at h with hmax hcount hneg <;> simp only [Option.some.injEq] at h <;> subst h
    · exact .fail _ _ hfrom fun _ ↦ ⟨rfl, old, shared, hpc, hmax⟩
    · subst hcount
      exact .incToOne shared hfrom hkeep hneg
    · subst hcount
      exact .inc shared hfrom hkeep (not_lt.mp hneg) hmax
    · exact .move _ hfrom rfl fun _ _ hbit ↦ by rw [hpc] at hbit; exact hbit
  | trydecLoop absTimeout old shared =>
    have hfrom : (s.pc t).isPostWake = false := by rw [hpc]; rfl
    have hkeep : ∀ sharedBit, (s.pc t).SharedIs sharedBit → shared = sharedBit := by
      intro sharedBit hbit
      rw [hpc] at hbit
      exact hbit
    simp only [hpc] at h
    split_ifs at h with hle hcount <;> simp only [Option.some.injEq] at h <;> subst h
    · exact trydecFailed_effect hfrom absTimeout
    · subst hcount
      exact .take _ shared (by cases absTimeout <;> rfl) hfrom hkeep (not_le.mp hle)
    · exact .move _ hfrom rfl fun _ _ hbit ↦ by rw [hpc] at hbit; exact hbit
  | decLoop absTimeout old shared =>
    have hfrom : (s.pc t).isPostWake = false := by rw [hpc]; rfl
    have hkeep : ∀ sharedBit, (s.pc t).SharedIs sharedBit → shared = sharedBit := by
      intro sharedBit hbit
      rw [hpc] at hbit
      exact hbit
    simp only [hpc] at h
    split_ifs at h with hneg hcount hpos <;> simp only [Option.some.injEq] at h <;> subst h
    · exact .move _ hfrom rfl fun _ _ _ ↦ trivial
    · subst hcount
      exact .take _ shared (by cases absTimeout <;> rfl) hfrom hkeep hpos
    · subst hcount
      exact .decToMinusOne _ shared hfrom hkeep (by omega)
    · exact .move _ hfrom rfl fun _ _ hbit ↦ by rw [hpc] at hbit; exact hbit

theorem semStep_effect {targetSdkVersion : ℕ} {e : SemEvent τ}
    (h : semStep targetSdkVersion e s = some s') : ∃ t, Effect s t s' := by
  cases e with
  | call t call =>
    refine ⟨t, ?_⟩
    simp only [semStep] at h
    split_ifs at h with hidle
    simp only [Option.some.injEq] at h
    subst h
    exact .move _ (by rw [hidle]; rfl) (by cases call <;> rfl) fun _ _ _ ↦ by cases call <;> trivial
  | step t => exact ⟨t, threadStep_effect h⟩
  | futexReturn t result =>
    refine ⟨t, ?_⟩
    simp only [semStep] at h
    split at h
    · next absTimeout hpc =>
      simp only [Option.some.injEq] at h
      subst h
      exact futexWaitReturned_effect targetSdkVersion result (by rw [hpc]; rfl) absTimeout
    · cases h

end Effects

/-! ### The invariant -/

namespace SemSystem

variable [Fintype τ]

/-- What holds in every state of a run from a `sem_init` of `value` that set `sharedBit`: the
word keeps its shared bit and a value in `[-1, SEM_VALUE_MAX]`, every local `shared` is that bit,
and the tokens balance, a post at its wake counting as returned. -/
structure Inv (value : ℤ) (sharedBit : BitVec 32) (s : SemSystem τ) : Prop where
  shared : s.count &&& semcountSharedMask = sharedBit
  locals_shared : ∀ t, (s.pc t).SharedIs sharedBit
  value_ge : -1 ≤ semcountToValue s.count
  value_le : semcountToValue s.count ≤ semValueMax
  tokens : max (semcountToValue s.count) 0 + waitsReturnedZero s.returns =
    value + postsReturnedZero s.returns + postsAtWake s

variable {value : ℤ} {sharedBit : BitVec 32} {s s' : SemSystem τ} {t : τ}

omit [Fintype τ] in
theorem sharedIs_update (hall : ∀ u, (s.pc u).SharedIs sharedBit) {p : SemPc}
    (hp : p.SharedIs sharedBit) (u : τ) : (Function.update s.pc t p u).SharedIs sharedBit := by
  by_cases hu : u = t
  · subst hu
    simpa using hp
  · simpa [hu] using hall u

theorem postsAtWake_update_of_eq {p : SemPc} (hw : (s.pc t).isPostWake = p.isPostWake) :
    Lib.Interleaving.count SemPc.isPostWake (Function.update s.pc t p) =
      Lib.Interleaving.count SemPc.isPostWake s.pc :=
  count_update_of_eq _ _ hw

omit [DecidableEq τ] in
theorem Inv.shared_eq (hinv : s.Inv value sharedBit) {shared : BitVec 32}
    (hshared : ∀ sharedBit, (s.pc t).SharedIs sharedBit → shared = sharedBit) :
    shared = s.count &&& semcountSharedMask := by
  rw [hinv.shared]
  exact hshared sharedBit (hinv.locals_shared t)

omit [DecidableEq τ] in
/-- A decrement that puts back the thread's `shared` takes one token off the word. -/
theorem Inv.decrement_or_shared (hinv : s.Inv value sharedBit) {shared : BitVec 32}
    (hshared : ∀ sharedBit, (s.pc t).SharedIs sharedBit → shared = sharedBit) :
    semcountDecrement s.count ||| shared = s.count - 2 := by
  rw [hinv.shared_eq hshared, semcountDecrement_or_sharedBit]

/-- Every step keeps the invariant; the steps that write the word move the value by one token,
which the thread then returns or, for a post from a negative value, holds at its wake. -/
theorem Inv.effect (hinv : s.Inv value sharedBit) (he : Effect s t s') : s'.Inv value sharedBit := by
  have hbit := hinv.shared
  have htokens := hinv.tokens
  have hge := hinv.value_ge
  have hle := hinv.value_le
  cases he with
  | move p hfrom hto hshared =>
    have hwake := postsAtWake_update_of_eq (s := s) (t := t) (p := p) (by rw [hfrom, hto])
    refine ⟨hbit, sharedIs_update hinv.locals_shared (hshared _ hbit (hinv.locals_shared t)),
      hge, hle, ?_⟩
    simpa [postsAtWake, hwake] using htokens
  | fail call errno hfrom hpost =>
    have hwake := postsAtWake_update_of_eq (s := s) (t := t) (p := .idle) (by rw [hfrom]; rfl)
    refine ⟨hbit, sharedIs_update hinv.locals_shared trivial, hge, hle, ?_⟩
    simpa [postsAtWake, hwake] using htokens
  | wake hpc =>
    have hwake := count_update_of_true_false SemPc.isPostWake s.pc (a := t) (b := .idle)
      (by rw [hpc]; rfl) rfl
    refine ⟨hbit, sharedIs_update hinv.locals_shared trivial, hge, hle, ?_⟩
    simp only [finish_count, finish_returns, postsReturnedZero_append_singleton,
      waitsReturnedZero_append_singleton, postsAtWake, finish_pc]
    simp only [postsAtWake] at htokens
    simp [SemCall.isPost]
    omega
  | incToOne shared hfrom hshared hneg =>
    have hbits := sharedBit_eq_zero_or_one s.count
    rw [← hinv.shared_eq hshared] at hbits
    obtain ⟨hone, honebit⟩ := semcountOne_or hbits
    have hwake := count_update_of_false_true SemPc.isPostWake s.pc (a := t) (b := .postWake) hfrom rfl
    refine ⟨?_, sharedIs_update hinv.locals_shared trivial, ?_, ?_, ?_⟩
    · rw [setPc_count, honebit, hinv.shared_eq hshared, hbit]
    · rw [setPc_count, hone]
      omega
    · rw [setPc_count, hone]
      decide
    · simp only [setPc_count, setPc_returns, postsAtWake, setPc_pc, hone, hwake]
      simp only [postsAtWake] at htokens
      omega
  | inc shared hfrom hshared hnonneg hmax =>
    have hword : semcountIncrement s.count ||| shared = s.count + 2 := by
      rw [hinv.shared_eq hshared, semcountIncrement_or_sharedBit]
    have hvalue := semcountToValue_add_two hnonneg (lt_of_le_of_ne hle hmax)
    have hwake := postsAtWake_update_of_eq (s := s) (t := t) (p := .idle) (by rw [hfrom]; rfl)
    refine ⟨?_, sharedIs_update hinv.locals_shared trivial, ?_, ?_, ?_⟩
    · rw [finish_count, hword, sharedBit_add_two, hbit]
    · rw [finish_count, hword, hvalue]
      omega
    · rw [finish_count, hword, hvalue]
      simp only [semValueMax] at hle hmax ⊢
      omega
    · simp only [finish_count, finish_returns, postsReturnedZero_append_singleton,
        waitsReturnedZero_append_singleton, postsAtWake, finish_pc, hword, hvalue, hwake]
      simp only [postsAtWake] at htokens
      simp [SemCall.isPost]
      omega
  | take call shared hcall hfrom hshared hpos =>
    have hword := hinv.decrement_or_shared hshared
    have hvalue := semcountToValue_sub_two hpos.le
    have hwake := postsAtWake_update_of_eq (s := s) (t := t) (p := .idle) (by rw [hfrom]; rfl)
    refine ⟨?_, sharedIs_update hinv.locals_shared trivial, ?_, ?_, ?_⟩
    · rw [finish_count, hword, sharedBit_sub_two, hbit]
    · rw [finish_count, hword, hvalue]
      omega
    · rw [finish_count, hword, hvalue]
      omega
    · simp only [finish_count, finish_returns, postsReturnedZero_append_singleton,
        waitsReturnedZero_append_singleton, postsAtWake, finish_pc, hword, hvalue, hwake, hcall]
      simp only [postsAtWake] at htokens
      simp
      omega
  | decToMinusOne absTimeout shared hfrom hshared hzero =>
    have hword := hinv.decrement_or_shared hshared
    have hvalue := semcountToValue_sub_two hzero.ge
    have hwake := postsAtWake_update_of_eq (s := s) (t := t) (p := .futexWait absTimeout)
      (by rw [hfrom]; rfl)
    refine ⟨?_, sharedIs_update hinv.locals_shared trivial, ?_, ?_, ?_⟩
    · rw [setPc_count, hword, sharedBit_sub_two, hbit]
    · rw [setPc_count, hword, hvalue]
      omega
    · rw [setPc_count, hword, hvalue]
      omega
    · simp only [setPc_count, setPc_returns, postsAtWake, setPc_pc, hword, hvalue, hwake]
      simp only [postsAtWake] at htokens
      omega

theorem inv_stable (targetSdkVersion : ℕ) (value : ℤ) (sharedBit : BitVec 32) :
    Stable (semStep (τ := τ) targetSdkVersion) (Inv value sharedBit) := by
  intro e s s' hinv h
  obtain ⟨t, he⟩ := semStep_effect h
  exact hinv.effect he

omit [DecidableEq τ] in
theorem inv_init {pshared : ℤ} {val word : BitVec 32} (h : semInit pshared val = .ok word) :
    (init word : SemSystem τ).Inv val.toNat (word &&& semcountSharedMask) := by
  obtain ⟨hmax, hvalue⟩ := semInit_eq_ok h
  have hidle : postsAtWake (init word : SemSystem τ) = 0 :=
    (count_eq_zero_iff _ _).mpr fun _ ↦ rfl
  refine ⟨rfl, fun _ ↦ trivial, ?_, ?_, ?_⟩
  · rw [init, hvalue]
    omega
  · rw [init, hvalue]
    exact hmax
  · rw [hidle]
    simp [init, hvalue, postsReturnedZero, waitsReturnedZero]

theorem inv_run {pshared : ℤ} {val word : BitVec 32} (h : semInit pshared val = .ok word)
    (targetSdkVersion : ℕ) (schedule : List (SemEvent τ)) :
    (run (semStep targetSdkVersion) (init word) schedule).Inv val.toNat
      (word &&& semcountSharedMask) :=
  (inv_stable targetSdkVersion _ _).run (inv_init h) schedule

omit [DecidableEq τ] in
theorem Inv.tokens_of_postsAtWake_eq_zero (hinv : s.Inv value sharedBit) (hwake : postsAtWake s = 0) :
    max (semcountToValue s.count) 0 =
      value + postsReturnedZero s.returns - waitsReturnedZero s.returns := by
  have htokens := hinv.tokens
  rw [hwake] at htokens
  omega

end SemSystem

omit [DecidableEq τ] in
/-- A step that returns from a `sem_post` with an error: the post had loaded `SEM_VALUE_MAX`, it
sets `EOVERFLOW`, and the word is as it was. -/
theorem semStep_post_error [DecidableEq τ] {targetSdkVersion : ℕ} {e : SemEvent τ}
    {s s' : SemSystem τ} {r : SemReturn τ} (h : semStep targetSdkVersion e s = some s')
    (hr : s'.returns = s.returns ++ [r]) (hpost : r.call = .post) (hresult : r.result ≠ 0) :
    r.errno = some eoverflow ∧ s'.count = s.count ∧
      ∃ old shared, s.pc r.thread = .incLoop old shared ∧ semcountToValue old = semValueMax := by
  obtain ⟨t, he⟩ := semStep_effect h
  cases he with
  | fail call errno hfrom hpostError =>
    simp only [SemSystem.finish_returns, List.append_cancel_left_eq, List.cons.injEq,
      and_true] at hr
    subst hr
    obtain ⟨herrno, old, shared, hpc, hmax⟩ := hpostError hpost
    exact ⟨herrno, rfl, old, shared, hpc, hmax⟩
  | wake hpc =>
    simp only [SemSystem.finish_returns, List.append_cancel_left_eq, List.cons.injEq,
      and_true] at hr
    subst hr
    exact absurd rfl hresult
  | inc shared hfrom hshared hnonneg hmax =>
    simp only [SemSystem.finish_returns, List.append_cancel_left_eq, List.cons.injEq,
      and_true] at hr
    subst hr
    exact absurd rfl hresult
  | take call shared hcall hfrom hshared hpos =>
    simp only [SemSystem.finish_returns, List.append_cancel_left_eq, List.cons.injEq,
      and_true] at hr
    subst hr
    exact absurd rfl hresult
  | move p hfrom hto hshared => simp at hr
  | incToOne shared hfrom hshared hneg => simp at hr
  | decToMinusOne absTimeout shared hfrom hshared hzero => simp at hr

/-! ### The semaphore's contract -/

/-- What `sem_init` and the four calls promise in a state `s` of a run from a `sem_init` of
`value` that set `sharedBit`: the value in `[-1, SEM_VALUE_MAX]`, the shared bit kept, the tokens
balanced with the posts at their wake counted as returned, and a `sem_post` that loaded
`SEM_VALUE_MAX` failing with `EOVERFLOW` at its next step, writing nothing, and no other failing. -/
structure SemSpec [Fintype τ] (targetSdkVersion : ℕ) (value : ℤ) (sharedBit : BitVec 32)
    (s : SemSystem τ) : Prop where
  value_ge : -1 ≤ semcountToValue s.count
  value_le : semcountToValue s.count ≤ semValueMax
  shared : s.count &&& semcountSharedMask = sharedBit
  tokens : max (semcountToValue s.count) 0 =
    value + postsReturnedZero s.returns + postsAtWake s - waitsReturnedZero s.returns
  post_error : ∀ e s' r, semStep targetSdkVersion e s = some s' →
    s'.returns = s.returns ++ [r] → r.call = .post → r.result ≠ 0 →
      r.errno = some eoverflow ∧ s'.count = s.count ∧
        ∃ old shared, s.pc r.thread = .incLoop old shared ∧ semcountToValue old = semValueMax
  post_overflow : ∀ t old shared, s.pc t = .incLoop old shared → semcountToValue old = semValueMax →
    ∃ s', semStep targetSdkVersion (.step t) s = some s' ∧ s'.count = s.count ∧
      s'.returns = s.returns ++ [⟨t, .post, -1, some eoverflow⟩]

theorem semaphore_token_balance [Fintype τ] (targetSdkVersion : ℕ) {pshared : ℤ}
    {val word : BitVec 32} (hinit : semInit pshared val = .ok word) (schedule : List (SemEvent τ)) :
    SemSpec targetSdkVersion val.toNat (word &&& semcountSharedMask)
      (run (semStep targetSdkVersion) (SemSystem.init word) schedule) := by
  have hinv := SemSystem.inv_run hinit targetSdkVersion schedule
  refine ⟨hinv.value_ge, hinv.value_le, hinv.shared, ?_, ?_, ?_⟩
  · have htokens := hinv.tokens
    omega
  · intro e s' r h hr hpost hresult
    exact semStep_post_error h hr hpost hresult
  · intro t old shared hpc hmax
    refine ⟨SemSystem.finish _ t .post (-1) (some eoverflow), ?_, rfl, rfl⟩
    simp only [semStep, threadStep, hpc, if_pos hmax]

/-- Thread 0 calls `sem_wait` on a semaphore at 0 and takes it to `-1`; thread 1 then calls
`sem_post`, which takes it to 1 and stops before its futex wake. -/
def postAfterWait : List (SemEvent (Fin 2)) :=
  let waiter : Fin 2 := ⟨0, Nat.zero_lt_two⟩
  let poster : Fin 2 := ⟨1, Nat.one_lt_two⟩
  [.call waiter .wait, .step waiter, .step waiter, .call poster .post, .step poster, .step poster]

theorem semaphore_token_balance_postAfterWait :
    semInit 0 0 = .ok 0 ∧
      SemSpec 24 (0 : BitVec 32).toNat ((0 : BitVec 32) &&& semcountSharedMask)
        (run (semStep 24) (SemSystem.init 0) postAfterWait) := by
  have hinit : semInit 0 0 = .ok 0 := rfl
  exact ⟨hinit, semaphore_token_balance 24 hinit postAfterWait⟩

/-- After `postAfterWait`, the word holds a token that no returned call accounts for: counted
over the returned calls alone, the balance fails. -/
theorem semPost_at_wake_unbalanced :
    semInit 0 0 = .ok 0 ∧
      let s := run (semStep 24) (SemSystem.init 0 : SemSystem (Fin 2)) postAfterWait
      max (semcountToValue s.count) 0 ≠
        ((0 : BitVec 32).toNat : ℤ) + postsReturnedZero s.returns - waitsReturnedZero s.returns := by
  decide

end Bionic.Pthread.Semaphore
