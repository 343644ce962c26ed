import Bionic.Errno
import Mathlib.Logic.Function.Basic
import Mathlib.Algebra.BigOperators.Group.List.Basic
import Mathlib.Algebra.Order.Ring.Nat

/-!
# Thread-specific data

`pthread_key_create` hands out the slots of `key_map`, a table of `BIONIC_PTHREAD_KEY_COUNT`
pairs of a sequence number and a destructor. Bit 0 of a slot's `seq` says whether a key lives
there, and creating or deleting the key adds 1 to it. Each thread keeps, per slot, a
`pthread_key_data_t`: the value it stored with `pthread_setspecific`, and the slot's `seq` at
that time. A value is the key's only while the two sequence numbers agree, so a key deleted and
created again does not see the values stored under the old one. `pthread_key_clean_all` runs at
thread exit: it clears each value that has a destructor and calls the destructor with it, in
rounds, since a destructor may itself store values, or create and delete keys.

Every call of a key function is one atomic step, so each compare-exchange succeeds; `seq` is a
`uintptr_t` of `w` bits. A destructor is known by what it does: `dtor d v` lists the key
functions destructor `d` calls, in the exiting thread, when it is called with `v`. The POSIX
model (`PosixKeys`, `PosixStep`) is a set of live keys with their destructors and, per thread, a
value under each live key; creating a key gives it the null value in every thread, and a thread's
exit runs rounds of destructor calls over its values, at most `PTHREAD_DESTRUCTOR_ITERATIONS` of
them. `KeySystem.toPosix` reads it off the implementation. When no slot is created
`2 ^ (w - 1)` times or more, by calls or by destructors, so that no `seq` wraps, every trace of
calls and results of the implementation is a trace of the POSIX model (`keyRun_refines_posix`).
Memory orders are not modelled.
-/

set_option autoImplicit false
set_option relaxedAutoImplicit false

namespace Bionic.Pthread

/-- `BIONIC_PTHREAD_KEY_COUNT`: `BIONIC_PTHREAD_KEY_RESERVED_COUNT + PTHREAD_KEYS_MAX`. -/
def bionicPthreadKeyCount : ℕ := 2 + 128

/-- `PTHREAD_DESTRUCTOR_ITERATIONS`. -/
def pthreadDestructorIterations : ℕ := 4

/-- `KEY_VALID_FLAG`: `1 << 31` as an `int`. -/
def keyValidFlag : ℤ := -2 ^ 31

/-- `pthread_key_t`, an `int`. -/
structure PthreadKey where
  val : ℤ
  lo : -2 ^ 31 ≤ val
  hi : val < 2 ^ 31
  deriving DecidableEq

/-- The conversion of an integer to `pthread_key_t`: its low 32 bits, read as an `int`. -/
def PthreadKey.ofInt (k : ℤ) : PthreadKey :=
  ⟨(k + 2 ^ 31) % 2 ^ 32 - 2 ^ 31, by omega, by omega⟩

/-- `SEQ_INCREMENT_STEP`. -/
def seqIncrementStep : ℕ := 1

/-- `SeqOfKeyInUse`: bit 0 of `seq`. -/
def seqOfKeyInUse (seq : ℕ) : Bool := seq % 2 = 1

/-- `KeyInValidRange`: `key < (KEY_VALID_FLAG | BIONIC_PTHREAD_KEY_COUNT)`, where the count has
no bit in common with the flag, so the `|` adds it. -/
def keyInValidRange (key : PthreadKey) : Bool := key.val < keyValidFlag + bionicPthreadKeyCount

/-- `key &= ~KEY_VALID_FLAG`: bit 31 of the `int` cleared. -/
def keyIndex (key : PthreadKey) : ℕ := (key.val % 2 ^ 31).toNat

/-- `pthread_key_internal_t`; a destructor is its address, 0 for `nullptr`. -/
structure PthreadKeyInternal where
  seq : ℕ
  keyDestructor : ℕ
  deriving DecidableEq, Repr

/-- `pthread_key_data_t`; a value is an address, 0 for `nullptr`. -/
structure PthreadKeyData where
  seq : ℕ
  data : ℕ
  deriving DecidableEq, Repr

/-- `key_map` and the `key_data` of each thread, both indexed by slot. -/
structure KeySystem (τ : Type) where
  keyMap : ℕ → PthreadKeyInternal
  keyData : τ → ℕ → PthreadKeyData

/-- A call of a key function. -/
inductive KeyOp where
  | create (keyDestructor : ℕ)
  | delete (key : PthreadKey)
  | setspecific (key : PthreadKey) (ptr : ℕ)
  | getspecific (key : PthreadKey)

/-- The calls, each by a thread: a key function, or `pthread_key_clean_all` at the thread's
exit. -/
inductive KeyCall (τ : Type) where
  | call (t : τ) (op : KeyOp)
  | cleanAll (t : τ)

/-- What a key function returns: the key `pthread_key_create` stores, a status, or a value. -/
inductive OpResult where
  | created (key : PthreadKey)
  | status (err : ℤ)
  | value (ptr : ℕ)
  deriving DecidableEq

/-- A destructor `pthread_key_clean_all` called, the value it passed, and what the key functions
the destructor called returned. -/
structure DestructorCall where
  keyDestructor : ℕ
  value : ℕ
  results : List OpResult
  deriving DecidableEq

inductive KeyResult where
  | op (r : OpResult)
  | destructed (calls : List DestructorCall)
  deriving DecidableEq

variable {τ : Type} [DecidableEq τ] (w : ℕ) (dtor : ℕ → ℕ → List KeyOp)

namespace KeySystem

/-- `key_map[i] = k`. -/
def setKeyMap (sys : KeySystem τ) (i : ℕ) (k : PthreadKeyInternal) : KeySystem τ :=
  { sys with keyMap := Function.update sys.keyMap i k }

/-- `key_data[i] = d` in thread `t`. -/
def setKeyData (sys : KeySystem τ) (t : τ) (i : ℕ) (d : PthreadKeyData) : KeySystem τ :=
  { sys with keyData := Function.update sys.keyData t (Function.update (sys.keyData t) i d) }

end KeySystem

/-- The loop of `pthread_key_create` over the slots `is`: the first slot not in use gets the key. -/
def pthreadKeyCreateFrom (keyDestructor : ℕ) (sys : KeySystem τ) :
    List ℕ → KeySystem τ × OpResult
  | [] => (sys, .status eagain)
  | i :: is =>
    let seq := (sys.keyMap i).seq
    if seqOfKeyInUse seq then pthreadKeyCreateFrom keyDestructor sys is
    else
      (sys.setKeyMap i ⟨(seq + seqIncrementStep) % 2 ^ w, keyDestructor⟩,
        .created (PthreadKey.ofInt (i + keyValidFlag)))

/-- `pthread_key_create`. -/
def pthreadKeyCreate (keyDestructor : ℕ) (sys : KeySystem τ) : KeySystem τ × OpResult :=
  pthreadKeyCreateFrom w keyDestructor sys (List.range bionicPthreadKeyCount)

/-- `pthread_key_delete`. -/
def pthreadKeyDelete (key : PthreadKey) (sys : KeySystem τ) : KeySystem τ × OpResult :=
  if !keyInValidRange key then (sys, .status einval)
  else
    let i := keyIndex key
    let seq := (sys.keyMap i).seq
    if seqOfKeyInUse seq then
      (sys.setKeyMap i { sys.keyMap i with seq := (seq + seqIncrementStep) % 2 ^ w }, .status 0)
    else (sys, .status einval)

/-- `pthread_getspecific` in thread `t`; a value stored under an older key of the slot is
cleared. -/
def pthreadGetspecific (t : τ) (key : PthreadKey) (sys : KeySystem τ) : KeySystem τ × OpResult :=
  if !keyInValidRange key then (sys, .value 0)
  else
    let i := keyIndex key
    let seq := (sys.keyMap i).seq
    let data := sys.keyData t i
    if seqOfKeyInUse seq ∧ data.seq = seq then (sys, .value data.data)
    else (sys.setKeyData t i { data with data := 0 }, .value 0)

/-- `pthread_setspecific` in thread `t`. -/
def pthreadSetspecific (t : τ) (key : PthreadKey) (ptr : ℕ) (sys : KeySystem τ) :
    KeySystem τ × OpResult :=
  if !keyInValidRange key then (sys, .status einval)
  else
    let i := keyIndex key
    let seq := (sys.keyMap i).seq
    if seqOfKeyInUse seq then (sys.setKeyData t i ⟨seq, ptr⟩, .status 0)
    else (sys, .status einval)

/-- A key function called in thread `t`. -/
def keyOpStep (t : τ) : KeyOp → KeySystem τ → KeySystem τ × OpResult
  | .create keyDestructor, sys => pthreadKeyCreate w keyDestructor sys
  | .delete key, sys => pthreadKeyDelete w key sys
  | .setspecific key ptr, sys => pthreadSetspecific t key ptr sys
  | .getspecific key, sys => pthreadGetspecific t key sys

/-- The key functions a destructor calls in thread `t`, one after the other. -/
def keyOpRun (t : τ) : List KeyOp → KeySystem τ → KeySystem τ × List OpResult
  | [], sys => (sys, [])
  | op :: ops, sys =>
    let r := keyOpStep w t op sys
    let rs := keyOpRun t ops r.1
    (rs.1, r.2 :: rs.2)

/-- One round of `pthread_key_clean_all` in thread `t` over the slots `is`: the destructors it
calls, in order, each with the value it clears first. -/
def keyCleanRound (t : τ) (sys : KeySystem τ) : List ℕ → KeySystem τ × List DestructorCall
  | [] => (sys, [])
  | i :: is =>
    let seq := (sys.keyMap i).seq
    let data := sys.keyData t i
    if seqOfKeyInUse seq ∧ seq = data.seq ∧ data.data ≠ 0 then
      let keyDestructor := (sys.keyMap i).keyDestructor
      if keyDestructor = 0 then keyCleanRound t sys is
      -- the second load of `seq`: no call runs between the two loads
      else if (sys.keyMap i).seq ≠ seq then keyCleanRound t sys is
      else
        let r := keyOpRun w t (dtor keyDestructor data.data)
          (sys.setKeyData t i { data with data := 0 })
        let rest := keyCleanRound t r.1 is
        (rest.1, ⟨keyDestructor, data.data, r.2⟩ :: rest.2)
    else keyCleanRound t sys is

/-- The rounds of `pthread_key_clean_all`, at most `rounds` of them; a round that calls no
destructor is the last. -/
def pthreadKeyCleanAllRounds (t : τ) : ℕ → KeySystem τ → KeySystem τ × List DestructorCall
  | 0, sys => (sys, [])
  | rounds + 1, sys =>
    let r := keyCleanRound w dtor t sys (List.range bionicPthreadKeyCount)
    if r.2.length = 0 then r
    else
      let r' := pthreadKeyCleanAllRounds t rounds r.1
      (r'.1, r.2 ++ r'.2)

/-- `pthread_key_clean_all` in the exiting thread `t`. -/
def pthreadKeyCleanAll (t : τ) (sys : KeySystem τ) : KeySystem τ × List DestructorCall :=
  pthreadKeyCleanAllRounds w dtor t pthreadDestructorIterations sys

def keyStep : KeyCall τ → KeySystem τ → KeySystem τ × KeyResult
  | .call t op, sys =>
    let r := keyOpStep w t op sys
    (r.1, .op r.2)
  | .cleanAll t, sys =>
    let r := pthreadKeyCleanAll w dtor t sys
    (r.1, .destructed r.2)

/-- The calls and their results, one after the other. -/
def keyRun (sys : KeySystem τ) : List (KeyCall τ) → List (KeyCall τ × KeyResult)
  | [] => []
  | c :: cs =>
    let r := keyStep w dtor c sys
    (c, r.2) :: keyRun r.1 cs

/-- The zero-initialized `key_map` and thread-local `key_data`. -/
def keyInit : KeySystem τ := ⟨fun _ ↦ ⟨0, 0⟩, fun _ _ ↦ ⟨0, 0⟩⟩

/-! ## The POSIX model -/

/-- The live keys, their destructors, and each thread's value under each key, `nullptr` where it
stored none; a key is named by its slot. -/
@[ext]
structure PosixKeys (τ : Type) where
  live : ℕ → Bool
  destructor : ℕ → ℕ
  value : τ → ℕ → ℕ

/-- The slot a key names: `KEY_VALID_FLAG | i` names slot `i`, and every other key none. -/
def keySlot (key : PthreadKey) : Option ℕ :=
  if key.val < keyValidFlag + bionicPthreadKeyCount then some (key.val - keyValidFlag).toNat
  else none

namespace PosixKeys

/-- No key lives. -/
def empty : PosixKeys τ := ⟨fun _ ↦ false, fun _ ↦ 0, fun _ _ ↦ 0⟩

/-- Key `i` comes to life with destructor `d` and the null value in every thread. -/
def create (a : PosixKeys τ) (i d : ℕ) : PosixKeys τ :=
  ⟨Function.update a.live i true, Function.update a.destructor i d,
    fun u j ↦ if j = i then 0 else a.value u j⟩

/-- Key `i` dies, and its values with it. -/
def delete (a : PosixKeys τ) (i : ℕ) : PosixKeys τ :=
  { a with live := Function.update a.live i false, value := fun u j ↦ if j = i then 0 else a.value u j }

/-- Thread `t` stores `v` under key `i`. -/
def set (a : PosixKeys τ) (t : τ) (i v : ℕ) : PosixKeys τ :=
  { a with value := Function.update a.value t (Function.update (a.value t) i v) }

end PosixKeys

/-- A key function in thread `t` in the POSIX model, with its result. `create` may pick any slot
that is not live. -/
inductive PosixOpStep (t : τ) : PosixKeys τ → KeyOp → OpResult → PosixKeys τ → Prop
  | createFull (a : PosixKeys τ) (d : ℕ) :
    (∀ i < bionicPthreadKeyCount, a.live i) → PosixOpStep t a (.create d) (.status eagain) a
  | create (a : PosixKeys τ) (d i : ℕ) : i < bionicPthreadKeyCount → a.live i = false →
    PosixOpStep t a (.create d) (.created (PthreadKey.ofInt (i + keyValidFlag))) (a.create i d)
  | delete (a : PosixKeys τ) (key : PthreadKey) (i : ℕ) : keySlot key = some i →
    a.live i → PosixOpStep t a (.delete key) (.status 0) (a.delete i)
  | deleteInvalid (a : PosixKeys τ) (key : PthreadKey) :
    (∀ i, keySlot key = some i → a.live i = false) →
    PosixOpStep t a (.delete key) (.status einval) a
  | setspecific (a : PosixKeys τ) (key : PthreadKey) (ptr i : ℕ) : keySlot key = some i →
    a.live i → PosixOpStep t a (.setspecific key ptr) (.status 0) (a.set t i ptr)
  | setspecificInvalid (a : PosixKeys τ) (key : PthreadKey) (ptr : ℕ) :
    (∀ i, keySlot key = some i → a.live i = false) →
    PosixOpStep t a (.setspecific key ptr) (.status einval) a
  | getspecific (a : PosixKeys τ) (key : PthreadKey) (i : ℕ) : keySlot key = some i →
    a.live i → PosixOpStep t a (.getspecific key) (.value (a.value t i)) a
  | getspecificInvalid (a : PosixKeys τ) (key : PthreadKey) :
    (∀ i, keySlot key = some i → a.live i = false) →
    PosixOpStep t a (.getspecific key) (.value 0) a

/-- Key functions called one after the other in thread `t`. -/
inductive PosixOpRun (t : τ) : PosixKeys τ → List KeyOp → List OpResult → PosixKeys τ → Prop
  | nil (a : PosixKeys τ) : PosixOpRun t a [] [] a
  | cons (a : PosixKeys τ) (op : KeyOp) (r : OpResult) (a' : PosixKeys τ) (ops : List KeyOp)
    (rs : List OpResult) (a'' : PosixKeys τ) :
    PosixOpStep t a op r a' → PosixOpRun t a' ops rs a'' → PosixOpRun t a (op :: ops) (r :: rs) a''

/-- A round of destructor calls at the exit of thread `t`, over the keys `is` in turn: a live key
under which `t` has a value, and which has a destructor, has the value cleared, and then the
destructor is called with it. -/
inductive PosixCleanRound (t : τ) : PosixKeys τ → List ℕ → List DestructorCall → PosixKeys τ → Prop
  | nil (a : PosixKeys τ) : PosixCleanRound t a [] [] a
  | call (a : PosixKeys τ) (i : ℕ) (is : List ℕ) (rs : List OpResult) (a₁ : PosixKeys τ)
    (calls : List DestructorCall) (a₂ : PosixKeys τ) :
    a.live i → a.value t i ≠ 0 → a.destructor i ≠ 0 →
    PosixOpRun t (a.set t i 0) (dtor (a.destructor i) (a.value t i)) rs a₁ →
    PosixCleanRound t a₁ is calls a₂ →
    PosixCleanRound t a (i :: is) (⟨a.destructor i, a.value t i, rs⟩ :: calls) a₂
  | skip (a : PosixKeys τ) (i : ℕ) (is : List ℕ) (calls : List DestructorCall) (a' : PosixKeys τ) :
    ¬ (a.live i ∧ a.value t i ≠ 0 ∧ a.destructor i ≠ 0) →
    PosixCleanRound t a is calls a' → PosixCleanRound t a (i :: is) calls a'

/-- The rounds of destructor calls at the exit of thread `t`: they go on while a round calls a
destructor, `rounds` of them at most. -/
inductive PosixCleanRounds (t : τ) : ℕ → PosixKeys τ → List DestructorCall → PosixKeys τ → Prop
  | zero (a : PosixKeys τ) : PosixCleanRounds t 0 a [] a
  | last (rounds : ℕ) (a a' : PosixKeys τ) :
    PosixCleanRound dtor t a (List.range bionicPthreadKeyCount) [] a' →
    PosixCleanRounds t (rounds + 1) a [] a'
  | more (rounds : ℕ) (a : PosixKeys τ) (calls : List DestructorCall) (a' : PosixKeys τ)
    (rest : List DestructorCall) (a'' : PosixKeys τ) :
    PosixCleanRound dtor t a (List.range bionicPthreadKeyCount) calls a' → calls ≠ [] →
    PosixCleanRounds t rounds a' rest a'' → PosixCleanRounds t (rounds + 1) a (calls ++ rest) a''

/-- One call of the POSIX model, with its result. -/
inductive PosixStep : PosixKeys τ → KeyCall τ → KeyResult → PosixKeys τ → Prop
  | call (a : PosixKeys τ) (t : τ) (op : KeyOp) (r : OpResult) (a' : PosixKeys τ) :
    PosixOpStep t a op r a' → PosixStep a (.call t op) (.op r) a'
  | cleanAll (a : PosixKeys τ) (t : τ) (calls : List DestructorCall) (a' : PosixKeys τ) :
    PosixCleanRounds dtor t pthreadDestructorIterations a calls a' →
    PosixStep a (.cleanAll t) (.destructed calls) a'

/-- A sequence of calls and results the POSIX model can produce from `a`. -/
inductive PosixTrace : PosixKeys τ → List (KeyCall τ × KeyResult) → Prop
  | nil (a : PosixKeys τ) : PosixTrace a []
  | cons (a : PosixKeys τ) (c : KeyCall τ) (r : KeyResult) (a' : PosixKeys τ)
    (rest : List (KeyCall τ × KeyResult)) :
    PosixStep dtor a c r a' → PosixTrace a' rest → PosixTrace a ((c, r) :: rest)

/-! ## The implementation refines the POSIX model -/

/-- The POSIX state the implementation stands for: a slot in range whose `seq` is odd holds a
live key, and a thread's value is its `data` while its `seq` is the slot's. -/
def KeySystem.toPosix (sys : KeySystem τ) : PosixKeys τ where
  live i := decide (i < bionicPthreadKeyCount) && seqOfKeyInUse (sys.keyMap i).seq
  destructor i := (sys.keyMap i).keyDestructor
  value t i := if seqOfKeyInUse (sys.keyMap i).seq ∧ (sys.keyData t i).seq = (sys.keyMap i).seq
    then (sys.keyData t i).data else 0

/-- Each thread's `seq` of a slot is one the slot had. -/
def KeySystem.Inv (sys : KeySystem τ) : Prop := ∀ t i, (sys.keyData t i).seq ≤ (sys.keyMap i).seq

/-- How many times slot `i` has been created: its `seq` goes up at each creation and deletion. -/
def KeySystem.cycles (sys : KeySystem τ) (i : ℕ) : ℕ := ((sys.keyMap i).seq + 1) / 2

/-- A creation of slot `i` that a result records. -/
def OpResult.creates (i : ℕ) : OpResult → ℕ
  | .created key => if keySlot key = some i then 1 else 0
  | _ => 0

/-- The creations of slot `i` among the results of key functions. -/
def createsOf (i : ℕ) (results : List OpResult) : ℕ := (results.map (·.creates i)).sum

/-- The creations of slot `i` by destructors. -/
def destructorCreates (i : ℕ) (calls : List DestructorCall) : ℕ :=
  (calls.map fun c ↦ createsOf i c.results).sum

def KeyResult.creates (i : ℕ) : KeyResult → ℕ
  | .op r => r.creates i
  | .destructed calls => destructorCreates i calls

/-- The creations of slot `i` in a trace, those by destructors included. -/
def creates (i : ℕ) (trace : List (KeyCall τ × KeyResult)) : ℕ :=
  (trace.map fun cr ↦ cr.2.creates i).sum

/-! ### Keys and slots -/

theorem keySlot_of_keyInValidRange {key : PthreadKey} (h : keyInValidRange key = true) :
    keyIndex key < bionicPthreadKeyCount ∧ keySlot key = some (keyIndex key) := by
  have hlo := key.lo
  have hlt : key.val < keyValidFlag + bionicPthreadKeyCount := of_decide_eq_true h
  simp only [keyValidFlag, bionicPthreadKeyCount] at hlt
  -- clearing bit 31 of a negative `int` adds `2 ^ 31`
  have hmod : key.val % 2 ^ 31 = key.val + 2 ^ 31 := by omega
  have hindex : keyIndex key = (key.val + 2 ^ 31).toNat := by rw [keyIndex, hmod]
  refine ⟨?_, ?_⟩
  · rw [hindex, bionicPthreadKeyCount]
    omega
  · rw [hindex, keySlot, if_pos (by simp only [keyValidFlag, bionicPthreadKeyCount]; omega)]
    -- `key - KEY_VALID_FLAG` is `key + 2 ^ 31`
    rfl

theorem keySlot_of_not_keyInValidRange {key : PthreadKey} (h : keyInValidRange key = false) :
    keySlot key = none := by
  have hge : ¬ key.val < keyValidFlag + bionicPthreadKeyCount := of_decide_eq_false h
  rw [keySlot, if_neg hge]

theorem keySlot_ofInt {i : ℕ} (hi : i < bionicPthreadKeyCount) :
    keySlot (PthreadKey.ofInt (i + keyValidFlag)) = some i := by
  simp only [bionicPthreadKeyCount] at hi
  have hval : (PthreadKey.ofInt (i + keyValidFlag)).val = i - 2 ^ 31 := by
    simp only [PthreadKey.ofInt, keyValidFlag]
    omega
  rw [keySlot, hval, if_pos (by simp only [keyValidFlag, bionicPthreadKeyCount]; omega)]
  congr 1
  rw [keyValidFlag]
  omega

namespace KeySystem

variable {sys : KeySystem τ} {t u : τ} {i j : ℕ}

omit [DecidableEq τ] in
@[simp] theorem setKeyMap_keyMap (k : PthreadKeyInternal) :
    (sys.setKeyMap i k).keyMap = Function.update sys.keyMap i k := rfl
omit [DecidableEq τ] in
@[simp] theorem setKeyMap_keyData (k : PthreadKeyInternal) :
    (sys.setKeyMap i k).keyData = sys.keyData := rfl
@[simp] theorem setKeyData_keyMap (d : PthreadKeyData) :
    (sys.setKeyData t i d).keyMap = sys.keyMap := rfl
@[simp] theorem setKeyData_keyData (d : PthreadKeyData) :
    (sys.setKeyData t i d).keyData u j = if u = t ∧ j = i then d else sys.keyData u j := by
  by_cases hu : u = t
  · subst hu
    by_cases hj : j = i
    · subst hj
      simp [setKeyData]
    · simp [setKeyData, hj]
  · simp [setKeyData, hu]

end KeySystem

/-! ### What each update does to the POSIX state -/

namespace PosixKeys

variable {a : PosixKeys τ} {t : τ} {i v : ℕ}

theorem set_of_value_eq (h : a.value t i = v) : a.set t i v = a := by
  refine PosixKeys.ext rfl rfl (funext fun u ↦ funext fun j ↦ ?_)
  by_cases hu : u = t
  · subst hu
    by_cases hj : j = i
    · subst hj
      simp [set, h]
    · simp [set, hj]
  · simp [set, hu]

end PosixKeys

namespace KeySystem

variable {sys : KeySystem τ} {t : τ} {i : ℕ}

/-- Storing thread data changes the thread's value by the data when its `seq` is the slot's, and
to the null value when not. -/
theorem toPosix_setKeyData (d : PthreadKeyData) :
    (sys.setKeyData t i d).toPosix = sys.toPosix.set t i
      (if seqOfKeyInUse (sys.keyMap i).seq ∧ d.seq = (sys.keyMap i).seq then d.data else 0) := by
  refine PosixKeys.ext rfl rfl (funext fun u ↦ funext fun j ↦ ?_)
  by_cases hu : u = t
  · subst hu
    by_cases hj : j = i
    · subst hj
      simp [toPosix, PosixKeys.set]
    · simp [toPosix, PosixKeys.set, hj]
  · simp [toPosix, PosixKeys.set, hu]

theorem inv_setKeyData (hinv : sys.Inv) {d : PthreadKeyData}
    (hd : d.seq ≤ (sys.keyMap i).seq) : (sys.setKeyData t i d).Inv := by
  intro u j
  simp only [setKeyData_keyData, setKeyData_keyMap]
  split_ifs with h
  · rw [h.2]
    exact hd
  · exact hinv u j

theorem seq_bump {seq : ℕ} (hw : seq + 1 < 2 ^ w) : (seq + seqIncrementStep) % 2 ^ w = seq + 1 :=
  Nat.mod_eq_of_lt hw

omit [DecidableEq τ] in
theorem toPosix_delete (hi : seqOfKeyInUse (sys.keyMap i).seq = true)
    (hw : (sys.keyMap i).seq + 1 < 2 ^ w) :
    (sys.setKeyMap i { sys.keyMap i with seq := ((sys.keyMap i).seq + seqIncrementStep) % 2 ^ w }).toPosix =
      sys.toPosix.delete i := by
  have hseq := seq_bump w hw
  have hodd : (sys.keyMap i).seq % 2 = 1 := by simpa [seqOfKeyInUse] using hi
  refine PosixKeys.ext (funext fun j ↦ ?_) (funext fun j ↦ ?_) (funext fun u ↦ funext fun j ↦ ?_)
  · by_cases hj : j = i
    · subst hj
      simp [toPosix, PosixKeys.delete, hseq, seqOfKeyInUse]
      omega
    · simp [toPosix, PosixKeys.delete, hj]
  · by_cases hj : j = i
    · subst hj
      simp [toPosix, PosixKeys.delete]
    · simp [toPosix, PosixKeys.delete, hj]
  · by_cases hj : j = i
    · subst hj
      simp [toPosix, PosixKeys.delete, hseq, seqOfKeyInUse]
      omega
    · simp [toPosix, PosixKeys.delete, hj]

omit [DecidableEq τ] in
/-- A creation starts a key in the slot, with no value in any thread: no thread's `seq` of the
slot is the new one. -/
theorem toPosix_create (hinv : sys.Inv) (hcount : i < bionicPthreadKeyCount)
    (hi : seqOfKeyInUse (sys.keyMap i).seq = false) (hw : (sys.keyMap i).seq + 1 < 2 ^ w)
    (d : ℕ) :
    (sys.setKeyMap i ⟨((sys.keyMap i).seq + seqIncrementStep) % 2 ^ w, d⟩).toPosix =
      sys.toPosix.create i d := by
  have hseq := seq_bump w hw
  have heven : (sys.keyMap i).seq % 2 = 0 := by simpa [seqOfKeyInUse] using hi
  refine PosixKeys.ext (funext fun j ↦ ?_) (funext fun j ↦ ?_) (funext fun u ↦ funext fun j ↦ ?_)
  · by_cases hj : j = i
    · subst hj
      simp [toPosix, PosixKeys.create, hseq, seqOfKeyInUse, hcount]
      omega
    · simp [toPosix, PosixKeys.create, hj]
  · by_cases hj : j = i
    · subst hj
      simp [toPosix, PosixKeys.create]
    · simp [toPosix, PosixKeys.create, hj]
  · by_cases hj : j = i
    · subst hj
      have hle := hinv u j
      simp [toPosix, PosixKeys.create, hseq]
      omega
    · simp [toPosix, PosixKeys.create, hj]

end KeySystem

/-! ### Each key function is a POSIX step -/

variable {sys : KeySystem τ}

omit [DecidableEq τ] in
theorem pthreadKeyCreateFrom_cases (d : ℕ) (sys : KeySystem τ) (is : List ℕ) :
    ((∀ i ∈ is, seqOfKeyInUse (sys.keyMap i).seq = true) ∧
      pthreadKeyCreateFrom w d sys is = (sys, .status eagain)) ∨
    ∃ i ∈ is, seqOfKeyInUse (sys.keyMap i).seq = false ∧
      pthreadKeyCreateFrom w d sys is =
        (sys.setKeyMap i ⟨((sys.keyMap i).seq + seqIncrementStep) % 2 ^ w, d⟩,
          .created (PthreadKey.ofInt (i + keyValidFlag))) := by
  induction is with
  | nil => exact .inl ⟨by simp, rfl⟩
  | cons i is ih =>
    by_cases hi : seqOfKeyInUse (sys.keyMap i).seq = true
    · rcases ih with ⟨hall, heq⟩ | ⟨j, hj, hfree, heq⟩
      · refine .inl ⟨?_, by simp [pthreadKeyCreateFrom, hi, heq]⟩
        intro k hk
        rcases List.mem_cons.mp hk with rfl | hk
        · exact hi
        · exact hall k hk
      · exact .inr ⟨j, List.mem_cons_of_mem i hj, hfree, by simp [pthreadKeyCreateFrom, hi, heq]⟩
    · simp only [Bool.not_eq_true] at hi
      exact .inr ⟨i, List.mem_cons_self, hi, by simp [pthreadKeyCreateFrom, hi]⟩

theorem pthreadKeyCreate_simulates (hinv : sys.Inv) (t : τ) (d : ℕ)
    (hw : ∀ i, seqOfKeyInUse (sys.keyMap i).seq = false → i < bionicPthreadKeyCount →
      (pthreadKeyCreate w d sys).2 = .created (PthreadKey.ofInt (i + keyValidFlag)) →
      (sys.keyMap i).seq + 1 < 2 ^ w) :
    PosixOpStep t sys.toPosix (.create d) (pthreadKeyCreate w d sys).2
      (pthreadKeyCreate w d sys).1.toPosix ∧ (pthreadKeyCreate w d sys).1.Inv := by
  rcases pthreadKeyCreateFrom_cases w d sys (List.range bionicPthreadKeyCount) with
    ⟨hall, heq⟩ | ⟨i, hi, hfree, heq⟩
  · -- every slot is in use: `EAGAIN`
    rw [pthreadKeyCreate, heq]
    refine ⟨.createFull _ d fun i hi ↦ ?_, hinv⟩
    simpa [KeySystem.toPosix, hi] using hall i (List.mem_range.mpr hi)
  · have hcount := List.mem_range.mp hi
    have hwi := hw i hfree hcount (by rw [pthreadKeyCreate, heq])
    rw [pthreadKeyCreate, heq]
    refine ⟨?_, fun u j ↦ ?_⟩
    · rw [KeySystem.toPosix_create w hinv hcount hfree hwi d]
      exact .create _ d i hcount (by simp [KeySystem.toPosix, hfree])
    · have := hinv u j
      by_cases hj : j = i
      · subst hj
        simp only [KeySystem.setKeyMap_keyData, KeySystem.setKeyMap_keyMap, Function.update_self]
        rw [KeySystem.seq_bump w hwi]
        omega
      · simpa [hj] using this

theorem pthreadKeyDelete_simulates (hinv : sys.Inv)
    (hw : ∀ i < bionicPthreadKeyCount, seqOfKeyInUse (sys.keyMap i).seq = true →
      (sys.keyMap i).seq + 1 < 2 ^ w)
    (t : τ) (key : PthreadKey) :
    PosixOpStep t sys.toPosix (.delete key) (pthreadKeyDelete w key sys).2
      (pthreadKeyDelete w key sys).1.toPosix ∧ (pthreadKeyDelete w key sys).1.Inv := by
  cases hrange : keyInValidRange key
  · have hslot := keySlot_of_not_keyInValidRange hrange
    simp only [pthreadKeyDelete, hrange, Bool.not_false, if_true]
    exact ⟨.deleteInvalid _ key (by simp [hslot]), hinv⟩
  · obtain ⟨hcount, hslot⟩ := keySlot_of_keyInValidRange hrange
    by_cases hi : seqOfKeyInUse (sys.keyMap (keyIndex key)).seq = true
    · simp only [pthreadKeyDelete, hrange, Bool.not_true, Bool.false_eq_true, if_false, hi,
        if_true]
      refine ⟨?_, fun u j ↦ ?_⟩
      · rw [KeySystem.toPosix_delete w hi (hw _ hcount hi)]
        exact .delete _ key _ hslot (by simp [KeySystem.toPosix, hcount, hi])
      · have := hinv u j
        by_cases hj : j = keyIndex key
        · subst hj
          simp only [KeySystem.setKeyMap_keyData, KeySystem.setKeyMap_keyMap,
            Function.update_self]
          rw [KeySystem.seq_bump w (hw _ hcount hi)]
          omega
        · simpa [hj] using this
    · simp only [pthreadKeyDelete, hrange, Bool.not_true, Bool.false_eq_true, if_false, hi]
      refine ⟨.deleteInvalid _ key fun j hj ↦ ?_, hinv⟩
      rw [hslot] at hj
      cases hj
      simp [KeySystem.toPosix, hi]

theorem pthreadSetspecific_simulates (hinv : sys.Inv) (t : τ) (key : PthreadKey) (ptr : ℕ) :
    PosixOpStep t sys.toPosix (.setspecific key ptr) (pthreadSetspecific t key ptr sys).2
      (pthreadSetspecific t key ptr sys).1.toPosix ∧ (pthreadSetspecific t key ptr sys).1.Inv := by
  cases hrange : keyInValidRange key
  · have hslot := keySlot_of_not_keyInValidRange hrange
    simp only [pthreadSetspecific, hrange, Bool.not_false, if_true]
    exact ⟨.setspecificInvalid _ key ptr (by simp [hslot]), hinv⟩
  · obtain ⟨hcount, hslot⟩ := keySlot_of_keyInValidRange hrange
    by_cases hi : seqOfKeyInUse (sys.keyMap (keyIndex key)).seq = true
    · simp only [pthreadSetspecific, hrange, Bool.not_true, Bool.false_eq_true, if_false, hi,
        if_true]
      refine ⟨?_, KeySystem.inv_setKeyData hinv (Nat.le_refl _)⟩
      rw [KeySystem.toPosix_setKeyData]
      simpa [hi] using
        PosixOpStep.setspecific _ key ptr _ hslot (by simp [KeySystem.toPosix, hcount, hi])
    · simp only [pthreadSetspecific, hrange, Bool.not_true, Bool.false_eq_true, if_false, hi]
      refine ⟨.setspecificInvalid _ key ptr fun j hj ↦ ?_, hinv⟩
      rw [hslot] at hj
      cases hj
      simp [KeySystem.toPosix, hi]

theorem pthreadGetspecific_simulates (hinv : sys.Inv) (t : τ) (key : PthreadKey) :
    PosixOpStep t sys.toPosix (.getspecific key) (pthreadGetspecific t key sys).2
      (pthreadGetspecific t key sys).1.toPosix ∧ (pthreadGetspecific t key sys).1.Inv := by
  cases hrange : keyInValidRange key
  · have hslot := keySlot_of_not_keyInValidRange hrange
    simp only [pthreadGetspecific, hrange, Bool.not_false, if_true]
    exact ⟨.getspecificInvalid _ key (by simp [hslot]), hinv⟩
  · obtain ⟨hcount, hslot⟩ := keySlot_of_keyInValidRange hrange
    simp only [pthreadGetspecific, hrange, Bool.not_true, Bool.false_eq_true, if_false]
    by_cases hcur : seqOfKeyInUse (sys.keyMap (keyIndex key)).seq = true ∧
        (sys.keyData t (keyIndex key)).seq = (sys.keyMap (keyIndex key)).seq
    · -- the thread's value is the key's
      rw [if_pos hcur]
      have hval : sys.toPosix.value t (keyIndex key) = (sys.keyData t (keyIndex key)).data := by
        simp [KeySystem.toPosix, hcur]
      refine ⟨?_, hinv⟩
      rw [← hval]
      exact .getspecific _ key _ hslot (by simp [KeySystem.toPosix, hcount, hcur.1])
    · -- a value of an older key, or none: it is cleared, and the POSIX value is null
      rw [if_neg hcur]
      have hval : sys.toPosix.value t (keyIndex key) = 0 := by
        simp only [KeySystem.toPosix]
        rw [if_neg hcur]
      refine ⟨?_, KeySystem.inv_setKeyData hinv (hinv t _)⟩
      rw [KeySystem.toPosix_setKeyData, if_neg hcur, PosixKeys.set_of_value_eq hval]
      by_cases hlive : seqOfKeyInUse (sys.keyMap (keyIndex key)).seq = true
      · rw [← hval]
        exact .getspecific _ key _ hslot (by simp [KeySystem.toPosix, hcount, hlive])
      · refine .getspecificInvalid _ key fun j hj ↦ ?_
        rw [hslot] at hj
        cases hj
        simp [KeySystem.toPosix, hlive]


/-! ### Counting creations -/

@[simp] theorem createsOf_nil (i : ℕ) : createsOf i [] = 0 := rfl

@[simp] theorem createsOf_cons (i : ℕ) (r : OpResult) (rs : List OpResult) :
    createsOf i (r :: rs) = r.creates i + createsOf i rs := List.sum_cons

@[simp] theorem destructorCreates_nil (i : ℕ) : destructorCreates i [] = 0 := rfl

@[simp] theorem destructorCreates_cons (i : ℕ) (c : DestructorCall) (calls : List DestructorCall) :
    destructorCreates i (c :: calls) = createsOf i c.results + destructorCreates i calls :=
  List.sum_cons

@[simp] theorem destructorCreates_append (i : ℕ) (calls calls' : List DestructorCall) :
    destructorCreates i (calls ++ calls') = destructorCreates i calls + destructorCreates i calls' := by
  simp [destructorCreates]

omit [DecidableEq τ] in
@[simp] theorem creates_cons (i : ℕ) (c : KeyCall τ) (r : KeyResult)
    (rest : List (KeyCall τ × KeyResult)) : creates i ((c, r) :: rest) = r.creates i + creates i rest :=
  List.sum_cons

section Budget

variable {cycles cycles' first rest : ℕ → ℕ} {bound : ℕ}

/-- A bound on the creations of two parts run one after the other bounds those of the first. -/
theorem budget_first (h : ∀ i < bionicPthreadKeyCount, cycles i + first i + rest i < bound) :
    ∀ i < bionicPthreadKeyCount, cycles i + first i < bound :=
  fun i hi ↦ Nat.lt_of_le_of_lt (Nat.le_add_right _ _) (h i hi)

/-- It bounds those of the second too, counted from the cycles the first part leaves. -/
theorem budget_rest (h : ∀ i < bionicPthreadKeyCount, cycles i + first i + rest i < bound)
    (hcycles : ∀ i, cycles' i = cycles i + first i) :
    ∀ i < bionicPthreadKeyCount, cycles' i + rest i < bound :=
  fun i hi ↦ by rw [hcycles i]; exact h i hi

end Budget

/-- A key in use has its `seq` below `2 ^ w - 1` while the slot was created fewer than
`2 ^ (w - 1)` times: deleting it does not wrap. -/
theorem add_one_lt_of_odd {seq : ℕ} (hodd : seq % 2 = 1) (h : (seq + 1) / 2 < 2 ^ (w - 1)) :
    seq + 1 < 2 ^ w := by
  cases w with
  | zero => simp at h; omega
  | succ w =>
    rw [Nat.pow_succ]
    simp only [Nat.add_sub_cancel] at h
    omega

/-- A free slot about to be created once more, within fewer than `2 ^ (w - 1)` creations, does
not wrap. -/
theorem add_one_lt_of_even {seq : ℕ} (heven : seq % 2 = 0) (h : (seq + 1) / 2 + 1 < 2 ^ (w - 1)) :
    seq + 1 < 2 ^ w := by
  cases w with
  | zero => simp at h
  | succ w =>
    rw [Nat.pow_succ]
    simp only [Nat.add_sub_cancel] at h
    omega

/-- Every key function is a POSIX step from the state the implementation stands for, and keeps
the invariant; the slot's creations count the function's own. -/
theorem keyOpStep_simulates (hinv : sys.Inv) (t : τ) (op : KeyOp)
    (hcount : ∀ i < bionicPthreadKeyCount,
      sys.cycles i + (keyOpStep w t op sys).2.creates i < 2 ^ (w - 1)) :
    PosixOpStep t sys.toPosix op (keyOpStep w t op sys).2 (keyOpStep w t op sys).1.toPosix ∧
      (keyOpStep w t op sys).1.Inv ∧
      ∀ i, (keyOpStep w t op sys).1.cycles i = sys.cycles i + (keyOpStep w t op sys).2.creates i := by
  -- a key in use is deleted without a wrap
  have hdel : ∀ i < bionicPthreadKeyCount, seqOfKeyInUse (sys.keyMap i).seq = true →
      (sys.keyMap i).seq + 1 < 2 ^ w :=
    fun i hc hi ↦ add_one_lt_of_odd w (by simpa [seqOfKeyInUse] using hi)
      (Nat.lt_of_le_of_lt (Nat.le_add_right _ _) (hcount i hc))
  cases op with
  | create d =>
    have hcr : ∀ i : ℕ, i < bionicPthreadKeyCount →
        (pthreadKeyCreate w d sys).2 = .created (PthreadKey.ofInt (i + keyValidFlag)) →
        (pthreadKeyCreate w d sys).2.creates i = 1 := by
      intro i hi hr
      simp [OpResult.creates, hr, keySlot_ofInt hi]
    have hfree : ∀ i, seqOfKeyInUse (sys.keyMap i).seq = false → i < bionicPthreadKeyCount →
        (pthreadKeyCreate w d sys).2 = .created (PthreadKey.ofInt (i + keyValidFlag)) →
        (sys.keyMap i).seq + 1 < 2 ^ w := by
      intro i hi hc hr
      have := hcount i hc
      rw [keyOpStep, hcr i hc hr] at this
      exact add_one_lt_of_even w (by simpa [seqOfKeyInUse] using hi) this
    refine ⟨(pthreadKeyCreate_simulates w hinv t d hfree).1,
      (pthreadKeyCreate_simulates w hinv t d hfree).2, fun j ↦ ?_⟩
    simp only [keyOpStep, KeySystem.cycles]
    rcases pthreadKeyCreateFrom_cases w d sys (List.range bionicPthreadKeyCount) with
      ⟨-, heq⟩ | ⟨i, hi, hfi, heq⟩
    · simp [pthreadKeyCreate, heq, OpResult.creates]
    · have hc := List.mem_range.mp hi
      have hwi := hfree i hfi hc (by rw [pthreadKeyCreate, heq])
      rw [pthreadKeyCreate, heq]
      by_cases hj : j = i
      · subst hj
        have heven : (sys.keyMap j).seq % 2 = 0 := by simpa [seqOfKeyInUse] using hfi
        simp only [KeySystem.setKeyMap_keyMap, Function.update_self, KeySystem.seq_bump w hwi,
          OpResult.creates, keySlot_ofInt hc, if_true]
        omega
      · have hne : keySlot (PthreadKey.ofInt (i + keyValidFlag)) ≠ some j := by
          rw [keySlot_ofInt hc]
          exact fun h ↦ hj (Option.some_inj.mp h).symm
        simp [Function.update_of_ne hj, OpResult.creates, hne]
  | delete key =>
    refine ⟨(pthreadKeyDelete_simulates w hinv hdel t key).1,
      (pthreadKeyDelete_simulates w hinv hdel t key).2, fun j ↦ ?_⟩
    simp only [keyOpStep, pthreadKeyDelete, KeySystem.cycles]
    split_ifs with hrange hi
    · rfl
    · -- the deleted slot goes from odd to even: its creations stay
      simp only [OpResult.creates, Nat.add_zero]
      have hc := (keySlot_of_keyInValidRange (by simpa using hrange)).1
      by_cases hj : j = keyIndex key
      · subst hj
        have hodd : (sys.keyMap (keyIndex key)).seq % 2 = 1 := by simpa [seqOfKeyInUse] using hi
        simp only [KeySystem.setKeyMap_keyMap, Function.update_self,
          KeySystem.seq_bump w (hdel _ hc hi)]
        omega
      · simp [Function.update_of_ne hj]
    · rfl
  | setspecific key ptr =>
    refine ⟨(pthreadSetspecific_simulates hinv t key ptr).1,
      (pthreadSetspecific_simulates hinv t key ptr).2, fun j ↦ ?_⟩
    simp only [keyOpStep, pthreadSetspecific, KeySystem.cycles]
    split_ifs <;> simp [OpResult.creates]
  | getspecific key =>
    refine ⟨(pthreadGetspecific_simulates hinv t key).1,
      (pthreadGetspecific_simulates hinv t key).2, fun j ↦ ?_⟩
    simp only [keyOpStep, pthreadGetspecific, KeySystem.cycles]
    split_ifs <;> simp [OpResult.creates]

/-! ### Thread exit -/

theorem keyOpRun_cons (t : τ) (op : KeyOp) (ops : List KeyOp) (sys : KeySystem τ) :
    keyOpRun w t (op :: ops) sys = ((keyOpRun w t ops (keyOpStep w t op sys).1).1,
      (keyOpStep w t op sys).2 :: (keyOpRun w t ops (keyOpStep w t op sys).1).2) := rfl

/-- The key functions a destructor calls are POSIX steps one after the other. -/
theorem keyOpRun_simulates (t : τ) (ops : List KeyOp) (sys : KeySystem τ) (hinv : sys.Inv)
    (hcount : ∀ i < bionicPthreadKeyCount,
      sys.cycles i + createsOf i (keyOpRun w t ops sys).2 < 2 ^ (w - 1)) :
    PosixOpRun t sys.toPosix ops (keyOpRun w t ops sys).2 (keyOpRun w t ops sys).1.toPosix ∧
      (keyOpRun w t ops sys).1.Inv ∧
      ∀ i, (keyOpRun w t ops sys).1.cycles i = sys.cycles i + createsOf i (keyOpRun w t ops sys).2 := by
  induction ops generalizing sys with
  | nil => exact ⟨.nil _, hinv, fun i ↦ rfl⟩
  | cons op ops ih =>
    rw [keyOpRun_cons] at hcount ⊢
    -- the first call's creations come before those of the rest
    have hsplit : ∀ i < bionicPthreadKeyCount, sys.cycles i + (keyOpStep w t op sys).2.creates i +
        createsOf i (keyOpRun w t ops (keyOpStep w t op sys).1).2 < 2 ^ (w - 1) := by
      intro i hi
      have := hcount i hi
      rw [createsOf_cons] at this
      omega
    obtain ⟨hstep, hinv₁, hcyc₁⟩ := keyOpStep_simulates w hinv t op (budget_first hsplit)
    obtain ⟨hrun, hinv₂, hcyc₂⟩ := ih _ hinv₁ (budget_rest hsplit hcyc₁)
    refine ⟨.cons _ _ _ _ _ _ _ hstep hrun, hinv₂, fun i ↦ ?_⟩
    rw [hcyc₂ i, hcyc₁ i, createsOf_cons]
    omega

/-- A round of `pthread_key_clean_all` over slots in range is a POSIX round: the thread's value
under a key is the `data` of its slot exactly when the two `seq` agree, so a value stored under a
key that a destructor deleted, or deleted and created again, is passed to no destructor. -/
theorem keyCleanRound_simulates (t : τ) (is : List ℕ) (his : ∀ i ∈ is, i < bionicPthreadKeyCount)
    (sys : KeySystem τ) (hinv : sys.Inv)
    (hcount : ∀ i < bionicPthreadKeyCount,
      sys.cycles i + destructorCreates i (keyCleanRound w dtor t sys is).2 < 2 ^ (w - 1)) :
    PosixCleanRound dtor t sys.toPosix is (keyCleanRound w dtor t sys is).2
        (keyCleanRound w dtor t sys is).1.toPosix ∧
      (keyCleanRound w dtor t sys is).1.Inv ∧
      ∀ i, (keyCleanRound w dtor t sys is).1.cycles i =
        sys.cycles i + destructorCreates i (keyCleanRound w dtor t sys is).2 := by
  induction is generalizing sys with
  | nil => exact ⟨.nil _, hinv, fun i ↦ rfl⟩
  | cons i is ih =>
    have hi := his i List.mem_cons_self
    have his' : ∀ j ∈ is, j < bionicPthreadKeyCount := fun j hj ↦ his j (List.mem_cons_of_mem i hj)
    by_cases hcur : seqOfKeyInUse (sys.keyMap i).seq = true ∧
        (sys.keyMap i).seq = (sys.keyData t i).seq ∧ (sys.keyData t i).data ≠ 0
    · have hv : sys.toPosix.value t i = (sys.keyData t i).data := by
        simp only [KeySystem.toPosix]
        rw [if_pos ⟨hcur.1, hcur.2.1.symm⟩]
      by_cases hd : (sys.keyMap i).keyDestructor = 0
      · -- no destructor: the value stays
        have hskip : keyCleanRound w dtor t sys (i :: is) = keyCleanRound w dtor t sys is := by
          simp only [keyCleanRound]
          rw [if_pos hcur, if_pos hd]
        rw [hskip] at hcount ⊢
        obtain ⟨h1, h2, h3⟩ := ih his' sys hinv hcount
        exact ⟨.skip _ _ _ _ _ (fun h ↦ h.2.2 hd) h1, h2, h3⟩
      · -- the value is cleared, and the destructor called with it runs its key functions
        set sys₁ := sys.setKeyData t i { sys.keyData t i with data := 0 }
        set r := keyOpRun w t (dtor (sys.keyMap i).keyDestructor (sys.keyData t i).data) sys₁
        have hstep : keyCleanRound w dtor t sys (i :: is) = ((keyCleanRound w dtor t r.1 is).1,
            ⟨(sys.keyMap i).keyDestructor, (sys.keyData t i).data, r.2⟩ ::
              (keyCleanRound w dtor t r.1 is).2) := by
          simp only [keyCleanRound]
          rw [if_pos hcur, if_neg hd, if_neg (not_not.mpr rfl)]
        rw [hstep] at hcount ⊢
        have hsys₁ : sys₁.toPosix = sys.toPosix.set t i 0 := by
          rw [KeySystem.toPosix_setKeyData]
          split_ifs <;> rfl
        have hsplit : ∀ j < bionicPthreadKeyCount, sys.cycles j + createsOf j r.2 +
            destructorCreates j (keyCleanRound w dtor t r.1 is).2 < 2 ^ (w - 1) := by
          intro j hj
          have := hcount j hj
          simp only [destructorCreates_cons] at this
          omega
        obtain ⟨hrun, hinv₂, hcyc₂⟩ := keyOpRun_simulates w t _ sys₁
          (KeySystem.inv_setKeyData hinv (hinv t i)) (budget_first hsplit)
        obtain ⟨h1, h2, h3⟩ := ih his' r.1 hinv₂ (budget_rest hsplit hcyc₂)
        have hlive : sys.toPosix.live i = true := by simp [KeySystem.toPosix, hi, hcur.1]
        have hdes : sys.toPosix.destructor i = (sys.keyMap i).keyDestructor := rfl
        have hrun' : PosixOpRun t (sys.toPosix.set t i 0)
            (dtor (sys.toPosix.destructor i) (sys.toPosix.value t i)) r.2 r.1.toPosix := by
          rw [hv, hdes, ← hsys₁]
          exact hrun
        refine ⟨?_, h2, fun j ↦ ?_⟩
        · rw [← hv, ← hdes]
          exact .call _ _ _ _ _ _ _ hlive (by rw [hv]; exact hcur.2.2) hd hrun' h1
        · rw [h3 j, hcyc₂ j, destructorCreates_cons]
          exact Nat.add_assoc _ _ _
    · -- nothing to do at this slot: its POSIX value is null
      have hskip : keyCleanRound w dtor t sys (i :: is) = keyCleanRound w dtor t sys is := by
        simp only [keyCleanRound]
        rw [if_neg hcur]
      have hzero : sys.toPosix.value t i = 0 := by
        simp only [KeySystem.toPosix]
        split_ifs with h
        · simp only [not_and, not_not] at hcur
          exact hcur h.1 h.2.symm
        · rfl
      rw [hskip] at hcount ⊢
      obtain ⟨h1, h2, h3⟩ := ih his' sys hinv hcount
      exact ⟨.skip _ _ _ _ _ (fun h ↦ h.2.1 hzero) h1, h2, h3⟩

/-- The rounds of `pthread_key_clean_all` are the POSIX rounds. -/
theorem pthreadKeyCleanAllRounds_simulates (t : τ) (rounds : ℕ) (sys : KeySystem τ)
    (hinv : sys.Inv)
    (hcount : ∀ i < bionicPthreadKeyCount,
      sys.cycles i + destructorCreates i (pthreadKeyCleanAllRounds w dtor t rounds sys).2 <
        2 ^ (w - 1)) :
    PosixCleanRounds dtor t rounds sys.toPosix (pthreadKeyCleanAllRounds w dtor t rounds sys).2
        (pthreadKeyCleanAllRounds w dtor t rounds sys).1.toPosix ∧
      (pthreadKeyCleanAllRounds w dtor t rounds sys).1.Inv ∧
      ∀ i, (pthreadKeyCleanAllRounds w dtor t rounds sys).1.cycles i =
        sys.cycles i + destructorCreates i (pthreadKeyCleanAllRounds w dtor t rounds sys).2 := by
  have hlt : ∀ i ∈ List.range bionicPthreadKeyCount, i < bionicPthreadKeyCount :=
    fun i h ↦ List.mem_range.mp h
  induction rounds generalizing sys with
  | zero => exact ⟨.zero _, hinv, fun i ↦ rfl⟩
  | succ rounds ih =>
    set r := keyCleanRound w dtor t sys (List.range bionicPthreadKeyCount)
    by_cases hzero : r.2.length = 0
    · -- no destructor ran: the round is the last
      have heq : pthreadKeyCleanAllRounds w dtor t (rounds + 1) sys = r := by
        simp only [pthreadKeyCleanAllRounds]
        rw [if_pos hzero]
      rw [heq] at hcount ⊢
      obtain ⟨h1, h2, h3⟩ := keyCleanRound_simulates w dtor t _ hlt sys hinv hcount
      have hnil : r.2 = [] := List.eq_nil_of_length_eq_zero hzero
      rw [hnil] at h1 ⊢
      exact ⟨.last _ _ _ h1, h2, fun i ↦ by rw [h3 i, hnil]⟩
    · have heq : pthreadKeyCleanAllRounds w dtor t (rounds + 1) sys =
          ((pthreadKeyCleanAllRounds w dtor t rounds r.1).1,
            r.2 ++ (pthreadKeyCleanAllRounds w dtor t rounds r.1).2) := by
        simp only [pthreadKeyCleanAllRounds]
        rw [if_neg hzero]
      rw [heq] at hcount ⊢
      have hsplit : ∀ i < bionicPthreadKeyCount, sys.cycles i + destructorCreates i r.2 +
          destructorCreates i (pthreadKeyCleanAllRounds w dtor t rounds r.1).2 < 2 ^ (w - 1) := by
        intro i hi
        have := hcount i hi
        rw [destructorCreates_append] at this
        omega
      obtain ⟨h1, h2, h3⟩ := keyCleanRound_simulates w dtor t _ hlt sys hinv (budget_first hsplit)
      obtain ⟨g1, g2, g3⟩ := ih r.1 h2 (budget_rest hsplit h3)
      refine ⟨.more _ _ _ _ _ _ h1 (fun h ↦ hzero (by rw [h]; rfl)) g1, g2, fun i ↦ ?_⟩
      rw [g3 i, h3 i, destructorCreates_append]
      exact Nat.add_assoc _ _ _

/-! ### Runs -/

/-- Every call is a POSIX step from the state the implementation stands for, and keeps the
invariant; the slots' creations count the call's own, those of destructors included. -/
theorem keyStep_simulates (hinv : sys.Inv) (c : KeyCall τ)
    (hcount : ∀ i < bionicPthreadKeyCount,
      sys.cycles i + (keyStep w dtor c sys).2.creates i < 2 ^ (w - 1)) :
    PosixStep dtor sys.toPosix c (keyStep w dtor c sys).2 (keyStep w dtor c sys).1.toPosix ∧
      (keyStep w dtor c sys).1.Inv ∧
      ∀ i, (keyStep w dtor c sys).1.cycles i = sys.cycles i + (keyStep w dtor c sys).2.creates i := by
  cases c with
  | call t op =>
    obtain ⟨h1, h2, h3⟩ := keyOpStep_simulates w hinv t op hcount
    exact ⟨.call _ _ _ _ _ h1, h2, h3⟩
  | cleanAll t =>
    obtain ⟨h1, h2, h3⟩ := pthreadKeyCleanAllRounds_simulates w dtor t _ sys hinv hcount
    exact ⟨.cleanAll _ _ _ _ h1, h2, h3⟩

/-- A run from a state the invariant holds in is a POSIX trace, while no slot is created
`2 ^ (w - 1)` times or more in all. -/
theorem keyRun_simulates (sys : KeySystem τ) (hinv : sys.Inv) (calls : List (KeyCall τ))
    (hcount : ∀ i < bionicPthreadKeyCount,
      sys.cycles i + creates i (keyRun w dtor sys calls) < 2 ^ (w - 1)) :
    PosixTrace dtor sys.toPosix (keyRun w dtor sys calls) := by
  induction calls generalizing sys with
  | nil => exact .nil _
  | cons c cs ih =>
    -- the creations of the rest of the run come after this call's
    have hsplit : ∀ i < bionicPthreadKeyCount, sys.cycles i + (keyStep w dtor c sys).2.creates i +
        creates i (keyRun w dtor (keyStep w dtor c sys).1 cs) < 2 ^ (w - 1) := by
      intro i hi
      have := hcount i hi
      rw [keyRun, creates_cons] at this
      omega
    obtain ⟨hposix, hinv', hcnt⟩ := keyStep_simulates w dtor hinv c (budget_first hsplit)
    exact .cons _ c _ _ _ hposix (ih _ hinv' (budget_rest hsplit hcnt))

omit [DecidableEq τ] in
theorem toPosix_keyInit : (keyInit : KeySystem τ).toPosix = PosixKeys.empty := by
  refine PosixKeys.ext (funext fun i ↦ ?_) rfl (funext fun t ↦ funext fun i ↦ ?_) <;>
    simp [KeySystem.toPosix, keyInit, PosixKeys.empty, seqOfKeyInUse]

theorem keyRun_refines_posix (calls : List (KeyCall τ))
    (hcycles : ∀ i < bionicPthreadKeyCount, creates i (keyRun w dtor keyInit calls) < 2 ^ (w - 1)) :
    PosixTrace dtor PosixKeys.empty (keyRun w dtor keyInit calls) := by
  rw [← toPosix_keyInit]
  exact keyRun_simulates w dtor keyInit (fun _ _ ↦ Nat.le_refl _) calls fun i hi ↦ by
    simpa [KeySystem.cycles, keyInit] using hcycles i hi

/-- The number of results a trace records, those of the key functions destructors call
included. -/
def resultCount (trace : List (KeyCall τ × KeyResult)) : ℕ :=
  (trace.map fun cr ↦ match cr.2 with
    | .op _ => 1
    | .destructed calls => (calls.map (·.results.length)).sum).sum

omit [DecidableEq τ] in
theorem creates_le_resultCount (i : ℕ) (trace : List (KeyCall τ × KeyResult)) :
    creates i trace ≤ resultCount trace := by
  have hop : ∀ r : OpResult, r.creates i ≤ 1 := fun r ↦ by
    cases r with
    | created key => simp only [OpResult.creates]; split_ifs <;> omega
    | status _ | value _ => exact Nat.zero_le 1
  have hof : ∀ rs : List OpResult, createsOf i rs ≤ rs.length := fun rs ↦ by
    induction rs with
    | nil => rfl
    | cons r rs ih =>
      rw [createsOf_cons, List.length_cons]
      have := hop r
      omega
  induction trace with
  | nil => rfl
  | cons cr rest ih =>
    obtain ⟨c, r⟩ := cr
    rw [creates_cons, resultCount, List.map_cons, List.sum_cons, ← resultCount]
    refine Nat.add_le_add ?_ ih
    cases r with
    | op r => exact hop r
    | destructed calls =>
      show destructorCreates i calls ≤ (calls.map (·.results.length)).sum
      induction calls with
      | nil => rfl
      | cons call calls ihc =>
        rw [destructorCreates_cons, List.map_cons, List.sum_cons]
        exact Nat.add_le_add (hof call.results) ihc

/-- The keys in slots 0 and 1. -/
def keySlotZero : PthreadKey := PthreadKey.ofInt (0 + keyValidFlag)

def keySlotOne : PthreadKey := PthreadKey.ofInt (1 + keyValidFlag)

/-- Destructor 7 deletes the key in slot 1, creates a key, which takes slot 1 again, and stores a
value under the key in slot 0 once more; no other destructor calls a key function. -/
def keySampleDestructors : ℕ → ℕ → List KeyOp
  | 7, _ => [.delete keySlotOne, .create 9, .setspecific keySlotZero 6]
  | _, _ => []

/-- A thread stores values under two keys, and exits. -/
def keySampleCalls : List (KeyCall Unit) :=
  [.call () (.create 7), .call () (.create 8), .call () (.setspecific keySlotZero 5),
    .call () (.setspecific keySlotOne 4), .cleanAll ()]

-- the value under the deleted key reaches no destructor, and destructor 7 runs in every round
example : (keyRun 64 keySampleDestructors keyInit keySampleCalls).map Prod.snd =
    [.op (.created keySlotZero), .op (.created keySlotOne), .op (.status 0), .op (.status 0),
      .destructed ([5, 6, 6, 6].map fun v ↦
        ⟨7, v, [.status 0, .created keySlotOne, .status 0]⟩)] := by
  decide

theorem keyRun_refines_posix_sample :
    (∀ i < bionicPthreadKeyCount,
      creates i (keyRun 64 keySampleDestructors keyInit keySampleCalls) < 2 ^ (64 - 1)) ∧
      PosixTrace keySampleDestructors PosixKeys.empty
        (keyRun 64 keySampleDestructors keyInit keySampleCalls) :=
  have hcycles : ∀ i < bionicPthreadKeyCount,
      creates i (keyRun 64 keySampleDestructors keyInit keySampleCalls) < 2 ^ (64 - 1) :=
    fun i _ ↦ Nat.lt_of_le_of_lt (creates_le_resultCount i _) (by decide)
  ⟨hcycles, keyRun_refines_posix 64 keySampleDestructors keySampleCalls hcycles⟩

end Bionic.Pthread
