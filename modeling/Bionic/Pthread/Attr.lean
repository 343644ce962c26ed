import Bionic.Lib.BitField
import Bionic.Errno

/-!
# The attribute objects of mutexes, condition variables, rwlocks and barriers

Each attribute object is one integer with its fields packed in bits: `pthread_mutexattr_t`,
`pthread_condattr_t` and `pthread_rwlockattr_t` are a `long`, `pthread_barrierattr_t` an `int`.
A setter checks its argument, returns `EINVAL` without touching the object if it is not one the
headers name, and otherwise writes its field; a getter reads a field back.

The setters of `pthread_mutexattr_t`, `pthread_rwlockattr_t` and `pthread_barrierattr_t` clear
their field before they write it, so after any sequence of calls from `init` each getter returns
the argument of the last call of its own setter, or the default (`pthreadMutexattr_lastWrite`,
`pthreadRwlockattr_lastWrite`, `pthreadBarrierattr_lastWrite`). The step lemmas say what one call
does to each field; `Bionic.Lib.BitField.foldl_lastWrite` carries them over a whole run.

The setters of `pthread_condattr_t` only OR their argument in: once a call has set the shared
flag or the clock to `CLOCK_MONOTONIC`, a later call asking for `PTHREAD_PROCESS_PRIVATE` or
`CLOCK_REALTIME` returns 0 and changes nothing (`pthreadCondattr_set_keeps_set_bits`); each
getter returns whether any call set its bit (`pthreadCondattr_sticky`), and `pthread_cond_init`
copies both bits into the condition variable, where `process_shared()` and
`use_realtime_clock()` read what the getters read.

`destroy` is not modelled: it writes a value no setter or getter is meant to see.
-/

set_option autoImplicit false
set_option relaxedAutoImplicit false

namespace Bionic.Pthread.Attr

open Bionic.Lib.BitField

/-- The width of `long`: 64 bits on LP64, 32 on ILP32. -/
def longBits (lp64 : Bool) : ℕ := if lp64 then 64 else 32

/-! ### Constants of `pthread.h` and `linux/time.h` -/

/-- `PTHREAD_PROCESS_PRIVATE`. -/
def pthreadProcessPrivate : ℤ := 0

/-- `PTHREAD_PROCESS_SHARED`. -/
def pthreadProcessShared : ℤ := 1

/-- `PTHREAD_MUTEX_NORMAL`. -/
def pthreadMutexNormal : ℤ := 0

/-- `PTHREAD_MUTEX_ERRORCHECK`, the last of the mutex types. -/
def pthreadMutexErrorcheck : ℤ := 2

/-- `PTHREAD_MUTEX_DEFAULT`. -/
def pthreadMutexDefault : ℤ := pthreadMutexNormal

/-- `PTHREAD_PRIO_NONE`. -/
def pthreadPrioNone : ℤ := 0

/-- `PTHREAD_PRIO_INHERIT`. -/
def pthreadPrioInherit : ℤ := 1

/-- `CLOCK_REALTIME`. -/
def clockRealtime : ℤ := 0

/-- `CLOCK_MONOTONIC`. -/
def clockMonotonic : ℤ := 1

/-- `PTHREAD_RWLOCK_PREFER_READER_NP`. -/
def pthreadRwlockPreferReaderNp : ℤ := 0

/-- `PTHREAD_RWLOCK_PREFER_WRITER_NONRECURSIVE_NP`. -/
def pthreadRwlockPreferWriterNonrecursiveNp : ℤ := 1

/-- A sequence of setter calls on an attribute object, their returns dropped. -/
def runSetters {β γ : Type} (call : γ → β → ℤ × β) (attr : β) (calls : List γ) : β :=
  calls.foldl (fun a c ↦ (call c a).2) attr

theorem read_runSetters {β γ δ : Type} (call : γ → β → ℤ × β) (read : β → δ)
    (write : γ → Option δ) (hstep : ∀ attr c, read (call c attr).2 = (write c).getD (read attr))
    (attr : β) (calls : List γ) :
    read (runSetters call attr calls) = lastWrite write (read attr) calls :=
  foldl_lastWrite write _ read (fun a c ↦ hstep a c) attr calls

/-! ### `pthread_mutexattr_t` -/

section Mutexattr

variable {lp64 : Bool}

/-- `MUTEXATTR_TYPE_MASK`. -/
def mutexattrTypeMask : BitVec (longBits lp64) := 0x000f

/-- `MUTEXATTR_SHARED_MASK`. -/
def mutexattrSharedMask : BitVec (longBits lp64) := 0x0010

/-- `MUTEXATTR_PROTOCOL_MASK`. -/
def mutexattrProtocolMask : BitVec (longBits lp64) := 0x0020

/-- `MUTEXATTR_PROTOCOL_SHIFT`. -/
def mutexattrProtocolShift : ℕ := 5

/-- `pthread_mutexattr_init`. -/
def pthreadMutexattrInit (lp64 : Bool) : BitVec (longBits lp64) :=
  BitVec.ofInt _ pthreadMutexDefault

/-- `pthread_mutexattr_gettype`: the type, or `EINVAL` for bits that name none. -/
def pthreadMutexattrGettype (attr : BitVec (longBits lp64)) : Except ℤ ℤ :=
  let type : ℤ := (attr &&& mutexattrTypeMask).toNat
  if type < pthreadMutexNormal ∨ type > pthreadMutexErrorcheck then .error einval else .ok type

/-- `pthread_mutexattr_settype`: its return and the object after it. -/
def pthreadMutexattrSettype (attr : BitVec (longBits lp64)) (type : ℤ) :
    ℤ × BitVec (longBits lp64) :=
  if type < pthreadMutexNormal ∨ type > pthreadMutexErrorcheck then (einval, attr)
  else (0, setField mutexattrTypeMask 0 attr (BitVec.ofInt _ type))

/-- `pthread_mutexattr_setpshared`. -/
def pthreadMutexattrSetpshared (attr : BitVec (longBits lp64)) (pshared : ℤ) :
    ℤ × BitVec (longBits lp64) :=
  if pshared = pthreadProcessPrivate then (0, attr &&& ~~~mutexattrSharedMask)
  else if pshared = pthreadProcessShared then (0, attr ||| mutexattrSharedMask)
  else (einval, attr)

/-- `pthread_mutexattr_getpshared`. -/
def pthreadMutexattrGetpshared (attr : BitVec (longBits lp64)) : ℤ :=
  if attr &&& mutexattrSharedMask ≠ 0 then pthreadProcessShared else pthreadProcessPrivate

/-- `pthread_mutexattr_setprotocol`; the `int` shift of a protocol it accepts fits a `long`. -/
def pthreadMutexattrSetprotocol (attr : BitVec (longBits lp64)) (protocol : ℤ) :
    ℤ × BitVec (longBits lp64) :=
  if protocol ≠ pthreadPrioNone ∧ protocol ≠ pthreadPrioInherit then (einval, attr)
  else (0, setField mutexattrProtocolMask mutexattrProtocolShift attr (BitVec.ofInt _ protocol))

/-- `pthread_mutexattr_getprotocol`. -/
def pthreadMutexattrGetprotocol (attr : BitVec (longBits lp64)) : ℤ :=
  (field mutexattrProtocolMask mutexattrProtocolShift attr).toNat

/-- A call of a setter of `pthread_mutexattr_t`, with its argument. -/
inductive MutexattrCall where
  | settype (type : ℤ)
  | setpshared (pshared : ℤ)
  | setprotocol (protocol : ℤ)
  deriving DecidableEq, Repr

/-- The setter a call makes. -/
def MutexattrCall.call : MutexattrCall → BitVec (longBits lp64) → ℤ × BitVec (longBits lp64)
  | .settype type, attr => pthreadMutexattrSettype attr type
  | .setpshared pshared, attr => pthreadMutexattrSetpshared attr pshared
  | .setprotocol protocol, attr => pthreadMutexattrSetprotocol attr protocol

/-- The type a call sets: `settype` with one of the three types. -/
def MutexattrCall.typeWrite : MutexattrCall → Option ℤ
  | .settype type => if pthreadMutexNormal ≤ type ∧ type ≤ pthreadMutexErrorcheck then some type else none
  | _ => none

/-- The sharing a call sets: `setpshared` with `PTHREAD_PROCESS_PRIVATE` or `…_SHARED`. -/
def MutexattrCall.psharedWrite : MutexattrCall → Option ℤ
  | .setpshared p => if p = pthreadProcessPrivate ∨ p = pthreadProcessShared then some p else none
  | _ => none

/-- The protocol a call sets: `setprotocol` with `PTHREAD_PRIO_NONE` or `…_INHERIT`. -/
def MutexattrCall.protocolWrite : MutexattrCall → Option ℤ
  | .setprotocol p => if p = pthreadPrioNone ∨ p = pthreadPrioInherit then some p else none
  | _ => none

/-! Each getter reads only the bits of its own mask. -/

theorem pthreadMutexattrGettype_congr {x y : BitVec (longBits lp64)}
    (h : x &&& mutexattrTypeMask = y &&& mutexattrTypeMask) :
    pthreadMutexattrGettype x = pthreadMutexattrGettype y := by
  simp only [pthreadMutexattrGettype, h]

theorem pthreadMutexattrGetpshared_congr {x y : BitVec (longBits lp64)}
    (h : x &&& mutexattrSharedMask = y &&& mutexattrSharedMask) :
    pthreadMutexattrGetpshared x = pthreadMutexattrGetpshared y := by
  simp only [pthreadMutexattrGetpshared, h]

theorem pthreadMutexattrGetprotocol_congr {x y : BitVec (longBits lp64)}
    (h : x &&& mutexattrProtocolMask = y &&& mutexattrProtocolMask) :
    pthreadMutexattrGetprotocol x = pthreadMutexattrGetprotocol y := by
  simp only [pthreadMutexattrGetprotocol, field, h]

/-! The three masks do not overlap, and each value a setter accepts fits its mask, at both
widths of `long`. -/

theorem mutexattrTypeMask_disjoint (lp64 : Bool) :
    (mutexattrTypeMask : BitVec (longBits lp64)) &&& mutexattrSharedMask = 0 ∧
      (mutexattrTypeMask : BitVec (longBits lp64)) &&& mutexattrProtocolMask = 0 := by
  cases lp64 <;> decide

theorem mutexattrSharedMask_disjoint (lp64 : Bool) :
    (mutexattrSharedMask : BitVec (longBits lp64)) &&& mutexattrTypeMask = 0 ∧
      (mutexattrSharedMask : BitVec (longBits lp64)) &&& mutexattrProtocolMask = 0 := by
  cases lp64 <;> decide

theorem mutexattrProtocolMask_disjoint (lp64 : Bool) :
    (mutexattrProtocolMask : BitVec (longBits lp64)) &&& mutexattrTypeMask = 0 ∧
      (mutexattrProtocolMask : BitVec (longBits lp64)) &&& mutexattrSharedMask = 0 := by
  cases lp64 <;> decide

theorem mutexattrType_fits (lp64 : Bool) (type : ℤ) (h : 0 ≤ type ∧ type ≤ 2) :
    BitVec.ofInt (longBits lp64) type <<< 0 &&& mutexattrTypeMask =
        BitVec.ofInt (longBits lp64) type <<< 0 ∧
      pthreadMutexattrGettype (BitVec.ofInt (longBits lp64) type <<< 0) = .ok type := by
  obtain rfl | rfl | rfl : type = 0 ∨ type = 1 ∨ type = 2 := by omega
  all_goals cases lp64 <;> decide

theorem mutexattrShared_fits (lp64 : Bool) {v : BitVec (longBits lp64)} (h : v = 0 ∨ v = 1) :
    v <<< 4 &&& mutexattrSharedMask = v <<< 4 ∧
      pthreadMutexattrGetpshared (v <<< 4) = if v = 1 then pthreadProcessShared else pthreadProcessPrivate := by
  obtain rfl | rfl := h
  all_goals cases lp64 <;> decide

theorem mutexattrProtocol_fits (lp64 : Bool) (protocol : ℤ) (h : protocol = 0 ∨ protocol = 1) :
    BitVec.ofInt (longBits lp64) protocol <<< mutexattrProtocolShift &&& mutexattrProtocolMask =
        BitVec.ofInt (longBits lp64) protocol <<< mutexattrProtocolShift ∧
      (BitVec.ofInt (longBits lp64) protocol <<< mutexattrProtocolShift) >>> mutexattrProtocolShift =
        BitVec.ofInt (longBits lp64) protocol ∧
      ((BitVec.ofInt (longBits lp64) protocol).toNat : ℤ) = protocol := by
  obtain rfl | rfl := h
  all_goals cases lp64 <;> decide

theorem pthreadMutexattrSetpshared_eq (attr : BitVec (longBits lp64)) (pshared : ℤ) :
    pthreadMutexattrSetpshared attr pshared =
      if pshared = pthreadProcessPrivate then (0, setField mutexattrSharedMask 4 attr 0)
      else if pshared = pthreadProcessShared then (0, setField mutexattrSharedMask 4 attr 1)
      else (einval, attr) := by
  have hone : (1 : BitVec (longBits lp64)) <<< 4 = mutexattrSharedMask := by cases lp64 <;> decide
  rw [pthreadMutexattrSetpshared, and_not_eq_setField _ 4, or_eq_setField hone]

theorem pthreadMutexattrSettype_fields (attr : BitVec (longBits lp64)) {type : ℤ}
    (htype : pthreadMutexNormal ≤ type ∧ type ≤ pthreadMutexErrorcheck) :
    let attr' := (pthreadMutexattrSettype attr type).2
    pthreadMutexattrGettype attr' = .ok type ∧
      pthreadMutexattrGetpshared attr' = pthreadMutexattrGetpshared attr ∧
      pthreadMutexattrGetprotocol attr' = pthreadMutexattrGetprotocol attr := by
  have hvalid : ¬(type < pthreadMutexNormal ∨ type > pthreadMutexErrorcheck) := by omega
  obtain ⟨hin, hread⟩ := mutexattrType_fits lp64 type (by
    simpa [pthreadMutexNormal, pthreadMutexErrorcheck] using htype)
  obtain ⟨hts, htp⟩ := mutexattrTypeMask_disjoint lp64
  simp only [pthreadMutexattrSettype, if_neg hvalid]
  exact ⟨(pthreadMutexattrGettype_congr ((setField_and_self hin attr).trans hin.symm)).trans hread,
    pthreadMutexattrGetpshared_congr (setField_and_of_disjoint hts hin attr),
    pthreadMutexattrGetprotocol_congr (setField_and_of_disjoint htp hin attr)⟩

theorem pthreadMutexattrSetpshared_fields (attr : BitVec (longBits lp64)) {pshared : ℤ}
    (hpshared : pshared = pthreadProcessPrivate ∨ pshared = pthreadProcessShared) :
    let attr' := (pthreadMutexattrSetpshared attr pshared).2
    pthreadMutexattrGettype attr' = pthreadMutexattrGettype attr ∧
      pthreadMutexattrGetpshared attr' = pshared ∧
      pthreadMutexattrGetprotocol attr' = pthreadMutexattrGetprotocol attr := by
  obtain ⟨hst, hsp⟩ := mutexattrSharedMask_disjoint lp64
  -- both branches set the one-bit field, to 0 or to 1
  have hset : ∀ v : BitVec (longBits lp64), (v = 0 ∨ v = 1) →
      pthreadMutexattrGettype (setField mutexattrSharedMask 4 attr v) = pthreadMutexattrGettype attr ∧
        pthreadMutexattrGetpshared (setField mutexattrSharedMask 4 attr v) =
          (if v = 1 then pthreadProcessShared else pthreadProcessPrivate) ∧
        pthreadMutexattrGetprotocol (setField mutexattrSharedMask 4 attr v) =
          pthreadMutexattrGetprotocol attr := by
    intro v hv
    obtain ⟨hin, hread⟩ := mutexattrShared_fits lp64 hv
    exact ⟨pthreadMutexattrGettype_congr (setField_and_of_disjoint hst hin attr),
      (pthreadMutexattrGetpshared_congr ((setField_and_self hin attr).trans hin.symm)).trans hread,
      pthreadMutexattrGetprotocol_congr (setField_and_of_disjoint hsp hin attr)⟩
  have hw : longBits lp64 ≠ 0 := by cases lp64 <;> decide
  rw [pthreadMutexattrSetpshared_eq]
  rcases hpshared with rfl | rfl
  · simpa [hw] using hset 0 (.inl rfl)
  · simpa [pthreadProcessPrivate, pthreadProcessShared] using hset 1 (.inr rfl)

theorem pthreadMutexattrSetprotocol_fields (attr : BitVec (longBits lp64)) {protocol : ℤ}
    (hprotocol : protocol = pthreadPrioNone ∨ protocol = pthreadPrioInherit) :
    let attr' := (pthreadMutexattrSetprotocol attr protocol).2
    pthreadMutexattrGettype attr' = pthreadMutexattrGettype attr ∧
      pthreadMutexattrGetpshared attr' = pthreadMutexattrGetpshared attr ∧
      pthreadMutexattrGetprotocol attr' = protocol := by
  have hvalid : ¬(protocol ≠ pthreadPrioNone ∧ protocol ≠ pthreadPrioInherit) := by tauto
  obtain ⟨hin, hlost, hread⟩ := mutexattrProtocol_fits lp64 protocol hprotocol
  obtain ⟨hpt, hps⟩ := mutexattrProtocolMask_disjoint lp64
  simp only [pthreadMutexattrSetprotocol, if_neg hvalid]
  refine ⟨pthreadMutexattrGettype_congr (setField_and_of_disjoint hpt hin attr),
    pthreadMutexattrGetpshared_congr (setField_and_of_disjoint hps hin attr), ?_⟩
  rw [pthreadMutexattrGetprotocol, field_setField_self hin hlost, hread]

/-- What one call does to the three fields: the field of its own setter takes the value
written, if the setter accepts it, and every other field is kept. -/
theorem MutexattrCall.call_fields (c : MutexattrCall) (attr : BitVec (longBits lp64)) :
    let attr' := (c.call attr).2
    pthreadMutexattrGettype attr' = (c.typeWrite.map .ok).getD (pthreadMutexattrGettype attr) ∧
      pthreadMutexattrGetpshared attr' = c.psharedWrite.getD (pthreadMutexattrGetpshared attr) ∧
      pthreadMutexattrGetprotocol attr' = c.protocolWrite.getD (pthreadMutexattrGetprotocol attr) := by
  cases c with
  | settype type =>
    by_cases h : pthreadMutexNormal ≤ type ∧ type ≤ pthreadMutexErrorcheck
    · simpa [call, typeWrite, psharedWrite, protocolWrite, h] using
        pthreadMutexattrSettype_fields attr h
    · have hrefused : type < pthreadMutexNormal ∨ type > pthreadMutexErrorcheck := by omega
      simp [call, typeWrite, psharedWrite, protocolWrite, h, pthreadMutexattrSettype, hrefused]
  | setpshared pshared =>
    by_cases h : pshared = pthreadProcessPrivate ∨ pshared = pthreadProcessShared
    · simpa [call, typeWrite, psharedWrite, protocolWrite, h] using
        pthreadMutexattrSetpshared_fields attr h
    · simp only [not_or] at h
      simp [call, typeWrite, psharedWrite, protocolWrite, pthreadMutexattrSetpshared, h]
  | setprotocol protocol =>
    by_cases h : protocol = pthreadPrioNone ∨ protocol = pthreadPrioInherit
    · simpa [call, typeWrite, psharedWrite, protocolWrite, h] using
        pthreadMutexattrSetprotocol_fields attr h
    · simp only [not_or] at h
      simp [call, typeWrite, psharedWrite, protocolWrite, pthreadMutexattrSetprotocol, h]

theorem MutexattrCall.call_of_ne_zero (c : MutexattrCall) (attr : BitVec (longBits lp64))
    (h : (c.call attr).1 ≠ 0) : (c.call attr).2 = attr := by
  cases c <;>
    simp only [call, pthreadMutexattrSettype, pthreadMutexattrSetpshared,
      pthreadMutexattrSetprotocol] at h ⊢ <;>
    split_ifs at h ⊢ <;> simp_all

end Mutexattr

/-- After `pthread_mutexattr_init` and any sequence of setter calls, each getter returns the
argument of the last call of its own setter that it accepted, or the default; a call that
returns an error changes nothing. -/
theorem pthreadMutexattr_lastWrite (lp64 : Bool) (calls : List MutexattrCall) :
    let attr := runSetters MutexattrCall.call (pthreadMutexattrInit lp64) calls
    pthreadMutexattrGettype attr = .ok (lastWrite MutexattrCall.typeWrite pthreadMutexDefault calls) ∧
      pthreadMutexattrGetpshared attr =
        lastWrite MutexattrCall.psharedWrite pthreadProcessPrivate calls ∧
      pthreadMutexattrGetprotocol attr = lastWrite MutexattrCall.protocolWrite pthreadPrioNone calls ∧
      ∀ (c : MutexattrCall) (a : BitVec (longBits lp64)), (c.call a).1 ≠ 0 → (c.call a).2 = a := by
  -- the three fields of `init`
  have hinit : pthreadMutexattrGettype (pthreadMutexattrInit lp64) = .ok pthreadMutexDefault ∧
      pthreadMutexattrGetpshared (pthreadMutexattrInit lp64) = pthreadProcessPrivate ∧
      pthreadMutexattrGetprotocol (pthreadMutexattrInit lp64) = pthreadPrioNone := by
    cases lp64 <;> decide
  refine ⟨?_, ?_, ?_, MutexattrCall.call_of_ne_zero⟩
  · rw [read_runSetters MutexattrCall.call pthreadMutexattrGettype _
      (fun a c ↦ (MutexattrCall.call_fields c a).1), hinit.1, lastWrite_map]
  · rw [read_runSetters MutexattrCall.call pthreadMutexattrGetpshared _
      (fun a c ↦ (MutexattrCall.call_fields c a).2.1), hinit.2.1]
  · rw [read_runSetters MutexattrCall.call pthreadMutexattrGetprotocol _
      (fun a c ↦ (MutexattrCall.call_fields c a).2.2), hinit.2.2]

/-! ### `pthread_rwlockattr_t` -/

section Rwlockattr

variable {lp64 : Bool}

/-- `RWLOCKATTR_PSHARED_SHIFT`. -/
def rwlockattrPsharedShift : ℕ := 0

/-- `RWLOCKATTR_KIND_SHIFT`. -/
def rwlockattrKindShift : ℕ := 1

/-- `RWLOCKATTR_PSHARED_MASK`. -/
def rwlockattrPsharedMask : BitVec (longBits lp64) := 1

/-- `RWLOCKATTR_KIND_MASK`. -/
def rwlockattrKindMask : BitVec (longBits lp64) := 2

/-- `__rwlockattr_getpshared`, a `bool`. -/
def rwlockattrGetpshared (attr : BitVec (longBits lp64)) : Bool :=
  field rwlockattrPsharedMask rwlockattrPsharedShift attr ≠ 0

/-- `__rwlockattr_setpshared`; the `int` shift of the 0 or 1 it is given fits a `long`. -/
def rwlockattrSetpshared (attr : BitVec (longBits lp64)) (pshared : ℤ) : BitVec (longBits lp64) :=
  setField rwlockattrPsharedMask rwlockattrPsharedShift attr (BitVec.ofInt _ pshared)

/-- `__rwlockattr_getkind`. -/
def rwlockattrGetkind (attr : BitVec (longBits lp64)) : ℤ :=
  (field rwlockattrKindMask rwlockattrKindShift attr).toNat

/-- `__rwlockattr_setkind`; the `int` shift of a kind it is given fits a `long`. -/
def rwlockattrSetkind (attr : BitVec (longBits lp64)) (kind : ℤ) : BitVec (longBits lp64) :=
  setField rwlockattrKindMask rwlockattrKindShift attr (BitVec.ofInt _ kind)

/-- `pthread_rwlockattr_init`. -/
def pthreadRwlockattrInit (lp64 : Bool) : BitVec (longBits lp64) := 0

/-- `pthread_rwlockattr_getpshared`. -/
def pthreadRwlockattrGetpshared (attr : BitVec (longBits lp64)) : ℤ :=
  if rwlockattrGetpshared attr then pthreadProcessShared else pthreadProcessPrivate

/-- `pthread_rwlockattr_setpshared`. -/
def pthreadRwlockattrSetpshared (attr : BitVec (longBits lp64)) (pshared : ℤ) :
    ℤ × BitVec (longBits lp64) :=
  if pshared = pthreadProcessPrivate then (0, rwlockattrSetpshared attr 0)
  else if pshared = pthreadProcessShared then (0, rwlockattrSetpshared attr 1)
  else (einval, attr)

/-- `pthread_rwlockattr_getkind_np`. -/
def pthreadRwlockattrGetkindNp (attr : BitVec (longBits lp64)) : ℤ := rwlockattrGetkind attr

/-- `pthread_rwlockattr_setkind_np`: the two preferences share one case. -/
def pthreadRwlockattrSetkindNp (attr : BitVec (longBits lp64)) (pref : ℤ) :
    ℤ × BitVec (longBits lp64) :=
  if pref = pthreadRwlockPreferReaderNp ∨ pref = pthreadRwlockPreferWriterNonrecursiveNp then
    (0, rwlockattrSetkind attr pref)
  else (einval, attr)

/-- A call of a setter of `pthread_rwlockattr_t`, with its argument. -/
inductive RwlockattrCall where
  | setpshared (pshared : ℤ)
  | setkindNp (pref : ℤ)
  deriving DecidableEq, Repr

/-- The setter a call makes. -/
def RwlockattrCall.call : RwlockattrCall → BitVec (longBits lp64) → ℤ × BitVec (longBits lp64)
  | .setpshared pshared, attr => pthreadRwlockattrSetpshared attr pshared
  | .setkindNp pref, attr => pthreadRwlockattrSetkindNp attr pref

/-- The sharing a call sets: `setpshared` with `PTHREAD_PROCESS_PRIVATE` or `…_SHARED`. -/
def RwlockattrCall.psharedWrite : RwlockattrCall → Option ℤ
  | .setpshared p => if p = pthreadProcessPrivate ∨ p = pthreadProcessShared then some p else none
  | _ => none

/-- The preference a call sets: `setkind_np` with one of the two preferences. -/
def RwlockattrCall.kindWrite : RwlockattrCall → Option ℤ
  | .setkindNp pref =>
    if pref = pthreadRwlockPreferReaderNp ∨ pref = pthreadRwlockPreferWriterNonrecursiveNp then
      some pref
    else none
  | _ => none

/-! The two masks do not overlap, and 0 and 1 fit each of them. -/

theorem rwlockattr_masks_disjoint (lp64 : Bool) :
    (rwlockattrPsharedMask : BitVec (longBits lp64)) &&& rwlockattrKindMask = 0 ∧
      (rwlockattrKindMask : BitVec (longBits lp64)) &&& rwlockattrPsharedMask = 0 := by
  cases lp64 <;> decide

theorem rwlockattr_fits (lp64 : Bool) {v : ℤ} (h : v = 0 ∨ v = 1) :
    (BitVec.ofInt (longBits lp64) v <<< rwlockattrPsharedShift &&& rwlockattrPsharedMask =
        BitVec.ofInt (longBits lp64) v <<< rwlockattrPsharedShift ∧
      (BitVec.ofInt (longBits lp64) v <<< rwlockattrPsharedShift) >>> rwlockattrPsharedShift =
        BitVec.ofInt (longBits lp64) v) ∧
    (BitVec.ofInt (longBits lp64) v <<< rwlockattrKindShift &&& rwlockattrKindMask =
        BitVec.ofInt (longBits lp64) v <<< rwlockattrKindShift ∧
      (BitVec.ofInt (longBits lp64) v <<< rwlockattrKindShift) >>> rwlockattrKindShift =
        BitVec.ofInt (longBits lp64) v) ∧
    ((BitVec.ofInt (longBits lp64) v).toNat : ℤ) = v := by
  obtain rfl | rfl := h
  all_goals cases lp64 <;> decide

theorem RwlockattrCall.call_fields (c : RwlockattrCall) (attr : BitVec (longBits lp64)) :
    let attr' := (c.call attr).2
    pthreadRwlockattrGetpshared attr' = c.psharedWrite.getD (pthreadRwlockattrGetpshared attr) ∧
      pthreadRwlockattrGetkindNp attr' = c.kindWrite.getD (pthreadRwlockattrGetkindNp attr) := by
  obtain ⟨hpk, hkp⟩ := rwlockattr_masks_disjoint lp64
  cases c with
  | setpshared pshared =>
    by_cases h : pshared = pthreadProcessPrivate ∨ pshared = pthreadProcessShared
    · -- the value stored is `pshared` itself, 0 or 1
      have hv : pthreadRwlockattrSetpshared attr pshared = (0, rwlockattrSetpshared attr pshared) := by
        rcases h with rfl | rfl <;> simp [pthreadRwlockattrSetpshared, pthreadProcessPrivate,
          pthreadProcessShared]
      obtain ⟨⟨hin, hlost⟩, -, -⟩ := rwlockattr_fits lp64 (v := pshared) (by
        simpa [pthreadProcessPrivate, pthreadProcessShared] using h)
      simp only [call, psharedWrite, kindWrite, hv, if_pos h, Option.getD_some, Option.getD_none]
      refine ⟨?_, ?_⟩
      · rw [pthreadRwlockattrGetpshared, rwlockattrGetpshared, rwlockattrSetpshared,
          field_setField_self hin hlost]
        rcases h with rfl | rfl <;> cases lp64 <;> decide
      · simp only [pthreadRwlockattrGetkindNp, rwlockattrGetkind, rwlockattrSetpshared,
          field_setField_of_disjoint hpk hin]
    · simp only [not_or] at h
      simp [call, psharedWrite, kindWrite, pthreadRwlockattrSetpshared, h]
  | setkindNp pref =>
    by_cases h : pref = pthreadRwlockPreferReaderNp ∨ pref = pthreadRwlockPreferWriterNonrecursiveNp
    · obtain ⟨-, ⟨hin, hlost⟩, hread⟩ := rwlockattr_fits lp64 (v := pref) (by
        simpa [pthreadRwlockPreferReaderNp, pthreadRwlockPreferWriterNonrecursiveNp] using h)
      simp only [call, psharedWrite, kindWrite, pthreadRwlockattrSetkindNp, if_pos h,
        Option.getD_some, Option.getD_none]
      refine ⟨?_, ?_⟩
      · simp only [pthreadRwlockattrGetpshared, rwlockattrGetpshared, rwlockattrSetkind,
          field_setField_of_disjoint hkp hin]
        rfl
      · rw [pthreadRwlockattrGetkindNp, rwlockattrGetkind, rwlockattrSetkind,
          field_setField_self hin hlost, hread]
    · simp [call, psharedWrite, kindWrite, pthreadRwlockattrSetkindNp, h]

theorem RwlockattrCall.call_of_ne_zero (c : RwlockattrCall) (attr : BitVec (longBits lp64))
    (h : (c.call attr).1 ≠ 0) : (c.call attr).2 = attr := by
  cases c <;>
    simp only [call, pthreadRwlockattrSetpshared, pthreadRwlockattrSetkindNp] at h ⊢ <;>
    split_ifs at h ⊢ <;> simp_all

end Rwlockattr

/-- After `pthread_rwlockattr_init` and any sequence of setter calls, each getter returns the
argument of the last call of its own setter that it accepted, or the default; a call that
returns an error changes nothing. -/
theorem pthreadRwlockattr_lastWrite (lp64 : Bool) (calls : List RwlockattrCall) :
    let attr := runSetters RwlockattrCall.call (pthreadRwlockattrInit lp64) calls
    pthreadRwlockattrGetpshared attr =
        lastWrite RwlockattrCall.psharedWrite pthreadProcessPrivate calls ∧
      pthreadRwlockattrGetkindNp attr =
        lastWrite RwlockattrCall.kindWrite pthreadRwlockPreferReaderNp calls ∧
      ∀ (c : RwlockattrCall) (a : BitVec (longBits lp64)), (c.call a).1 ≠ 0 → (c.call a).2 = a := by
  have hinit : pthreadRwlockattrGetpshared (pthreadRwlockattrInit lp64) = pthreadProcessPrivate ∧
      pthreadRwlockattrGetkindNp (pthreadRwlockattrInit lp64) = pthreadRwlockPreferReaderNp := by
    cases lp64 <;> decide
  refine ⟨?_, ?_, RwlockattrCall.call_of_ne_zero⟩
  · rw [read_runSetters RwlockattrCall.call pthreadRwlockattrGetpshared _
      (fun a c ↦ (RwlockattrCall.call_fields c a).1), hinit.1]
  · rw [read_runSetters RwlockattrCall.call pthreadRwlockattrGetkindNp _
      (fun a c ↦ (RwlockattrCall.call_fields c a).2), hinit.2]

/-! ### `pthread_barrierattr_t` -/

section Barrierattr

/-- `pthread_barrierattr_init`. -/
def pthreadBarrierattrInit : BitVec 32 := 0

/-- `pthread_barrierattr_getpshared`. -/
def pthreadBarrierattrGetpshared (attr : BitVec 32) : ℤ :=
  if attr &&& 1 ≠ 0 then pthreadProcessShared else pthreadProcessPrivate

/-- `pthread_barrierattr_setpshared`: it refuses nothing, and every value other than
`PTHREAD_PROCESS_SHARED` clears the bit. -/
def pthreadBarrierattrSetpshared (attr : BitVec 32) (pshared : ℤ) : ℤ × BitVec 32 :=
  if pshared = pthreadProcessShared then (0, attr ||| 1) else (0, attr &&& ~~~1)

/-- The sharing a call of `setpshared` sets. -/
def barrierattrPsharedWrite (pshared : ℤ) : Option ℤ :=
  some (if pshared = pthreadProcessShared then pthreadProcessShared else pthreadProcessPrivate)

theorem pthreadBarrierattrGetpshared_setpshared (attr : BitVec 32) (pshared : ℤ) :
    pthreadBarrierattrGetpshared (pthreadBarrierattrSetpshared attr pshared).2 =
      (barrierattrPsharedWrite pshared).getD (pthreadBarrierattrGetpshared attr) := by
  have hone : (1 : BitVec 32) <<< 0 = 1 := rfl
  by_cases h : pshared = pthreadProcessShared
  · rw [pthreadBarrierattrSetpshared, if_pos h, or_eq_setField hone, pthreadBarrierattrGetpshared,
      setField_and_self (by decide)]
    simp [barrierattrPsharedWrite, h]
  · rw [pthreadBarrierattrSetpshared, if_neg h, and_not_eq_setField _ 0,
      pthreadBarrierattrGetpshared, setField_and_self (by decide)]
    simp [barrierattrPsharedWrite, h]

end Barrierattr

/-- After `pthread_barrierattr_init` and any sequence of calls of `setpshared`, the getter
returns what the last call set: `PTHREAD_PROCESS_SHARED` if its argument was that, and
`PTHREAD_PROCESS_PRIVATE` for any other. -/
theorem pthreadBarrierattr_lastWrite (calls : List ℤ) :
    pthreadBarrierattrGetpshared
        (runSetters (fun p a ↦ pthreadBarrierattrSetpshared a p) pthreadBarrierattrInit calls) =
      lastWrite barrierattrPsharedWrite pthreadProcessPrivate calls := by
  rw [read_runSetters _ pthreadBarrierattrGetpshared _
    (fun a p ↦ pthreadBarrierattrGetpshared_setpshared a p)]
  rfl

/-! ### `pthread_condattr_t` and `pthread_cond_init` -/

section CondFlags

variable {w : ℕ}

/-- `COND_SHARED_MASK`. -/
def condSharedMask : BitVec w := 0x0001

/-- `COND_CLOCK_MASK`. -/
def condClockMask : BitVec w := 0x0002

/-- `COND_FLAGS_MASK`. -/
def condFlagsMask : BitVec w := condSharedMask ||| condClockMask

/-- `COND_IS_SHARED`. -/
def condIsShared (c : BitVec w) : Bool := c &&& condSharedMask ≠ 0

/-- `COND_GET_CLOCK`. -/
def condGetClock (c : BitVec w) : BitVec w := (c &&& condClockMask) >>> 1

/-- `COND_SET_CLOCK`; the `int` shift of the clock it is given fits the word. -/
def condSetClock (attr c : BitVec w) : BitVec w := attr ||| (c <<< 1)

/-! The two flags as numbers: bit 0 and bit 1 of the word. -/

theorem condIsShared_eq (hw : 2 ≤ w) (c : BitVec w) :
    condIsShared c = decide (c.toNat % 2 = 1) := by
  have hmask : (condSharedMask : BitVec w).toNat = 1 := by simp [condSharedMask]; omega
  simp only [condIsShared, ne_eq, ← BitVec.toNat_inj, BitVec.toNat_and, hmask, Nat.and_one_is_mod]
  by_cases h : c.toNat % 2 = 1 <;> simp [h]

theorem condGetClock_toNat (hw : 2 ≤ w) (c : BitVec w) :
    (condGetClock c).toNat = c.toNat / 2 % 2 := by
  have hmask : (condClockMask : BitVec w).toNat = 2 := by
    have : 2 < 2 ^ w := Nat.lt_of_lt_of_le (by decide) (Nat.pow_le_pow_right (by decide) hw)
    simp [condClockMask, Nat.mod_eq_of_lt this]
  rw [condGetClock, BitVec.toNat_ushiftRight, BitVec.toNat_and, hmask, Nat.shiftRight_and_distrib,
    Nat.shiftRight_eq_div_pow]
  simp [Nat.and_one_is_mod]

theorem condFlags_toNat (hw : 2 ≤ w) (c : BitVec w) : (c &&& condFlagsMask).toNat = c.toNat % 4 := by
  have hmask : (condFlagsMask : BitVec w).toNat = 2 ^ 2 - 1 := by
    have hle : 2 ^ 2 ≤ 2 ^ w := Nat.pow_le_pow_right (by decide) hw
    simp [condFlagsMask, condSharedMask, condClockMask, Nat.mod_eq_of_lt (by omega : 1 < 2 ^ w),
      Nat.mod_eq_of_lt (by omega : 2 < 2 ^ w)]
  rw [BitVec.toNat_and, hmask, Nat.and_two_pow_sub_one_eq_mod]

end CondFlags

theorem two_le_longBits (lp64 : Bool) : 2 ≤ longBits lp64 := by
  cases lp64 <;> decide

section Condattr

variable {lp64 : Bool}

/-- `pthread_condattr_init`. -/
def pthreadCondattrInit (lp64 : Bool) : BitVec (longBits lp64) :=
  ((0 : BitVec (longBits lp64)) ||| BitVec.ofInt _ pthreadProcessPrivate) |||
    (BitVec.ofInt _ clockRealtime <<< 1)

/-- `pthread_condattr_getpshared`: the `bool` of `COND_IS_SHARED` as an `int`. -/
def pthreadCondattrGetpshared (attr : BitVec (longBits lp64)) : ℤ :=
  if condIsShared attr then 1 else 0

/-- `pthread_condattr_setpshared`: the value accepted is ORed in. -/
def pthreadCondattrSetpshared (attr : BitVec (longBits lp64)) (pshared : ℤ) :
    ℤ × BitVec (longBits lp64) :=
  if pshared ≠ pthreadProcessShared ∧ pshared ≠ pthreadProcessPrivate then (einval, attr)
  else (0, attr ||| BitVec.ofInt _ pshared)

/-- `pthread_condattr_getclock`. -/
def pthreadCondattrGetclock (attr : BitVec (longBits lp64)) : ℤ := (condGetClock attr).toNat

/-- `pthread_condattr_setclock`. -/
def pthreadCondattrSetclock (attr : BitVec (longBits lp64)) (clock : ℤ) :
    ℤ × BitVec (longBits lp64) :=
  if clock ≠ clockMonotonic ∧ clock ≠ clockRealtime then (einval, attr)
  else (0, condSetClock attr (BitVec.ofInt _ clock))

/-- `pthread_cond_init`: the state of the condition variable, an `atomic_uint`, starts with the
flags of the attribute, or with none for `nullptr`. -/
def pthreadCondInit (attr : Option (BitVec (longBits lp64))) : BitVec 32 :=
  match attr with
  | some a => (a &&& condFlagsMask).setWidth 32
  | none => 0

/-- `pthread_cond_internal_t::process_shared`. -/
def processShared (state : BitVec 32) : Bool := condIsShared state

/-- `pthread_cond_internal_t::use_realtime_clock`. -/
def useRealtimeClock (state : BitVec 32) : Bool := (condGetClock state).toNat = clockRealtime

/-- A call of a setter of `pthread_condattr_t`, with its argument. -/
inductive CondattrCall where
  | setpshared (pshared : ℤ)
  | setclock (clock : ℤ)
  deriving DecidableEq, Repr

/-- The setter a call makes. -/
def CondattrCall.call : CondattrCall → BitVec (longBits lp64) → ℤ × BitVec (longBits lp64)
  | .setpshared pshared, attr => pthreadCondattrSetpshared attr pshared
  | .setclock clock, attr => pthreadCondattrSetclock attr clock

/-- What a call does to the shared flag: `setpshared(PTHREAD_PROCESS_SHARED)` sets it, and no
call clears it. -/
def CondattrCall.psharedSet : CondattrCall → Option ℤ
  | .setpshared p => if p = pthreadProcessShared then some pthreadProcessShared else none
  | _ => none

/-- What a call does to the clock: `setclock(CLOCK_MONOTONIC)` sets it, and no call sets it back
to `CLOCK_REALTIME`. -/
def CondattrCall.clockSet : CondattrCall → Option ℤ
  | .setclock c => if c = clockMonotonic then some clockMonotonic else none
  | _ => none

theorem CondattrCall.psharedSet_eq_some {c : CondattrCall} {v : ℤ} :
    c.psharedSet = some v ↔ c = .setpshared pthreadProcessShared ∧ v = pthreadProcessShared := by
  rcases c with p | _
  · by_cases h : p = pthreadProcessShared <;> simp [psharedSet, h, eq_comm]
  · simp [psharedSet]

theorem CondattrCall.clockSet_eq_some {c : CondattrCall} {v : ℤ} :
    c.clockSet = some v ↔ c = .setclock clockMonotonic ∧ v = clockMonotonic := by
  rcases c with _ | k
  · simp [clockSet]
  · by_cases h : k = clockMonotonic <;> simp [clockSet, h, eq_comm]

theorem CondattrCall.psharedSet_cases (c : CondattrCall) :
    c.psharedSet = none ∨ c.psharedSet = some pthreadProcessShared := by
  cases h : c.psharedSet with
  | none => exact .inl rfl
  | some v => exact .inr (by rw [(psharedSet_eq_some.1 h).2])

theorem CondattrCall.clockSet_cases (c : CondattrCall) :
    c.clockSet = none ∨ c.clockSet = some clockMonotonic := by
  cases h : c.clockSet with
  | none => exact .inl rfl
  | some v => exact .inr (by rw [(clockSet_eq_some.1 h).2])

/-! The two flags are fields of one bit each, and the values accepted are 0 and the bit. -/

theorem condattr_masks (lp64 : Bool) :
    let shared : BitVec (longBits lp64) := condSharedMask
    let clock : BitVec (longBits lp64) := condClockMask
    shared &&& clock = 0 ∧ clock &&& shared = 0 ∧
      (1 : BitVec (longBits lp64)) <<< 0 = shared ∧ (1 : BitVec (longBits lp64)) <<< 1 = clock ∧
      (1 : BitVec (longBits lp64)) <<< 0 &&& shared = (1 : BitVec (longBits lp64)) <<< 0 ∧
      (1 : BitVec (longBits lp64)) <<< 1 &&& clock = (1 : BitVec (longBits lp64)) <<< 1 ∧
      BitVec.ofInt (longBits lp64) pthreadProcessShared = shared ∧
      BitVec.ofInt (longBits lp64) pthreadProcessPrivate = 0 ∧
      BitVec.ofInt (longBits lp64) clockMonotonic <<< 1 = clock ∧
      BitVec.ofInt (longBits lp64) clockRealtime <<< 1 = 0 := by
  cases lp64 <;> decide

theorem condattr_or_sharedMask (attr : BitVec (longBits lp64)) :
    pthreadCondattrGetpshared (attr ||| condSharedMask) = pthreadProcessShared ∧
      pthreadCondattrGetclock (attr ||| condSharedMask) = pthreadCondattrGetclock attr := by
  obtain ⟨hsc, -, hs, -, hsin, -⟩ := condattr_masks lp64
  rw [or_eq_setField hs]
  refine ⟨?_, ?_⟩
  · rw [pthreadCondattrGetpshared, condIsShared, setField_and_self hsin]
    cases lp64 <;> decide
  · rw [pthreadCondattrGetclock, pthreadCondattrGetclock, condGetClock, condGetClock,
      setField_and_of_disjoint hsc hsin]

theorem condattr_or_clockMask (attr : BitVec (longBits lp64)) :
    pthreadCondattrGetpshared (attr ||| condClockMask) = pthreadCondattrGetpshared attr ∧
      pthreadCondattrGetclock (attr ||| condClockMask) = clockMonotonic := by
  obtain ⟨-, hcs, -, hc, -, hcin, -⟩ := condattr_masks lp64
  rw [or_eq_setField hc]
  refine ⟨?_, ?_⟩
  · simp only [pthreadCondattrGetpshared, condIsShared, setField_and_of_disjoint hcs hcin]
    rfl
  · rw [pthreadCondattrGetclock, condGetClock, setField_and_self hcin]
    cases lp64 <;> decide

theorem CondattrCall.call_fields (c : CondattrCall) (attr : BitVec (longBits lp64)) :
    let attr' := (c.call attr).2
    pthreadCondattrGetpshared attr' = c.psharedSet.getD (pthreadCondattrGetpshared attr) ∧
      pthreadCondattrGetclock attr' = c.clockSet.getD (pthreadCondattrGetclock attr) := by
  obtain ⟨-, -, -, -, -, -, hshared, hprivate, hmono, hreal⟩ := condattr_masks lp64
  cases c with
  | setpshared pshared =>
    by_cases hs : pshared = pthreadProcessShared
    · subst hs
      simpa [call, psharedSet, clockSet, pthreadCondattrSetpshared, hshared] using
        condattr_or_sharedMask attr
    · by_cases hp : pshared = pthreadProcessPrivate
      · subst hp
        simp [call, psharedSet, clockSet, pthreadCondattrSetpshared, hprivate, hs]
      · simp [call, psharedSet, clockSet, pthreadCondattrSetpshared, hs, hp]
  | setclock clock =>
    by_cases hm : clock = clockMonotonic
    · subst hm
      simpa [call, psharedSet, clockSet, pthreadCondattrSetclock, condSetClock, hmono] using
        condattr_or_clockMask attr
    · by_cases hr : clock = clockRealtime
      · subst hr
        simp [call, psharedSet, clockSet, pthreadCondattrSetclock, condSetClock, hreal, hm]
      · simp [call, psharedSet, clockSet, pthreadCondattrSetclock, hm, hr]

end Condattr

/-- `pthread_cond_init` copies the two flags of the attribute: `process_shared()` and
`use_realtime_clock()` read what the getters of the attribute read. -/
theorem pthreadCondInit_flags {lp64 : Bool} (a : BitVec (longBits lp64)) :
    processShared (pthreadCondInit (some a)) =
        decide (pthreadCondattrGetpshared a = pthreadProcessShared) ∧
      useRealtimeClock (pthreadCondInit (some a)) =
        decide (pthreadCondattrGetclock a = clockRealtime) := by
  have hw := two_le_longBits lp64
  -- the state holds the two low bits of the attribute
  have hstate : (pthreadCondInit (some a)).toNat = a.toNat % 4 := by
    rw [pthreadCondInit, BitVec.toNat_setWidth, condFlags_toNat hw]
    omega
  constructor
  · rw [processShared, condIsShared_eq (by decide), hstate, pthreadCondattrGetpshared,
      condIsShared_eq hw]
    by_cases h : a.toNat % 2 = 1 <;> simp [h, pthreadProcessShared]
  · rw [useRealtimeClock, condGetClock_toNat (by decide), hstate, pthreadCondattrGetclock,
      condGetClock_toNat hw, show a.toNat % 4 / 2 % 2 = a.toNat / 2 % 2 by omega]

/-- `pthread_condattr_setpshared` and `pthread_condattr_setclock` OR their argument in: after a
call that set the shared flag or the clock to `CLOCK_MONOTONIC`, a call asking for
`PTHREAD_PROCESS_PRIVATE` or `CLOCK_REALTIME` returns 0 and the getter still reads
`PTHREAD_PROCESS_SHARED` or `CLOCK_MONOTONIC`, from any object. -/
theorem pthreadCondattr_set_keeps_set_bits (lp64 : Bool) (attr : BitVec (longBits lp64)) :
    let shared := (pthreadCondattrSetpshared attr pthreadProcessShared).2
    let monotonic := (pthreadCondattrSetclock attr clockMonotonic).2
    (pthreadCondattrSetpshared shared pthreadProcessPrivate).1 = 0 ∧
      pthreadCondattrGetpshared (pthreadCondattrSetpshared shared pthreadProcessPrivate).2 =
        pthreadProcessShared ∧
      (pthreadCondattrSetclock monotonic clockRealtime).1 = 0 ∧
      pthreadCondattrGetclock (pthreadCondattrSetclock monotonic clockRealtime).2 =
        clockMonotonic := by
  intro shared monotonic
  -- the first call sets the flag, the second leaves it
  have hshared : pthreadCondattrGetpshared shared = pthreadProcessShared := by
    simpa [CondattrCall.call, CondattrCall.psharedSet] using
      (CondattrCall.call_fields (.setpshared pthreadProcessShared) attr).1
  have hmonotonic : pthreadCondattrGetclock monotonic = clockMonotonic := by
    simpa [CondattrCall.call, CondattrCall.clockSet] using
      (CondattrCall.call_fields (.setclock clockMonotonic) attr).2
  have hprivate := (CondattrCall.call_fields (.setpshared pthreadProcessPrivate) shared).1
  have hrealtime := (CondattrCall.call_fields (.setclock clockRealtime) monotonic).2
  simp only [CondattrCall.call, CondattrCall.psharedSet, CondattrCall.clockSet,
    if_neg (by decide : pthreadProcessPrivate ≠ pthreadProcessShared),
    if_neg (by decide : clockRealtime ≠ clockMonotonic), Option.getD_none] at hprivate hrealtime
  refine ⟨?_, hprivate.trans hshared, ?_, hrealtime.trans hmonotonic⟩
  · simp [pthreadCondattrSetpshared]
  · simp [pthreadCondattrSetclock]

theorem pthreadCondattr_set_keeps_set_bits_init :
    let shared := (pthreadCondattrSetpshared (pthreadCondattrInit true) pthreadProcessShared).2
    let monotonic := (pthreadCondattrSetclock (pthreadCondattrInit true) clockMonotonic).2
    (pthreadCondattrSetpshared shared pthreadProcessPrivate).1 = 0 ∧
      pthreadCondattrGetpshared (pthreadCondattrSetpshared shared pthreadProcessPrivate).2 =
        pthreadProcessShared ∧
      (pthreadCondattrSetclock monotonic clockRealtime).1 = 0 ∧
      pthreadCondattrGetclock (pthreadCondattrSetclock monotonic clockRealtime).2 =
        clockMonotonic :=
  pthreadCondattr_set_keeps_set_bits true (pthreadCondattrInit true)

/-- After `pthread_condattr_init` and any sequence of setter calls, `getpshared` reads
`PTHREAD_PROCESS_SHARED` iff some call asked for it, and `getclock` reads `CLOCK_MONOTONIC` iff
some call asked for it; `pthread_cond_init` from the object gives a condition variable whose
`process_shared()` and `use_realtime_clock()` agree with the getters, and from `nullptr` the one
it gives from the object `init` leaves. -/
theorem pthreadCondattr_sticky (lp64 : Bool) (calls : List CondattrCall) :
    let attr := runSetters CondattrCall.call (pthreadCondattrInit lp64) calls
    pthreadCondattrGetpshared attr =
        (if .setpshared pthreadProcessShared ∈ calls then pthreadProcessShared
        else pthreadProcessPrivate) ∧
      pthreadCondattrGetclock attr =
        (if .setclock clockMonotonic ∈ calls then clockMonotonic else clockRealtime) ∧
      processShared (pthreadCondInit (some attr)) =
        decide (pthreadCondattrGetpshared attr = pthreadProcessShared) ∧
      useRealtimeClock (pthreadCondInit (some attr)) =
        decide (pthreadCondattrGetclock attr = clockRealtime) ∧
      pthreadCondInit (none : Option (BitVec (longBits lp64))) =
        pthreadCondInit (some (pthreadCondattrInit lp64)) := by
  intro attr
  have hinit : pthreadCondattrGetpshared (pthreadCondattrInit lp64) = pthreadProcessPrivate ∧
      pthreadCondattrGetclock (pthreadCondattrInit lp64) = clockRealtime ∧
      pthreadCondInit (none : Option (BitVec (longBits lp64))) =
        pthreadCondInit (some (pthreadCondattrInit lp64)) := by
    cases lp64 <;> decide
  refine ⟨?_, ?_, pthreadCondInit_flags attr |>.1, pthreadCondInit_flags attr |>.2, hinit.2.2⟩
  · rw [read_runSetters CondattrCall.call pthreadCondattrGetpshared _
      (fun a c ↦ (CondattrCall.call_fields c a).1), hinit.1,
      lastWrite_of_const _ (fun c ↦ CondattrCall.psharedSet_cases c)]
    simp [CondattrCall.psharedSet_eq_some]
  · rw [read_runSetters CondattrCall.call pthreadCondattrGetclock _
      (fun a c ↦ (CondattrCall.call_fields c a).2), hinit.2.1,
      lastWrite_of_const _ (fun c ↦ CondattrCall.clockSet_cases c)]
    simp [CondattrCall.clockSet_eq_some]

end Bionic.Pthread.Attr
