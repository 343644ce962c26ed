import Bionic.Lib.Interleaving
import Bionic.SystemProperties.PropertyUpdate

/-!
# Waiting for a serial to change

`SystemProperties::Wait` watches a serial word: the serial of the property `pi`, or, for a null
`pi`, the global serial of the serial property area. It sleeps in `futex_wait` until the word
differs from `old_serial`, then stores what it loaded in `*new_serial_ptr` and returns true; it
returns false when a timed wait times out. The single writer's `Update` stores a dirty serial and
then the new one into the property's serial and wakes its waiters, then adds one to the global
serial and wakes its waiters; `Add` does the last two.

`Wait` is declared `bool`, but for a null `pi` its paths for properties that are not initialized
and for a missing serial area `return -1`, which converts to `true`: `Wait` then returns true and
leaves `*new_serial_ptr` as it was (`wait_uninitialized_returns_true`), and `WaitAny` returns its
own uninitialized `new_serial`.

The waiter's steps are single loads and futex calls; `futex_wait` puts it to sleep only while
the word holds `old_serial`. The state also carries the writer's place in its calls, which no
step here reads.
-/

set_option autoImplicit false
set_option relaxedAutoImplicit false

namespace Bionic.SystemProperties


/-- The conversion of an `int` to `bool`: every value but `0` is `true`. -/
def boolOfInt (n : ℤ) : Bool := n != 0

/-- Where the waiter is in `SystemProperties::Wait`. -/
inductive WaitPc where
  /-- Called: it picks the serial word. -/
  | start
  /-- At `__futex_wait(serial_ptr, old_serial, relative_timeout)`. -/
  | futexWait
  /-- Asleep in that `futex_wait`. -/
  | asleep
  /-- Back from `futex_wait` with a result other than `-ETIMEDOUT`, at the load of the word. -/
  | load
  /-- Returned `result`. -/
  | returned (result : Bool)
  deriving DecidableEq, Repr

/-- A call of the writer. -/
inductive WriterOp (ι : Type) where
  /-- `Update(pi, value, len)` of the property `q`, with a value of length `len`. -/
  | update (q : ι) (len : ℕ)
  /-- `Add(name, namelen, value, valuelen)`; `added` when its checks of the name and the value
  pass, the name has an area and `prop_area::add` succeeds. -/
  | add (added : Bool)
  deriving DecidableEq, Repr

/-- Where the writer is in its calls. -/
inductive WriterPc (ι : Type) where
  /-- Between two calls. -/
  | idle
  /-- `Update` of `q` stored the dirty serial `serial`; at the store of the new serial. -/
  | publishing (q : ι) (len : ℕ) (serial : UInt32)
  /-- `Update` of `q` at `__futex_wake(&pi->serial, INT32_MAX)`. -/
  | wakingProp (q : ι)
  /-- At the increment of the global serial. -/
  | bumping
  /-- At `__futex_wake(serial_pa->serial(), INT32_MAX)`. -/
  | wakingGlobal
  deriving DecidableEq, Repr

/-- The arguments of the waiter's call: `pi` (`none` for a null `pi`), `old_serial`, and whether
`relative_timeout` is not null. -/
structure WaitCall (ι : Type) where
  pi : Option ι
  oldSerial : UInt32
  timed : Bool

/-- The serial words, the waiter, `*new_serial_ptr`, and the writer with the calls it has still
to make. -/
structure WaitSystem (ι : Type) where
  /-- `initialized_`. -/
  initialized : Bool
  /-- `contexts_->GetSerialPropArea() != nullptr`. -/
  hasSerialArea : Bool
  /-- `*serial_pa->serial()`. -/
  globalSerial : UInt32
  /-- `pi->serial` of each property. -/
  serial : ι → UInt32
  waiter : WaitPc
  /-- `*new_serial_ptr`. -/
  newSerial : UInt32
  writer : WriterPc ι
  ops : List (WriterOp ι)

section Steps

variable {ι : Type} [DecidableEq ι] (call : WaitCall ι)

/-- The serial word `w`: the global serial for `none`, else the property's. -/
def WaitSystem.word (sys : WaitSystem ι) : Option ι → UInt32
  | none => sys.globalSerial
  | some q => sys.serial q

/-- `__futex_wake(w, INT32_MAX)`: a waiter asleep on `w` goes on to load it. -/
def WaitSystem.wake (sys : WaitSystem ι) (w : Option ι) : WaitSystem ι :=
  if sys.waiter = .asleep ∧ call.pi = w then { sys with waiter := .load } else sys

/-- One step of `Wait(pi, old_serial, new_serial_ptr, relative_timeout)`. -/
def waitStep (sys : WaitSystem ι) : Option (WaitSystem ι) :=
  match sys.waiter with
  | .start =>
    match call.pi with
    | none =>
      -- `return -1;` in a function that returns `bool`
      if !sys.initialized then some { sys with waiter := .returned (boolOfInt (-1)) }
      else if !sys.hasSerialArea then some { sys with waiter := .returned (boolOfInt (-1)) }
      else some { sys with waiter := .futexWait }
    | some _ => some { sys with waiter := .futexWait }
  | .futexWait =>
    -- the kernel compares the word and sleeps in one step; a word that differs gives `-EAGAIN`
    if sys.word call.pi = call.oldSerial then some { sys with waiter := .asleep }
    else some { sys with waiter := .load }
  | .asleep => none
  | .load =>
    if sys.word call.pi = call.oldSerial then some { sys with waiter := .futexWait }
    else some { sys with waiter := .returned true, newSerial := sys.word call.pi }
  | .returned _ => none

end Steps

/-! ### A null `pi` before the properties are initialized -/

section Uninitialized

variable {ι : Type}

/-- For a null `pi`, a `Wait` on properties that are not initialized returns true at once and
stores nothing through `new_serial_ptr`, whatever `old_serial` and the serials are. -/
theorem wait_uninitialized_returns_true (call : WaitCall ι) (hpi : call.pi = none)
    (sys : WaitSystem ι) (hstart : sys.waiter = .start) (huninit : sys.initialized = false) :
    ∃ sys', waitStep call sys = some sys' ∧ sys'.waiter = .returned true ∧
      sys'.newSerial = sys.newSerial := by
  refine ⟨{ sys with waiter := .returned (boolOfInt (-1)) }, ?_, rfl, rfl⟩
  simp [waitStep, hstart, hpi, huninit]

/-- `WaitAny(0)` before the properties are initialized: `Wait` returns true, and the value
`WaitAny` returns is its local `new_serial` as it was, here equal to `old_serial`. -/
theorem wait_uninitialized_returns_true_waitAny :
    ∃ sys', waitStep (⟨none, 0, false⟩ : WaitCall Unit)
        ⟨false, false, 0, fun _ ↦ 0, .start, 0, .idle, []⟩ = some sys' ∧
      sys'.waiter = .returned true ∧ sys'.newSerial = 0 :=
  wait_uninitialized_returns_true ⟨none, 0, false⟩ rfl ⟨false, false, 0, fun _ ↦ 0, .start, 0, .idle, []⟩
    rfl rfl

end Uninitialized

end Bionic.SystemProperties
