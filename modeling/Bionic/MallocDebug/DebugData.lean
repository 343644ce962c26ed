import Mathlib.Data.UInt
import Bionic.Lib.ByteMemory

/-!
# malloc_debug: options, layout and state

The data the debug allocator of `libc/malloc_debug` works on. `Config` holds the parsed options
(`Config.h`; the parser itself is not modelled, so every value of each field is allowed).
`DebugData.ofConfig` computes the layout of a debug block (`DebugData::Initialize`):

    orig_pointer ≤ header | Header (28 bytes, padded to 16) | front guard | client bytes | rear guard | expand bytes

with `pointerOffset` from the header to the client pointer and `extraBytes` the bytes a block
needs beyond the client's. A `Header` is kept in a map of its own, by address, apart from the
byte memory: nothing that malloc_debug or a well-behaved client writes lies in a header.

The allocator underneath (`MallocDispatch`) is a `Dispatch` over a state of its own; pointers are
addresses with `0` for `nullptr`. `Heap` is the whole state the debug functions change: that
state, the memory, the headers, `PointerData`'s live and freed pointers, the error log and
`errno`.
-/

set_option autoImplicit false
set_option relaxedAutoImplicit false

namespace Bionic.MallocDebug

open Bionic.Lib.ByteMemory

/-! ## Options -/

def frontGuard : UInt64 := 0x1
def rearGuard : UInt64 := 0x2
def backtrace : UInt64 := 0x4
def fillOnAlloc : UInt64 := 0x8
def fillOnFree : UInt64 := 0x10
def expandAlloc : UInt64 := 0x20
def freeTrack : UInt64 := 0x40
def trackAllocs : UInt64 := 0x80

/-- The options that put a `Header` in front of every allocation. -/
def headerOptions : UInt64 := frontGuard ||| rearGuard

/-- `MINIMUM_ALIGNMENT_BYTES` on LP64. -/
def minimumAlignmentBytes : ℕ := 16

/-- The parsed options (`class Config`), with the accessors the allocation paths read. -/
structure Config where
  options : UInt64
  frontGuardBytes : ℕ
  rearGuardBytes : ℕ
  frontGuardValue : UInt8
  rearGuardValue : UInt8
  expandAllocBytes : ℕ
  freeTrackAllocations : ℕ
  fillOnAllocBytes : ℕ
  fillOnFreeBytes : ℕ
  fillAllocValue : UInt8
  fillFreeValue : UInt8
  deriving DecidableEq, Repr

/-- `config.options() & flag` as a condition. -/
def Config.has (cfg : Config) (flag : UInt64) : Bool := cfg.options &&& flag != 0

/-! ## Layout -/

/-- `sizeof(Header)`: the packed `{uint32_t, void*, size_t, size_t}` of LP64. -/
def sizeofHeader : ℕ := 28

/-- `__BIONIC_ALIGN(value, alignment)` for a power-of-two alignment, on numbers. -/
def bionicAlign (value alignment : ℕ) : ℕ := (value + alignment - 1) / alignment * alignment

/-- `class DebugData`: the options and the offsets computed from them. -/
structure DebugData where
  config : Config
  pointerOffset : ℕ
  frontGuardOffset : ℕ
  extraBytes : ℕ
  deriving DecidableEq, Repr

/-- `DebugData::Initialize`: the header is padded to the minimum alignment and the front guard
follows it (`FrontGuardData`'s constructor moves `pointer_offset_` past the guard); the rear
guard and the expand bytes add to `extra_bytes_`. -/
def DebugData.ofConfig (cfg : Config) : DebugData :=
  let headerOffset := bionicAlign sizeofHeader minimumAlignmentBytes
  let hasHeader := cfg.has headerOptions
  let pointerOffset :=
    if hasHeader then
      headerOffset + (if cfg.has frontGuard then cfg.frontGuardBytes else 0)
    else 0
  let extraBytes :=
    (if hasHeader then
      pointerOffset + (if cfg.has rearGuard then cfg.rearGuardBytes else 0)
    else 0) + (if cfg.has expandAlloc then cfg.expandAllocBytes else 0)
  { config := cfg, pointerOffset, frontGuardOffset := headerOffset, extraBytes }

namespace DebugData

variable (g : DebugData)

def headerEnabled : Bool := g.config.has headerOptions

def trackPointers : Bool := g.config.has trackAllocs

/-- `GetPointer(header)`. -/
def getPointer (header : ℕ) : ℕ := header + g.pointerOffset

/-- `GetHeader(pointer)`. -/
def getHeader (pointer : ℕ) : ℕ := pointer - g.pointerOffset

/-- `GetFrontGuard(header)`. -/
def getFrontGuard (header : ℕ) : ℕ := header + g.frontGuardOffset

/-- `GetRearGuard(header)`: the rear guard follows the client's `size` bytes. -/
def getRearGuard (header size : ℕ) : ℕ := g.getPointer header + size

@[simp] theorem ofConfig_config (cfg : Config) : (ofConfig cfg).config = cfg := rfl

theorem ofConfig_frontGuardOffset (cfg : Config) : (ofConfig cfg).frontGuardOffset = 32 :=
  rfl

theorem getHeader_getPointer (header : ℕ) : g.getHeader (g.getPointer header) = header := by
  simp [getHeader, getPointer]

end DebugData

theorem Config.has_of_subset {cfg : Config} {option flag : UInt64} (hsub : flag &&& option = option)
    (h : cfg.has option) : cfg.has flag := by
  simp only [Config.has, bne_iff_ne, ne_eq] at h ⊢
  intro hflag
  apply h
  rw [← hsub, ← UInt64.and_assoc, hflag, UInt64.zero_and]

theorem Config.has_headerOptions_of_rearGuard {cfg : Config} (h : cfg.has rearGuard) :
    cfg.has headerOptions :=
  cfg.has_of_subset (by decide) h

theorem Config.has_headerOptions_of_frontGuard {cfg : Config} (h : cfg.has frontGuard) :
    cfg.has headerOptions :=
  cfg.has_of_subset (by decide) h

/-- The layout `DebugData::Initialize` sets up: the header lies below the front guard, the front
guard below the pointer, and the extra bytes cover the pointer offset, the rear guard and the
expand bytes. -/
structure DebugData.Layout (g : DebugData) : Prop where
  header_le : sizeofHeader ≤ g.frontGuardOffset
  frontGuard_le :
    g.config.has frontGuard → g.frontGuardOffset + g.config.frontGuardBytes ≤ g.pointerOffset
  rearGuard_le : g.config.has rearGuard → g.pointerOffset + g.config.rearGuardBytes ≤ g.extraBytes
  pointerOffset_le : g.pointerOffset ≤ g.extraBytes
  expand_le : g.config.has expandAlloc → g.config.expandAllocBytes ≤ g.extraBytes

theorem DebugData.layout_ofConfig (cfg : Config) : (DebugData.ofConfig cfg).Layout where
  header_le := by
    rw [ofConfig_frontGuardOffset]
    decide
  frontGuard_le hf := by
    rw [ofConfig_config] at hf
    simp only [ofConfig, cfg.has_headerOptions_of_frontGuard hf, hf, if_true]
    exact le_refl _
  rearGuard_le hr := by
    rw [ofConfig_config] at hr
    simp only [ofConfig, cfg.has_headerOptions_of_rearGuard hr, hr, if_true]
    omega
  pointerOffset_le := by
    simp only [ofConfig]
    split <;> omega
  expand_le he := by
    rw [ofConfig_config] at he
    simp only [ofConfig, he, if_true]
    omega

/-! ## Headers -/

def debugTag : UInt32 := 0x1ee7d00d
def debugFreeTag : UInt32 := 0x1cc7dccd

/-- `struct Header`. -/
structure Header where
  tag : UInt32
  origPointer : ℕ
  size : ℕ
  usableSize : ℕ
  deriving DecidableEq, Repr

/-! ## Errors -/

/-- Which of the two `GuardData` a failure names (`GetTypeName`). -/
inductive GuardType
  | front
  | rear
  deriving DecidableEq, Repr

def GuardType.name : GuardType → String
  | .front => "FRONT"
  | .rear => "REAR"

/-- The reports malloc_debug writes to the error log, with the data each prints. -/
inductive DebugError
  /-- `LogError`: "+++ ALLOCATION %p %s" with the error string. -/
  | allocation (pointer : ℕ) (errorStr : String)
  /-- `GuardData::LogFailure`: "+++ ALLOCATION %p SIZE %zu HAS A CORRUPTED %s GUARD". -/
  | corruptedGuard (pointer size : ℕ) (type : GuardType)
  /-- `VerifyFreedPointer`: "+++ ALLOCATION 0x%x HAS CORRUPTED HEADER TAG 0x%x AFTER FREE". -/
  | corruptedHeaderTagAfterFree (pointer : ℕ) (tag : UInt32)
  /-- `LogFreeError`: "+++ ALLOCATION %p USED AFTER FREE". -/
  | usedAfterFree (pointer : ℕ)
  /-- `PointerData::Remove`: "No tracked pointer found for 0x%x". -/
  | noTrackedPointer (pointer : ℕ)
  deriving DecidableEq, Repr

/-- The error strings `VerifyPointer` passes to `LogError`. -/
def usedAfterFreeStr (functionName : String) : String :=
  "USED AFTER FREE (" ++ functionName ++ ")"

def invalidTagStr (tag : UInt32) (functionName : String) : String :=
  "HAS INVALID TAG " ++ String.ofList (Nat.toDigits 16 tag.toNat) ++ " (" ++ functionName ++ ")"

def unknownPointerStr (functionName : String) : String :=
  "UNKNOWN POINTER (" ++ functionName ++ ")"

/-! ## The allocator underneath and the state -/

/-- `MallocDispatch`: the native allocator over its own state, `0` standing for `nullptr`.
`calloc` and `realloc` also write the memory they hand out. -/
structure Dispatch (σ : Type) where
  malloc : σ → ℕ → ℕ × σ
  memalign : σ → ℕ → ℕ → ℕ × σ
  calloc : σ → Mem → ℕ → ℕ → ℕ × σ × Mem
  realloc : σ → Mem → ℕ → ℕ → ℕ × σ × Mem
  free : σ → ℕ → σ
  mallocUsableSize : σ → ℕ → ℕ

/-- Everything the debug functions read and write. `pointers` is `PointerData::pointers_`
(pointer and requested size, newest first) and `freePointers` its `free_pointers_` queue,
oldest first. -/
structure Heap (σ : Type) where
  alloc : σ
  mem : Mem
  headers : ℕ → Header
  pointers : List (ℕ × ℕ)
  freePointers : List ℕ
  log : List DebugError
  errno : ℤ

namespace Heap

variable {σ : Type} (h : Heap σ)

/-- Append one report to the log. -/
def logError (e : DebugError) : Heap σ := { h with log := h.log ++ [e] }

/-- A store of one byte by the client. -/
def write (a : ℕ) (b : UInt8) : Heap σ := { h with mem := Function.update h.mem a b }

@[simp] theorem logError_log (e : DebugError) : (h.logError e).log = h.log ++ [e] := rfl
@[simp] theorem logError_mem (e : DebugError) : (h.logError e).mem = h.mem := rfl
@[simp] theorem logError_headers (e : DebugError) : (h.logError e).headers = h.headers := rfl
@[simp] theorem logError_pointers (e : DebugError) : (h.logError e).pointers = h.pointers := rfl

@[simp] theorem write_headers (a : ℕ) (b : UInt8) : (h.write a b).headers = h.headers := rfl
@[simp] theorem write_pointers (a : ℕ) (b : UInt8) : (h.write a b).pointers = h.pointers := rfl
@[simp] theorem write_log (a : ℕ) (b : UInt8) : (h.write a b).log = h.log := rfl

end Heap

end Bionic.MallocDebug
