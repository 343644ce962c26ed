import Bionic.MallocDebug.PointerData
import Bionic.Errno

/-!
# malloc_debug: the allocation entry points

The paths of `malloc_debug.cpp` that allocate, free and check: `VerifyPointer`, `InitHeader`,
`InternalMalloc`, `InternalFree`, and `debug_malloc`, `debug_free`, `debug_memalign`,
`debug_realloc` (same size, shrink in place, or allocate, copy and free), `debug_calloc` and
`debug_malloc_usable_size`, each a function of the `Heap` that returns the new one.

A call runs with debug calls enabled (the thread-local re-entry guard is for malloc_debug's own
allocations) and without the signal-driven work (`CheckIfRequested`, heap dumps, allocator
statistics, `RECORD_ALLOCS`); `ABORT_ON_ERROR` is not modelled, so a report is followed by the rest
of the call. `size_t` sums that the source tests for overflow are taken modulo `2 ^ 64`.
-/

set_option autoImplicit false
set_option relaxedAutoImplicit false

namespace Bionic.MallocDebug

open Bionic.Lib.ByteMemory

variable {σ : Type} (d : Dispatch σ) (g : DebugData)

/-! ## Checks -/

/-- `VerifyPointer`: the header must carry `DEBUG_TAG` and the pointer must be tracked. -/
def verifyPointer (h : Heap σ) (pointer : ℕ) (functionName : String) : Bool × Heap σ :=
  let tag := (h.headers (g.getHeader pointer)).tag
  if g.headerEnabled && tag != debugTag then
    let errorStr :=
      if tag = debugFreeTag then usedAfterFreeStr functionName else invalidTagStr tag functionName
    (false, h.logError (.allocation pointer errorStr))
  else if g.trackPointers && !PointerData.contains h.pointers pointer then
    (false, h.logError (.allocation pointer (unknownPointerStr functionName)))
  else (true, h)

/-- `GuardData::Valid`: the `numBytes` bytes at `data` all hold the guard value. -/
def guardValid (mem : Mem) (data numBytes : ℕ) (value : UInt8) : Bool :=
  decide (Filled mem data numBytes value)

/-- `FrontGuardData::Valid`. -/
def frontGuardValid (mem : Mem) (header : ℕ) : Bool :=
  guardValid mem (g.getFrontGuard header) g.config.frontGuardBytes g.config.frontGuardValue

/-- `RearGuardData::Valid`, for a header whose `size` is `size`. -/
def rearGuardValid (mem : Mem) (header size : ℕ) : Bool :=
  guardValid mem (g.getRearGuard header size) g.config.rearGuardBytes g.config.rearGuardValue

/-- `InternalMallocUsableSize`. -/
def internalMallocUsableSize (h : Heap σ) (pointer : ℕ) : ℕ :=
  if g.headerEnabled then (h.headers (g.getHeader pointer)).usableSize
  else d.mallocUsableSize h.alloc pointer

/-! ## Allocation -/

/-- The guard stores of `InitHeader`. -/
def writeGuards (mem : Mem) (header size : ℕ) : Mem :=
  let mem := if g.config.has frontGuard then
      memset mem (g.getFrontGuard header) g.config.frontGuardValue g.config.frontGuardBytes
    else mem
  if g.config.has rearGuard then
    memset mem (g.getRearGuard header size) g.config.rearGuardValue g.config.rearGuardBytes
  else mem

/-- `InitHeader`: write the header at `header` for the block the allocator returned at
`origPointer` and the guards, and return the client pointer; when the allocator reports no usable
bytes the block is freed and `0` returned. -/
def initHeader (h : Heap σ) (header origPointer size : ℕ) : ℕ × Heap σ :=
  let usableSize := d.mallocUsableSize h.alloc origPointer
  if usableSize = 0 then
    (0, { h with
      headers := Function.update h.headers header ⟨debugTag, origPointer, size, 0⟩
      alloc := d.free h.alloc origPointer })
  else
    -- with a rear guard the client may use exactly the bytes it asked for
    let usableSize := if g.config.has rearGuard then size
      else usableSize - (g.pointerOffset + header - origPointer)
    (g.getPointer header, { h with
      mem := writeGuards g h.mem header size
      headers := Function.update h.headers header ⟨debugTag, origPointer, size, usableSize⟩ })

/-- The tail that `InternalMalloc` and `debug_memalign` share once the block is there: track the
pointer, and fill its first bytes under `FILL_ON_ALLOC`. -/
def trackAndFill (h : Heap σ) (pointer size : ℕ) : Heap σ :=
  let h := if g.trackPointers then
      { h with pointers := PointerData.add h.pointers pointer size }
    else h
  if g.config.has fillOnAlloc then
    let bytes := min (internalMallocUsableSize d g h pointer) g.config.fillOnAllocBytes
    { h with mem := memset h.mem pointer g.config.fillAllocValue bytes }
  else h

/-- `InternalMalloc`. -/
def internalMalloc (h : Heap σ) (size : ℕ) : ℕ × Heap σ :=
  let size := if size = 0 then 1 else size
  let realSize := (size + g.extraBytes) % 2 ^ 64
  if realSize < size then (0, { h with errno := enomem })
  else if maxSize < size then (0, { h with errno := enomem })
  else
    let r : ℕ × Heap σ :=
      if g.headerEnabled then
        let r := d.memalign h.alloc minimumAlignmentBytes realSize
        if r.1 = 0 then (0, { h with alloc := r.2 })
        else initHeader d g { h with alloc := r.2 } r.1 r.1 size
      else
        let r := d.malloc h.alloc realSize
        (r.1, { h with alloc := r.2 })
    if r.1 = 0 then r else (r.1, trackAndFill d g r.2 r.1 size)

/-- `debug_malloc`. -/
def debugMalloc (h : Heap σ) (size : ℕ) : ℕ × Heap σ := internalMalloc d g h size

/-- `debug_memalign`. The alignment is raised to a power of two of at least the minimum, and the
block is over-allocated by it so that the header can be placed below an aligned pointer. -/
def debugMemalign (h : Heap σ) (alignment bytes : ℕ) : ℕ × Heap σ :=
  let bytes := if bytes = 0 then 1 else bytes
  if maxSize < bytes then (0, { h with errno := enomem })
  else
    let r : ℕ × Heap σ :=
      if g.headerEnabled then
        let alignment := if powerof2 alignment then alignment else roundUpPowerOf2 alignment
        let alignment := if alignment < minimumAlignmentBytes then minimumAlignmentBytes
          else alignment
        let realSize := (alignment + bytes + g.extraBytes) % 2 ^ 64
        if realSize < bytes then (0, { h with errno := enomem })
        else
          let r := d.malloc h.alloc realSize
          if r.1 = 0 then (0, { h with alloc := r.2 })
          else
            let value := r.1 + g.pointerOffset
            -- `value += (-value % alignment)` on `uintptr_t`
            let value := value + (2 ^ 64 - value % 2 ^ 64) % 2 ^ 64 % alignment
            initHeader d g { h with alloc := r.2 } (g.getHeader value) r.1 bytes
      else
        let realSize := (bytes + g.extraBytes) % 2 ^ 64
        if realSize < bytes then (0, { h with errno := enomem })
        else
          let r := d.memalign h.alloc alignment realSize
          (r.1, { h with alloc := r.2 })
    if r.1 = 0 then r else (r.1, trackAndFill d g r.2 r.1 bytes)
where
  /-- `powerof2` of `sys/param.h`: `x - 1` overflows at `0`, which counts as a power of two. -/
  powerof2 (x : ℕ) : Bool := x == 0 || ((x - 1) &&& x) == 0
  /-- `BIONIC_ROUND_UP_POWER_OF_2` on a 64-bit value: `1UL << (64 - __builtin_clzl(value))`. -/
  roundUpPowerOf2 (x : ℕ) : ℕ := ((1 : UInt64) <<< (UInt64.ofNat (Nat.log2 x + 1))).toNat

/-- `debug_calloc`: the header path clears the whole block before `InitHeader`. -/
def debugCalloc (h : Heap σ) (nmemb bytes : ℕ) : ℕ × Heap σ :=
  if 2 ^ 64 ≤ nmemb * bytes then (0, { h with errno := enomem })
  else
    let size := if nmemb * bytes = 0 then 1 else nmemb * bytes
    if 2 ^ 64 ≤ size + g.extraBytes then (0, { h with errno := enomem })
    else
      let realSize := size + g.extraBytes
      if maxSize < realSize then (0, { h with errno := enomem })
      else
        let r : ℕ × Heap σ :=
          if g.headerEnabled then
            let r := d.memalign h.alloc minimumAlignmentBytes realSize
            if r.1 = 0 then (0, { h with alloc := r.2 })
            else
              let mem := memset h.mem r.1 0 (d.mallocUsableSize r.2 r.1)
              initHeader d g { h with alloc := r.2, mem } r.1 r.1 size
          else
            let r := d.calloc h.alloc h.mem 1 realSize
            (r.1, { h with alloc := r.2.1, mem := r.2.2 })
        if r.1 ≠ 0 && g.trackPointers then
          (r.1, { r.2 with pointers := PointerData.add r.2.pointers r.1 size })
        else r

/-! ## Free -/

/-- The guard checks of `InternalFree`, reporting each corrupted guard. -/
def checkGuards (h : Heap σ) (header : ℕ) : Heap σ :=
  let size := (h.headers header).size
  let h := if g.config.has frontGuard && !frontGuardValid g h.mem header then
      h.logError (.corruptedGuard (g.getPointer header) size .front)
    else h
  if g.config.has rearGuard && !rearGuardValid g h.mem header size then
    h.logError (.corruptedGuard (g.getPointer header) size .rear)
  else h

/-- The header half of `InternalFree`: with a header, check the guards and mark the header freed.
Returns the pointer the allocator gave out and the usable size. -/
def freeHeader (h : Heap σ) (pointer : ℕ) : ℕ × ℕ × Heap σ :=
  if g.headerEnabled then
    let header := g.getHeader pointer
    let h := checkGuards g h header
    let hdr := h.headers header
    (hdr.origPointer, hdr.usableSize,
      { h with headers := Function.update h.headers header { hdr with tag := debugFreeTag } })
  else (pointer, d.mallocUsableSize h.alloc pointer, h)

/-- The `FILL_ON_FREE` store of `InternalFree`. -/
def fillFreed (h : Heap σ) (pointer bytes : ℕ) : Heap σ :=
  if g.config.has fillOnFree then
    { h with mem := memset h.mem pointer g.config.fillFreeValue (min bytes g.config.fillOnFreeBytes) }
  else h

/-- The `PointerData::Remove` of `InternalFree`, under `TRACK_ALLOCS`. -/
def untrack (h : Heap σ) (pointer : ℕ) : Heap σ :=
  if g.trackPointers then PointerData.remove h pointer else h

/-- The end of `InternalFree`: under `FREE_TRACK` queue the pointer and free the block the queue
lets go, else free the block at once. -/
def release (h : Heap σ) (pointer freePointer : ℕ) : Heap σ :=
  if g.config.has freeTrack then
    let r := PointerData.addFreed d g h pointer
    let last := if r.1 != 0 && g.headerEnabled then (r.2.headers (g.getHeader r.1)).origPointer
      else r.1
    { r.2 with alloc := d.free r.2.alloc last }
  else { h with alloc := d.free h.alloc freePointer }

/-- `InternalFree`: check the guards and mark the header freed, fill the client bytes under
`FILL_ON_FREE`, stop tracking, and free the block, or queue it under `FREE_TRACK`. -/
def internalFree (h : Heap σ) (pointer : ℕ) : Heap σ :=
  let r := freeHeader d g h pointer
  release d g (untrack g (fillFreed g r.2.2 pointer r.2.1) pointer) pointer r.1

/-- `debug_free`. -/
def debugFree (h : Heap σ) (pointer : ℕ) : Heap σ :=
  if pointer = 0 then { h with alloc := d.free h.alloc pointer }
  else
    let r := verifyPointer g h pointer "free"
    if r.1 then internalFree d g r.2 pointer else r.2

/-! ## Realloc -/

/-- The `FILL_ON_ALLOC` step that ends `debug_realloc`: fill the new block past the old usable
size, up to the fill limit. -/
def reallocFill (h : Heap σ) (newPointer prevSize : ℕ) : Heap σ :=
  if g.config.has fillOnAlloc then
    let bytes := min (internalMallocUsableSize d g h newPointer) g.config.fillOnAllocBytes
    if prevSize < bytes then
      let mem := memset h.mem (newPointer + prevSize) g.config.fillAllocValue (bytes - prevSize)
      { h with mem }
    else h
  else h

/-- The `real_size` of `debug_realloc`: the request and the expand bytes. -/
def reallocRealSize (bytes : ℕ) : ℕ :=
  if g.config.has expandAlloc then (bytes + g.config.expandAllocBytes) % 2 ^ 64 else bytes

/-- `debug_realloc`. With a header: the same size returns the block; a size below the usable size
shrinks it in place (moving the rear guard); anything else allocates `bytes`, copies the old
usable size and frees the old block. Without a header the allocator's `realloc` does the work. -/
def debugRealloc (h : Heap σ) (pointer bytes : ℕ) : ℕ × Heap σ :=
  if pointer = 0 then internalMalloc d g h bytes
  else
    let v := verifyPointer g h pointer "realloc"
    let h := v.2
    if !v.1 then (0, h)
    else if bytes = 0 then (0, internalFree d g h pointer)
    else
      let realSize := reallocRealSize g bytes
      if g.config.has expandAlloc && realSize < bytes then (0, { h with errno := enomem })
      else if maxSize < bytes then (0, { h with errno := enomem })
      else if g.headerEnabled then
        let header := g.getHeader pointer
        let hdr := h.headers header
        -- renewing the tracking entry: `Remove` then `Add`
        let retrack (h : Heap σ) : Heap σ := if g.trackPointers then
            let h := PointerData.remove h pointer
            { h with pointers := PointerData.add h.pointers pointer realSize }
          else h
        if realSize = hdr.size then (pointer, retrack h)
        else if realSize < hdr.usableSize then
          let hdr := { hdr with size := realSize }
          let h := if g.config.has rearGuard then
              let mem := memset h.mem (g.getRearGuard header realSize) g.config.rearGuardValue
                g.config.rearGuardBytes
              { h with
                headers := Function.update h.headers header { hdr with usableSize := realSize }
                mem }
            else { h with headers := Function.update h.headers header hdr }
          (pointer, retrack h)
        else
          let r := internalMalloc d g h bytes
          if r.1 = 0 then (0, { r.2 with errno := enomem })
          else
            let prevSize := (r.2.headers header).usableSize
            let h := { r.2 with mem := memcpy r.2.mem r.1 pointer prevSize }
            let h := internalFree d g h pointer
            (r.1, reallocFill d g h r.1 prevSize)
      else
        let h := if g.trackPointers then PointerData.remove h pointer else h
        let prevSize := d.mallocUsableSize h.alloc pointer
        let r := d.realloc h.alloc h.mem pointer realSize
        let h := { h with alloc := r.2.1, mem := r.2.2 }
        if r.1 = 0 then (0, h)
        else
          let h := if g.trackPointers then
              { h with pointers := PointerData.add h.pointers r.1 realSize }
            else h
          (r.1, reallocFill d g h r.1 prevSize)

/-- `debug_malloc_usable_size`. -/
def debugMallocUsableSize (h : Heap σ) (pointer : ℕ) : ℕ × Heap σ :=
  if pointer = 0 then (d.mallocUsableSize h.alloc pointer, h)
  else
    let v := verifyPointer g h pointer "malloc_usable_size"
    if v.1 then (internalMallocUsableSize d g v.2 pointer, v.2) else (0, v.2)

end Bionic.MallocDebug
