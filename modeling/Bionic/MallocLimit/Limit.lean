import Mathlib.Data.UInt
import Bionic.Errno

/-!
# malloc_limit: the allocation limit wrapper

`LimitEnable` installs a dispatch table whose entries check a request against the limit
`gAllocLimit` before passing it to the allocator underneath, and keep the usable size of what is
live in `gAllocated`, starting from the allocator's `mallinfo().uordblks`. The model is the
wrapper over any allocator (`Dispatch`), with the limit state as explicit state passing.

`CheckLimit` passes exactly when the count plus the request is at most the limit
(`checkLimit_iff`), and every entry that hands out a block went through it (`Call.request` and
the lemmas after it). `LimitRealloc` does not keep the C contract of `realloc`: when the growth is
over the limit it frees the old block before returning `nullptr`, and when the allocator's
`realloc` fails it takes the old block's usable size off the count although the block is still
live, so that freeing it afterwards takes it off twice.

`size_t` is 64 bits (LP64); the logs the entries write are not modelled.
-/

set_option autoImplicit false
set_option relaxedAutoImplicit false

namespace Bionic.MallocLimit

/-! ## The allocator underneath and the state -/

/-- `MallocDispatch` with the entries malloc_limit calls: the default allocator over its own
state, `0` standing for `nullptr`. `posixMemalign` takes the caller's `*memptr` and gives the
return value with what `*memptr` holds after the call. -/
structure Dispatch (σ : Type) where
  calloc : σ → ℕ → ℕ → ℕ × σ
  free : σ → ℕ → σ
  mallinfoUordblks : σ → ℕ
  malloc : σ → ℕ → ℕ × σ
  mallocUsableSize : σ → ℕ → ℕ
  memalign : σ → ℕ → ℕ → ℕ × σ
  posixMemalign : σ → ℕ → ℕ → ℕ → ℤ × ℕ × σ
  realloc : σ → ℕ → ℕ → ℕ × σ
  alignedAlloc : σ → ℕ → ℕ → ℕ × σ

/-- The allocator's state with the globals of malloc_limit.cpp: `gAllocated`, `gAllocLimit` and
`LimitEnable`'s static `limit_enabled`. -/
structure State (σ : Type) where
  heap : σ
  allocated : UInt64
  allocLimit : UInt64
  limitEnabled : Bool

/-- `sizeof(size_t)`. -/
def sizeofSizeT : ℕ := 8

variable {σ : Type} (d : Dispatch σ)

/-! ## The entries of the limit dispatch table -/

/-- `CheckLimit`: the count plus `bytes` neither overflows nor passes the limit. -/
def checkLimit (bytes : ℕ) (s : State σ) : Bool :=
  let total := s.allocated.toNat + bytes
  !(decide (2 ^ 64 ≤ total) || decide (s.allocLimit.toNat < total))

/-- `LimitUsableSize`. -/
def limitUsableSize (s : State σ) (mem : ℕ) : ℕ := d.mallocUsableSize s.heap mem

/-- `IncrementLimit`: count the usable size of a block the allocator handed out. -/
def incrementLimit (mem : ℕ) (s : State σ) : ℕ × State σ :=
  if mem = 0 then (0, s)
  else (mem, { s with allocated := s.allocated + UInt64.ofNat (limitUsableSize d s mem) })

/-- `LimitMalloc`, `LimitMemalign` and `LimitAlignedAlloc`: check `bytes`, then count what
`alloc` hands out. -/
def limitAlloc (bytes : ℕ) (alloc : σ → ℕ × σ) (s : State σ) : ℕ × State σ :=
  if !checkLimit bytes s then (0, s)
  else
    let (mem, heap) := alloc s.heap
    incrementLimit d mem { s with heap := heap }

/-- `LimitMalloc`. -/
def limitMalloc (bytes : ℕ) : State σ → ℕ × State σ :=
  limitAlloc d bytes (d.malloc · bytes)

/-- `LimitMemalign`. -/
def limitMemalign (alignment bytes : ℕ) : State σ → ℕ × State σ :=
  limitAlloc d bytes (d.memalign · alignment bytes)

/-- `LimitAlignedAlloc`. -/
def limitAlignedAlloc (alignment size : ℕ) : State σ → ℕ × State σ :=
  limitAlloc d size (d.alignedAlloc · alignment size)

/-- `LimitCalloc`: the product must not overflow `size_t` before it is checked. -/
def limitCalloc (nElements elemSize : ℕ) (s : State σ) : ℕ × State σ :=
  if 2 ^ 64 ≤ nElements * elemSize then (0, s)
  else limitAlloc d (nElements * elemSize) (d.calloc · nElements elemSize) s

/-- `LimitPosixMemalign`: the return value and `*memptr`. -/
def limitPosixMemalign (memptr alignment size : ℕ) (s : State σ) : ℤ × ℕ × State σ :=
  if !checkLimit size s then (enomem, memptr, s)
  else
    let (retval, memptr', heap) := d.posixMemalign s.heap memptr alignment size
    if retval ≠ 0 then (retval, memptr', { s with heap := heap })
    else (0, memptr', (incrementLimit d memptr' { s with heap := heap }).2)

/-- `LimitFree`: the usable size is taken off before the block is freed. -/
def limitFree (mem : ℕ) (s : State σ) : State σ :=
  { s with
    heap := d.free s.heap mem
    allocated := s.allocated - UInt64.ofNat (limitUsableSize d s mem) }

/-- `LimitRealloc`. Only growth is checked, and a refused growth frees the old block; a failed
`realloc` takes the old usable size off the count. -/
def limitRealloc (oldMem bytes : ℕ) (s : State σ) : ℕ × State σ :=
  let oldUsableSize := limitUsableSize d s oldMem
  if oldUsableSize < bytes ∧ !checkLimit (bytes - oldUsableSize) s then (0, limitFree d oldMem s)
  else
    let (newPtr, heap) := d.realloc s.heap oldMem bytes
    -- this acts as if the pointer was freed
    if newPtr = 0 then
      (0, { s with heap := heap, allocated := s.allocated - UInt64.ofNat oldUsableSize })
    else
      let newUsableSize := d.mallocUsableSize heap newPtr
      if newUsableSize < oldUsableSize then
        (newPtr, { s with
          heap := heap
          allocated := s.allocated - UInt64.ofNat (oldUsableSize - newUsableSize) })
      else
        (newPtr, { s with
          heap := heap
          allocated := s.allocated + UInt64.ofNat (newUsableSize - oldUsableSize) })

/-- `LimitEnable` with `*arg` (`none` for a null `arg`), `arg_size`, and whether
`EnableLimitDispatchTable` managed to install the table: the result, and `errno` when it is
set. -/
def limitEnable (arg : Option ℕ) (argSize : ℕ) (tableEnabled : Bool) (s : State σ) :
    Bool × Option ℤ × State σ :=
  match arg with
  | none => (false, some einval, s)
  | some limit =>
    if argSize ≠ sizeofSizeT then (false, some einval, s)
    -- the limit can only be enabled once
    else if s.limitEnabled then (false, none, s)
    else
      let s' := { s with
        limitEnabled := true
        allocLimit := UInt64.ofNat limit
        allocated := UInt64.ofNat (d.mallinfoUordblks s.heap) }
      -- a failed enable resets the flag so that a later one can pass
      if !tableEnabled then (false, none, { s' with limitEnabled := false }) else (true, none, s')

/-! ## `CheckLimit` and `LimitEnable` -/

/-- `CheckLimit` passes exactly when the count plus the request is within the limit: the limit is
below `2 ^ 64`, so within it nothing overflows. -/
theorem checkLimit_iff (bytes : ℕ) (s : State σ) :
    checkLimit bytes s = true ↔ s.allocated.toNat + bytes ≤ s.allocLimit.toNat := by
  have hlim := s.allocLimit.toNat_lt
  simp only [checkLimit, Bool.not_eq_true', Bool.or_eq_false_iff, decide_eq_false_iff_not, not_le]
  omega

theorem limitEnable_of_ok {arg : Option ℕ} {argSize : ℕ} {tableEnabled : Bool} {s : State σ}
    (h : (limitEnable d arg argSize tableEnabled s).1 = true) :
    ∃ limit, arg = some limit ∧ argSize = sizeofSizeT ∧ s.limitEnabled = false ∧
      (limitEnable d arg argSize tableEnabled s).2.2 =
        { s with
          limitEnabled := true
          allocLimit := UInt64.ofNat limit
          allocated := UInt64.ofNat (d.mallinfoUordblks s.heap) } := by
  cases arg with
  | none => simp [limitEnable] at h
  | some limit =>
    simp only [limitEnable] at h ⊢
    split_ifs at h ⊢ with hsize henabled htable
    simp_all

/-- An allocator with one 16-byte block at address `16`, its state whether the block is live;
its `realloc` always fails. -/
def oneBlock : Dispatch Bool where
  calloc live _ _ := if live then (0, live) else (16, true)
  free live mem := if mem = 16 then false else live
  mallinfoUordblks live := if live then 16 else 0
  malloc live _ := if live then (0, live) else (16, true)
  mallocUsableSize _ mem := if mem = 16 then 16 else 0
  memalign live _ _ := if live then (0, live) else (16, true)
  posixMemalign live memptr _ _ := if live then (enomem, memptr, live) else (0, 16, true)
  realloc live _ _ := (0, live)
  alignedAlloc live _ _ := if live then (0, live) else (16, true)

/-! ## Every block handed out passed `CheckLimit` -/

/-- A call through the limit dispatch table. -/
inductive Call
  | calloc (nElements elemSize : ℕ)
  | free (mem : ℕ)
  | malloc (bytes : ℕ)
  | memalign (alignment bytes : ℕ)
  | posixMemalign (memptr alignment size : ℕ)
  | realloc (oldMem bytes : ℕ)
  | alignedAlloc (alignment size : ℕ)

/-- The block a call hands out (`nullptr` for `free` and for a `posix_memalign` that fails), and
the state after it. -/
def Call.run : Call → State σ → ℕ × State σ
  | .calloc nElements elemSize, s => limitCalloc d nElements elemSize s
  | .free mem, s => (0, limitFree d mem s)
  | .malloc bytes, s => limitMalloc d bytes s
  | .memalign alignment bytes, s => limitMemalign d alignment bytes s
  | .posixMemalign memptr alignment size, s =>
    let (retval, memptr', s') := limitPosixMemalign d memptr alignment size s
    (if retval = 0 then memptr' else 0, s')
  | .realloc oldMem bytes, s => limitRealloc d oldMem bytes s
  | .alignedAlloc alignment size, s => limitAlignedAlloc d alignment size s

/-- The bytes a call has to fit under the limit: the request, or for `realloc` the growth over
the old block's usable size (`none` when nothing is checked). -/
def Call.request (s : State σ) : Call → Option ℕ
  | .calloc nElements elemSize => some (nElements * elemSize)
  | .free _ => none
  | .malloc bytes => some bytes
  | .memalign _ bytes => some bytes
  | .posixMemalign _ _ size => some size
  | .realloc oldMem bytes =>
    if limitUsableSize d s oldMem < bytes then some (bytes - limitUsableSize d s oldMem) else none
  | .alignedAlloc _ size => some size

theorem checkLimit_of_limitAlloc {bytes : ℕ} {alloc : σ → ℕ × σ} {s : State σ}
    (h : (limitAlloc d bytes alloc s).1 ≠ 0) : checkLimit bytes s = true := by
  cases hc : checkLimit bytes s with
  | false => simp [limitAlloc, hc] at h
  | true => rfl

theorem checkLimit_of_limitPosixMemalign {memptr alignment size : ℕ} {s : State σ}
    (h : (limitPosixMemalign d memptr alignment size s).1 = 0) : checkLimit size s = true := by
  cases hc : checkLimit size s with
  | false => simp [limitPosixMemalign, hc, enomem] at h
  | true => rfl

theorem checkLimit_of_limitRealloc {oldMem bytes : ℕ} {s : State σ}
    (h : (limitRealloc d oldMem bytes s).1 ≠ 0) (hgrow : limitUsableSize d s oldMem < bytes) :
    checkLimit (bytes - limitUsableSize d s oldMem) s = true := by
  cases hc : checkLimit (bytes - limitUsableSize d s oldMem) s with
  | false => simp [limitRealloc, hc, hgrow] at h
  | true => rfl

/-- **Every block handed out passed `CheckLimit`**: when a call through the limit table returns
a block, the count before it plus the bytes it had to fit was within the limit. -/
theorem Call.run_ne_zero_within_limit (c : Call) (s : State σ) (h : (c.run d s).1 ≠ 0) :
    ∀ bytes ∈ c.request d s, s.allocated.toNat + bytes ≤ s.allocLimit.toNat := by
  intro bytes hbytes
  rw [← checkLimit_iff]
  cases c with
  | calloc nElements elemSize =>
    simp only [Call.request, Option.mem_def, Option.some.injEq] at hbytes
    subst hbytes
    rw [Call.run, limitCalloc] at h
    -- the product did not overflow, or nothing would have come back
    have hfit : ¬ 2 ^ 64 ≤ nElements * elemSize := fun hover ↦ h (by rw [if_pos hover])
    rw [if_neg hfit] at h
    exact checkLimit_of_limitAlloc d h
  | free mem => simp [Call.request] at hbytes
  | malloc bytes' =>
    simp only [Call.request, Option.mem_def, Option.some.injEq] at hbytes
    exact hbytes ▸ checkLimit_of_limitAlloc d h
  | memalign alignment bytes' =>
    simp only [Call.request, Option.mem_def, Option.some.injEq] at hbytes
    exact hbytes ▸ checkLimit_of_limitAlloc d h
  | posixMemalign memptr alignment size =>
    simp only [Call.request, Option.mem_def, Option.some.injEq] at hbytes
    subst hbytes
    -- a block comes back only with a return value of zero
    have hret : (limitPosixMemalign d memptr alignment size s).1 = 0 := by
      by_contra hret
      simp [Call.run, hret] at h
    exact checkLimit_of_limitPosixMemalign d hret
  | realloc oldMem bytes' =>
    simp only [Call.request, Option.mem_def] at hbytes
    split_ifs at hbytes with hgrow
    cases hbytes
    exact checkLimit_of_limitRealloc d h hgrow
  | alignedAlloc alignment size =>
    simp only [Call.request, Option.mem_def, Option.some.injEq] at hbytes
    exact hbytes ▸ checkLimit_of_limitAlloc d h

/-! ## `LimitRealloc` and the contract of `realloc` -/

theorem limitRealloc_of_refused {oldMem bytes : ℕ} {s : State σ}
    (hgrow : limitUsableSize d s oldMem < bytes)
    (hc : checkLimit (bytes - limitUsableSize d s oldMem) s = false) :
    limitRealloc d oldMem bytes s = (0, limitFree d oldMem s) := by
  simp [limitRealloc, hgrow, hc]

/-- When the growth passes and the allocator's `realloc` fails, `LimitRealloc` returns `nullptr`
with the allocator's state, and takes the old usable size off the count. -/
theorem limitRealloc_of_realloc_eq_zero {oldMem bytes : ℕ} {s : State σ} {heap : σ}
    (hc : limitUsableSize d s oldMem < bytes →
      checkLimit (bytes - limitUsableSize d s oldMem) s = true)
    (hfail : d.realloc s.heap oldMem bytes = (0, heap)) :
    limitRealloc d oldMem bytes s =
      (0, { s with
        heap := heap
        allocated := s.allocated - UInt64.ofNat (limitUsableSize d s oldMem) }) := by
  have hpass : ¬ (limitUsableSize d s oldMem < bytes ∧
      !checkLimit (bytes - limitUsableSize d s oldMem) s) := by
    rintro ⟨hgrow, hnot⟩
    simp [hc hgrow] at hnot
  simp only [limitRealloc]
  rw [if_neg hpass]
  simp [hfail]

theorem limitMalloc_of_ne_zero {bytes mem : ℕ} {s : State σ} {heap : σ}
    (hc : checkLimit bytes s = true) (halloc : d.malloc s.heap bytes = (mem, heap))
    (hmem : mem ≠ 0) :
    limitMalloc d bytes s =
      (mem, { s with
        heap := heap
        allocated := s.allocated + UInt64.ofNat (d.mallocUsableSize heap mem) }) := by
  simp [limitMalloc, limitAlloc, hc, halloc, incrementLimit, hmem, limitUsableSize]

/-- **`LimitRealloc` does not keep the contract of `realloc`.** Take any allocator and any notion
of a live block under which `free` ends the block it is given. A growth over the limit returns
`nullptr` with the old block freed. And when the allocator's `realloc` fails, keeping the block
as it was, the count no longer holds it: a block taken by `malloc`, then passed to a `realloc`
that fails and then to `free`, leaves the count below where it started by its usable size, where
a block allocated and freed through the wrapper should leave it as it was. -/
theorem limitRealloc_breaks_realloc_contract (live : σ → ℕ → Prop)
    (hfree : ∀ heap p, p ≠ 0 → ¬ live (d.free heap p) p) :
    (∀ (s : State σ) (p n : ℕ), p ≠ 0 → limitUsableSize d s p < n →
        checkLimit (n - limitUsableSize d s p) s = false →
        (limitRealloc d p n s).1 = 0 ∧ ¬ live (limitRealloc d p n s).2.heap p) ∧
    ∀ (s : State σ) (n m p : ℕ) (heap : σ), checkLimit n s = true →
      d.malloc s.heap n = (p, heap) → p ≠ 0 →
      0 < d.mallocUsableSize heap p → d.mallocUsableSize heap p < 2 ^ 64 →
      (d.mallocUsableSize heap p < m →
        checkLimit (m - d.mallocUsableSize heap p) (limitMalloc d n s).2 = true) →
      d.realloc heap p m = (0, heap) →
      (limitRealloc d p m (limitMalloc d n s).2).1 = 0 ∧
      (limitRealloc d p m (limitMalloc d n s).2).2.heap = heap ∧
      (limitFree d p (limitRealloc d p m (limitMalloc d n s).2).2).allocated =
        s.allocated - UInt64.ofNat (d.mallocUsableSize heap p) ∧
      (limitFree d p (limitRealloc d p m (limitMalloc d n s).2).2).allocated ≠ s.allocated := by
  refine ⟨fun s p n hp hgrow hc ↦ ?refused, fun s n m p heap hc halloc hp hpos hlt hgrow hfail ↦ ?failed⟩
  case refused =>
    rw [limitRealloc_of_refused d hgrow hc]
    exact ⟨rfl, hfree s.heap p hp⟩
  case failed =>
    have hmalloc := limitMalloc_of_ne_zero d hc halloc hp
    rw [hmalloc] at hgrow ⊢
    rw [limitRealloc_of_realloc_eq_zero d hgrow hfail]
    -- the count loses the usable size once at the failed `realloc`, and again at the `free`
    have hcount : s.allocated + UInt64.ofNat (d.mallocUsableSize heap p) -
        UInt64.ofNat (d.mallocUsableSize heap p) - UInt64.ofNat (d.mallocUsableSize heap p) =
        s.allocated - UInt64.ofNat (d.mallocUsableSize heap p) := by
      rw [add_sub_cancel_right]
    refine ⟨rfl, rfl, hcount, ?_⟩
    simp only [limitFree, limitUsableSize]
    rw [hcount]
    intro heq
    have hsize : (UInt64.ofNat (d.mallocUsableSize heap p)).toNat = d.mallocUsableSize heap p := by
      simpa using hlt
    have hzero := congrArg UInt64.toNat (sub_eq_self.1 heq)
    rw [hsize, UInt64.toNat_zero] at hzero
    omega

/-- With the limit at 16 bytes: growing the live block to 32 bytes frees it, and a block taken
with a count of `0`, passed to a failing `realloc` and freed leaves the count at `2 ^ 64 - 16`. -/
theorem limitRealloc_breaks_realloc_contract_oneBlock :
    ((limitRealloc oneBlock 16 32 ⟨true, 16, 16, true⟩).1 = 0 ∧
      ¬ ((limitRealloc oneBlock 16 32 ⟨true, 16, 16, true⟩).2.heap = true ∧ 16 = 16)) ∧
    (limitRealloc oneBlock 16 8 (limitMalloc oneBlock 16 ⟨false, 0, 16, true⟩).2).1 = 0 ∧
    (limitRealloc oneBlock 16 8 (limitMalloc oneBlock 16 ⟨false, 0, 16, true⟩).2).2.heap = true ∧
    (limitFree oneBlock 16
        (limitRealloc oneBlock 16 8 (limitMalloc oneBlock 16 ⟨false, 0, 16, true⟩).2).2).allocated =
      0 - UInt64.ofNat 16 ∧
    (limitFree oneBlock 16
        (limitRealloc oneBlock 16 8 (limitMalloc oneBlock 16 ⟨false, 0, 16, true⟩).2).2).allocated ≠
      0 := by
  have hfree : ∀ heap p, p ≠ 0 → ¬ (oneBlock.free heap p = true ∧ p = 16) := by
    rintro heap p - ⟨hlive, rfl⟩
    simp [oneBlock] at hlive
  have hcontract := limitRealloc_breaks_realloc_contract oneBlock
    (fun live mem ↦ live = true ∧ mem = 16) hfree
  exact ⟨hcontract.1 ⟨true, 16, 16, true⟩ 16 32 (by decide) (by decide) (by decide),
    hcontract.2 ⟨false, 0, 16, true⟩ 16 8 16 true (by decide) (by decide) (by decide) (by decide)
      (by decide) (by decide) (by decide)⟩

end Bionic.MallocLimit
