import Bionic.MallocDebug.Spec

/-!
# malloc_debug: `realloc` over expanded allocations

`debug_realloc` decides its path on `real_size`, the request plus `expand_alloc_bytes`, against
the header's size and usable size; but its allocate, copy and free path allocates only the
request and then copies the old usable size. With `REAR_GUARD` (usable size = requested size)
and `EXPAND_ALLOC`, shrinking an `n`-byte block to `m` bytes with `m < n < m + expand_alloc_bytes`
takes that path: the new block's rear guard starts at `r + m`, and the copy of `n` bytes writes
the client's old bytes `[m, n)` over it. The `free` of the new block then reports a corrupted rear
guard although the client only ever wrote inside its blocks
(`debugRealloc_expandAlloc_corrupts_rearGuard`). The allocator underneath is any, provided it
handed out two disjoint blocks.
-/

set_option autoImplicit false
set_option relaxedAutoImplicit false

namespace Bionic.MallocDebug

open Bionic.Lib.ByteMemory

variable {σ : Type} (d : Dispatch σ)

/-- **Realloc under `rear_guard` and `expand_alloc` corrupts the new rear guard.** Allocate `n`
bytes at `p`, let the client store a byte other than the guard value at `p + m`, and realloc to
`m` bytes with `0 < m < n < m + expand_alloc_bytes`: freeing the result reports its rear guard as
corrupted. -/
theorem debugRealloc_expandAlloc_corrupts_rearGuard (g : DebugData) (hl : g.Layout)
    (hrear : g.config.has rearGuard) (hexpand : g.config.has expandAlloc)
    (hguard : 0 < g.config.rearGuardBytes) (n m : ℕ) (hm : 0 < m) (hmn : m < n)
    (hn : n < m + g.config.expandAllocBytes) (hmax : n ≤ maxSize)
    (hwrap : n + g.extraBytes < 2 ^ 64) {s s₁ s₂ : Heap σ} {p r : ℕ}
    (hmalloc : debugMalloc d g s n = (p, s₁)) (hp : p ≠ 0) (b : UInt8)
    (hb : b ≠ g.config.rearGuardValue)
    (hrealloc : debugRealloc d g (s₁.write (p + m) b) p m = (r, s₂)) (hr : r ≠ 0)
    (hdisj : g.getHeader p + (n + g.extraBytes) ≤ g.getHeader r ∨
      g.getHeader r + (m + g.extraBytes) ≤ g.getHeader p) :
    DebugError.corruptedGuard r m .rear ∈ (debugFree d g s₂ r).log := by
  have hhdr : g.headerEnabled := g.config.has_headerOptions_of_rearGuard hrear
  have hoff := hl.pointerOffset_le
  have hrg := hl.rearGuard_le hrear
  have hexp := hl.expand_le hexpand
  -- the first block, and the client's store into it
  have A₁ : Allocated g s s₁ p n := internalMalloc_rearGuard d g hl hrear (by omega) hwrap hmalloc hp
  have hpeq : p = g.getHeader p + g.pointerOffset := A₁.pointer_eq
  have hdr₁ : (s₁.write (p + m) b).headers (g.getHeader p) = ⟨debugTag, g.getHeader p, n, n⟩ := by
    simp [A₁.headers]
  have hv : verifyPointer g (s₁.write (p + m) b) p "realloc" = (true, s₁.write (p + m) b) :=
    verifyPointer_of_valid g _ (fun _ ↦ by rw [hdr₁]) (fun ht ↦ by simpa using A₁.tracked ht)
  -- `real_size = m + expand` is neither the old size nor below the old usable size
  have hreal : reallocRealSize g m = m + g.config.expandAllocBytes := by
    simp only [reallocRealSize, hexpand, if_true]
    exact Nat.mod_eq_of_lt (by omega)
  rw [debugRealloc_of_grow d g hhdr hp hv hm (by omega) (by omega)
    (by simp only [hreal, hdr₁]; omega) (by simp only [hreal, hdr₁]; omega)] at hrealloc
  rcases hmal : internalMalloc d g (s₁.write (p + m) b) m with ⟨r', s₃⟩
  simp only [hmal] at hrealloc
  split at hrealloc
  · exact absurd (congrArg Prod.fst hrealloc).symm hr
  obtain ⟨rfl, rfl⟩ := Prod.mk.inj hrealloc
  -- the second block
  have A₂ : Allocated g (s₁.write (p + m) b) s₃ r' m :=
    internalMalloc_rearGuard d g hl hrear hm (by omega) hmal hr
  have hreq : r' = g.getHeader r' + g.pointerOffset := A₂.pointer_eq
  have hne : g.getHeader r' ≠ g.getHeader p := by omega
  have hdr₂ : s₃.headers (g.getHeader r') = ⟨debugTag, g.getHeader r', m, m⟩ := by
    simp [A₂.headers]
  have hprev : (s₃.headers (g.getHeader p)).usableSize = n := by
    rw [A₂.headers, Function.update_of_ne (Ne.symm hne), hdr₁]
  rw [hprev]
  -- the copy and the free of the old block leave the new header and pointer in place
  have hdr₅ : (internalFree d g { s₃ with mem := memcpy s₃.mem r' p n } p).headers
      (g.getHeader r') = ⟨debugTag, g.getHeader r', m, m⟩ := by
    rw [internalFree_headers_of_ne d g hhdr hne]
    exact hdr₂
  have htracked : g.trackPointers → PointerData.contains
      (internalFree d g { s₃ with mem := memcpy s₃.mem r' p n } p).pointers r' := fun ht ↦
    contains_internalFree d g hhdr (by omega) (A₂.tracked ht)
  -- the byte at the new rear guard is the client's byte, copied from `p + m`
  have hbyte : (internalFree d g { s₃ with mem := memcpy s₃.mem r' p n } p).mem (r' + m) = b := by
    rw [internalFree_mem_of_not_mem d g hhdr (by rw [hprev]; omega)]
    show memcpy s₃.mem r' p n (r' + m) = b
    rw [memcpy_of_mem (by omega) (by omega), show p + (r' + m - r') = p + m by omega,
      A₂.mem_of_not_mem _ (by omega)]
    simp [Heap.write]
  set s₅ := internalFree d g { s₃ with mem := memcpy s₃.mem r' p n } p
  -- the new block is no larger than the bytes copied, so `FILL_ON_ALLOC` stores nothing
  have hfill : reallocFill d g s₅ r' n = s₅ :=
    reallocFill_of_le d g (by simp only [internalMallocUsableSize, hhdr, if_true, hdr₅]; omega)
  rw [hfill]
  have hv₂ : verifyPointer g s₅ r' "free" = (true, s₅) :=
    verifyPointer_of_valid g "free" (fun _ ↦ by rw [hdr₅]) htracked
  have hbad : ¬Filled s₅.mem (g.getRearGuard (g.getHeader r') (s₅.headers (g.getHeader r')).size)
      g.config.rearGuardBytes g.config.rearGuardValue := by
    refine not_filled_of_ne (i := 0) hguard ?_
    rwa [hdr₅, DebugData.getRearGuard, ← A₂.pointer_eq, Nat.add_zero, hbyte]
  have hlog := corruptedGuard_mem_internalFree d g hrear hbad
  rw [hdr₅, ← A₂.pointer_eq] at hlog
  simpa only [debugFree, hr, if_false, hv₂, if_true] using hlog

/-- An allocator to run the model on: blocks are handed out upwards, 16-aligned and never
reused, and `malloc_usable_size` is the size asked for. -/
def bumpDispatch : Dispatch (ℕ × List (ℕ × ℕ)) where
  malloc st size := (bionicAlign st.1 16, (bionicAlign st.1 16 + size, (bionicAlign st.1 16, size) :: st.2))
  memalign st _ size :=
    (bionicAlign st.1 16, (bionicAlign st.1 16 + size, (bionicAlign st.1 16, size) :: st.2))
  calloc st mem _ size := (bionicAlign st.1 16,
    (bionicAlign st.1 16 + size, (bionicAlign st.1 16, size) :: st.2), memset mem (bionicAlign st.1 16) 0 size)
  realloc st mem ptr size := (bionicAlign st.1 16,
    (bionicAlign st.1 16 + size, (bionicAlign st.1 16, size) :: st.2), memcpy mem (bionicAlign st.1 16) ptr size)
  free st _ := st
  mallocUsableSize st ptr := ((st.2.find? fun e ↦ e.1 == ptr).map Prod.snd).getD 0

/-- What the options `rear_guard expand_alloc` parse to: a 32-byte rear guard of `0xbb`, 16 expand
bytes, and pointer tracking, which `rear_guard` turns on. -/
def rearGuardExpandConfig : Config where
  options := rearGuard ||| trackAllocs ||| expandAlloc
  frontGuardBytes := 0
  rearGuardBytes := 32
  frontGuardValue := 0xaa
  rearGuardValue := 0xbb
  expandAllocBytes := 16
  freeTrackAllocations := 0
  fillOnAllocBytes := 0
  fillOnFreeBytes := 0
  fillAllocValue := 0xeb
  fillFreeValue := 0xef

/-- A fresh heap over `bumpDispatch`, handing out blocks from `0x1000`. -/
def bumpHeap : Heap (ℕ × List (ℕ × ℕ)) where
  alloc := (0x1000, [])
  mem := fun _ ↦ 0
  headers := fun _ ↦ ⟨0, 0, 0, 0⟩
  pointers := []
  freePointers := []
  log := []
  errno := 0

/-- `malloc(100)` returns `0x1020`, the client stores `'A'` at byte 90, `realloc(p, 90)` returns
`0x10e0`, and its `free` reports the rear guard. -/
theorem debugRealloc_expandAlloc_corrupts_rearGuard_bump :
    DebugError.corruptedGuard 0x10e0 90 .rear ∈
      (debugFree bumpDispatch (DebugData.ofConfig rearGuardExpandConfig)
        (debugRealloc bumpDispatch (DebugData.ofConfig rearGuardExpandConfig)
          ((debugMalloc bumpDispatch (DebugData.ofConfig rearGuardExpandConfig) bumpHeap 100).2.write
            (0x1020 + 90) 0x41) 0x1020 90).2 0x10e0).log :=
  debugRealloc_expandAlloc_corrupts_rearGuard bumpDispatch _ (DebugData.layout_ofConfig _)
    (by decide) (by decide) (by decide) 100 90 (by decide) (by decide) (by decide) (by decide)
    (by decide)
    (show debugMalloc bumpDispatch (DebugData.ofConfig rearGuardExpandConfig) bumpHeap 100 =
      (0x1020, _) from Prod.ext (by decide) rfl)
    (by decide) 0x41 (by decide)
    (show debugRealloc bumpDispatch (DebugData.ofConfig rearGuardExpandConfig)
      ((debugMalloc bumpDispatch (DebugData.ofConfig rearGuardExpandConfig) bumpHeap 100).2.write
        (0x1020 + 90) 0x41) 0x1020 90 = (0x10e0, _) from Prod.ext (by decide) rfl)
    (by decide) (by decide)

end Bionic.MallocDebug
