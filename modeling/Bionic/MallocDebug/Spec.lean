import Bionic.MallocDebug.MallocDebug

/-!
# malloc_debug: what each call changes

One lemma per function of `malloc_debug.cpp` says what a call does to the `Heap`, so that the
results about runs never unfold the functions again:

* `verifyPointer_of_valid`: a tagged, tracked pointer passes and nothing changes;
* `writeGuards_of_not_mem`: the guards lie inside the block (given the `Layout` that
  `DebugData::Initialize` sets up);
* `internalMalloc_header`: a successful `InternalMalloc` with a header took a block from
  `memalign` and ran `InitHeader` and the tracking tail on it; `internalMalloc_rearGuard` collects
  what that means with a rear guard (`Allocated`);
* `internalFree_header_eq`: `InternalFree` with a header marks the header freed, fills, untracks,
  and otherwise only reports and hands blocks back to the allocator;
* `debugRealloc_of_grow`: the allocate, copy and free path of `debug_realloc`.
-/

set_option autoImplicit false
set_option relaxedAutoImplicit false

namespace Bionic.MallocDebug

open Bionic.Lib.ByteMemory

variable {σ : Type} (d : Dispatch σ) (g : DebugData)

/-! ## Checks -/

section Checks

variable {s : Heap σ}

/-- A pointer whose header carries `DEBUG_TAG` and that is tracked passes `VerifyPointer`, which
then changes nothing. -/
theorem verifyPointer_of_valid {pointer : ℕ} (functionName : String)
    (htag : g.headerEnabled → (s.headers (g.getHeader pointer)).tag = debugTag)
    (htrack : g.trackPointers → PointerData.contains s.pointers pointer) :
    verifyPointer g s pointer functionName = (true, s) := by
  have hheader : (g.headerEnabled && (s.headers (g.getHeader pointer)).tag != debugTag) = false := by
    cases hh : g.headerEnabled
    · rfl
    · simp [htag hh]
  have htracked : (g.trackPointers && !PointerData.contains s.pointers pointer) = false := by
    cases ht : g.trackPointers
    · rfl
    · simp [htrack ht]
  simp only [verifyPointer, hheader, htracked, Bool.false_eq_true, if_false]

theorem checkGuards_eq (s : Heap σ) (header : ℕ) :
    ∃ es, checkGuards g s header = { s with log := s.log ++ es } := by
  unfold checkGuards
  dsimp only
  split
  · split
    · exact ⟨[.corruptedGuard (g.getPointer header) (s.headers header).size .front,
        .corruptedGuard (g.getPointer header) (s.headers header).size .rear],
        by simp [Heap.logError]⟩
    · exact ⟨[_], rfl⟩
  · split
    · exact ⟨[_], rfl⟩
    · exact ⟨[], by simp⟩

theorem corruptedGuard_mem_checkGuards {header : ℕ} (hrear : g.config.has rearGuard)
    (hbad : ¬Filled s.mem (g.getRearGuard header (s.headers header).size) g.config.rearGuardBytes
      g.config.rearGuardValue) :
    .corruptedGuard (g.getPointer header) (s.headers header).size .rear ∈
      (checkGuards g s header).log := by
  -- the front guard check in between only reports
  obtain ⟨es, hfront⟩ : ∃ es, (if g.config.has frontGuard && !frontGuardValid g s.mem header then
      s.logError (.corruptedGuard (g.getPointer header) (s.headers header).size .front)
    else s) = { s with log := s.log ++ es } := by
    split
    · exact ⟨[_], rfl⟩
    · exact ⟨[], by simp⟩
  have hinvalid : rearGuardValid g s.mem header (s.headers header).size = false := by
    simpa [rearGuardValid, guardValid] using hbad
  unfold checkGuards
  dsimp only
  rw [hfront]
  simp [hrear, hinvalid, Heap.logError]

end Checks

/-! ## Allocation -/

section Allocation

variable {s : Heap σ}

/-- The guards `InitHeader` writes lie inside the block the allocator returned: the front guard
between the header and the pointer, the rear guard within the extra bytes after the client's. -/
theorem writeGuards_of_not_mem (hl : g.Layout) {mem : Mem} {header size a : ℕ}
    (ha : a < header ∨ header + (size + g.extraBytes) ≤ a) :
    writeGuards g mem header size a = mem a := by
  have hfront : (if g.config.has frontGuard then
      memset mem (g.getFrontGuard header) g.config.frontGuardValue g.config.frontGuardBytes
    else mem) a = mem a := by
    split
    · next hf =>
      have hle := hl.frontGuard_le hf
      have hoff := hl.pointerOffset_le
      exact memset_of_not_mem (by simp only [DebugData.getFrontGuard]; omega)
    · rfl
  unfold writeGuards
  split
  · next hr =>
    have hle := hl.rearGuard_le hr
    rw [memset_of_not_mem (by simp only [DebugData.getRearGuard, DebugData.getPointer]; omega),
      hfront]
  · exact hfront

theorem initHeader_of_ne_zero {header origPointer size : ℕ}
    (hu : d.mallocUsableSize s.alloc origPointer ≠ 0) :
    initHeader d g s header origPointer size =
      (g.getPointer header, { s with
        mem := writeGuards g s.mem header size
        headers := Function.update s.headers header ⟨debugTag, origPointer, size,
          if g.config.has rearGuard then size
          else d.mallocUsableSize s.alloc origPointer - (g.pointerOffset + header - origPointer)⟩ }) := by
  simp only [initHeader, hu, if_false]

theorem initHeader_fst_of_eq_zero {header origPointer size : ℕ}
    (hu : d.mallocUsableSize s.alloc origPointer = 0) :
    (initHeader d g s header origPointer size).1 = 0 := by
  simp only [initHeader, hu, if_true]

@[simp] theorem trackAndFill_headers (pointer size : ℕ) :
    (trackAndFill d g s pointer size).headers = s.headers := by
  unfold trackAndFill
  split <;> split <;> rfl

@[simp] theorem trackAndFill_log (pointer size : ℕ) :
    (trackAndFill d g s pointer size).log = s.log := by
  unfold trackAndFill
  split <;> split <;> rfl

theorem trackAndFill_pointers (pointer size : ℕ) :
    (trackAndFill d g s pointer size).pointers =
      if g.trackPointers then PointerData.add s.pointers pointer size else s.pointers := by
  unfold trackAndFill
  split <;> split <;> rfl

theorem trackAndFill_mem (pointer size : ℕ) :
    (trackAndFill d g s pointer size).mem =
      if g.config.has fillOnAlloc then
        memset s.mem pointer g.config.fillAllocValue
          (min (internalMallocUsableSize d g s pointer) g.config.fillOnAllocBytes)
      else s.mem := by
  unfold trackAndFill
  split <;> split <;> rfl

/-- **`InternalMalloc` with a header.** A call that returns a pointer took a block from
`memalign` that reports usable bytes, ran `InitHeader` on it and then the tracking tail. -/
theorem internalMalloc_header {s' : Heap σ} {size p : ℕ} (hhdr : g.headerEnabled)
    (hsize : 0 < size) (hwrap : size + g.extraBytes < 2 ^ 64)
    (h : internalMalloc d g s size = (p, s')) (hp : p ≠ 0) :
    size ≤ maxSize ∧ ∃ header alloc,
      d.memalign s.alloc minimumAlignmentBytes (size + g.extraBytes) = (header, alloc) ∧
      d.mallocUsableSize alloc header ≠ 0 ∧ p = g.getPointer header ∧
      s' = trackAndFill d g (initHeader d g { s with alloc } header header size).2 p size := by
  have hone : (if size = 0 then 1 else size) = size := if_neg (Nat.pos_iff_ne_zero.mp hsize)
  have hreal : (size + g.extraBytes) % 2 ^ 64 = size + g.extraBytes := Nat.mod_eq_of_lt hwrap
  have hnowrap : ¬size + g.extraBytes < size := by omega
  unfold internalMalloc at h
  simp only [hone, hreal, hnowrap, hhdr, if_false, if_true] at h
  by_cases hmax : maxSize < size
  · simp only [hmax, if_true, Prod.mk.injEq] at h
    exact absurd h.1.symm hp
  simp only [hmax, if_false] at h
  refine ⟨Nat.le_of_not_lt hmax, ?_⟩
  rcases hm : d.memalign s.alloc minimumAlignmentBytes (size + g.extraBytes) with ⟨header, alloc⟩
  simp only [hm] at h
  by_cases h0 : header = 0
  · simp only [h0, if_true, Prod.mk.injEq] at h
    exact absurd h.1.symm hp
  simp only [h0, if_false] at h
  by_cases hu : d.mallocUsableSize alloc header = 0
  · have hfst : (initHeader d g { s with alloc } header header size).1 = 0 :=
      initHeader_fst_of_eq_zero d g hu
    simp only [hfst, if_true] at h
    have hp0 := congrArg Prod.fst h
    rw [hfst] at hp0
    exact absurd hp0.symm hp
  refine ⟨header, alloc, rfl, hu, ?_⟩
  have hinit := (initHeader_of_ne_zero d g hu :
    initHeader d g { s with alloc } header header size = _)
  have hptr : g.getPointer header ≠ 0 := by simp only [DebugData.getPointer]; omega
  rw [hinit] at h ⊢
  simp only [hptr, if_false, Prod.mk.injEq] at h
  obtain ⟨rfl, rfl⟩ := h
  exact ⟨rfl, rfl⟩

/-- What a successful `InternalMalloc` of `size` bytes with a rear guard leaves: a fresh header
for the block below `pointer` with `size` as both sizes, stores only inside the block
`[header, header + size + extraBytes)`, the pointer tracked, and no report. -/
structure Allocated (s s' : Heap σ) (pointer size : ℕ) : Prop where
  pointer_eq : pointer = g.getPointer (g.getHeader pointer)
  headers : s'.headers = Function.update s.headers (g.getHeader pointer)
    ⟨debugTag, g.getHeader pointer, size, size⟩
  mem_of_not_mem : ∀ a, a < g.getHeader pointer ∨ g.getHeader pointer + (size + g.extraBytes) ≤ a →
    s'.mem a = s.mem a
  contains : ∀ q, PointerData.contains s.pointers q → PointerData.contains s'.pointers q
  tracked : g.trackPointers → PointerData.contains s'.pointers pointer
  log : s'.log = s.log

theorem internalMalloc_rearGuard {s' : Heap σ} {size p : ℕ} (hl : g.Layout)
    (hrear : g.config.has rearGuard) (hsize : 0 < size) (hwrap : size + g.extraBytes < 2 ^ 64)
    (h : internalMalloc d g s size = (p, s')) (hp : p ≠ 0) : Allocated g s s' p size := by
  have hhdr : g.headerEnabled := g.config.has_headerOptions_of_rearGuard hrear
  obtain ⟨-, header, alloc, -, hu, rfl, rfl⟩ := internalMalloc_header d g hhdr hsize hwrap h hp
  have hheader : g.getHeader (g.getPointer header) = header := g.getHeader_getPointer header
  rw [initHeader_of_ne_zero d g hu]
  refine ⟨by rw [hheader], ?_, ?_, ?_, ?_, ?_⟩
  · simp [hheader, hrear]
  · intro a ha
    rw [hheader] at ha
    have hoff := hl.pointerOffset_le
    rw [trackAndFill_mem]
    split
    · -- the fill stops at the usable size, which the rear guard makes `size`
      rw [memset_of_not_mem (by
        simp only [internalMallocUsableSize, hhdr, if_true, hheader, Function.update_self]
        simp only [DebugData.getPointer]
        omega)]
      exact writeGuards_of_not_mem g hl ha
    · exact writeGuards_of_not_mem g hl ha
  · intro q hq
    rw [trackAndFill_pointers]
    split
    · simp [hq]
    · exact hq
  · intro ht
    simp [trackAndFill_pointers, ht]
  · simp

end Allocation

/-! ## Free -/

section Free

variable {s : Heap σ}

theorem freeHeader_of_header (hhdr : g.headerEnabled) (pointer : ℕ) :
    freeHeader d g s pointer =
      ((s.headers (g.getHeader pointer)).origPointer, (s.headers (g.getHeader pointer)).usableSize,
        { checkGuards g s (g.getHeader pointer) with
          headers := Function.update s.headers (g.getHeader pointer)
            { s.headers (g.getHeader pointer) with tag := debugFreeTag } }) := by
  obtain ⟨es, hc⟩ := checkGuards_eq g s (g.getHeader pointer)
  simp only [freeHeader, hhdr, if_true, hc]

theorem untrack_eq (s : Heap σ) (pointer : ℕ) :
    ∃ es, untrack g s pointer = { s with
      pointers := if g.trackPointers then s.pointers.filter (fun e ↦ e.1 != pointer) else s.pointers
      log := s.log ++ es } := by
  unfold untrack
  split
  · exact PointerData.remove_eq s pointer
  · exact ⟨[], by simp⟩

theorem release_eq (s : Heap σ) (pointer freePointer : ℕ) :
    ∃ es q alloc, release d g s pointer freePointer =
      { s with log := s.log ++ es, freePointers := q, alloc } := by
  unfold release
  split
  · obtain ⟨es, q, hadd⟩ := PointerData.addFreed_eq d g s pointer
    exact ⟨es, q, _, by dsimp only; rw [hadd]⟩
  · exact ⟨[], s.freePointers, d.free s.alloc freePointer, by simp⟩

/-- **`InternalFree` with a header.** The header is marked freed, the client bytes are filled
under `FILL_ON_FREE`, the pointer is untracked; the rest is reports, the free queue and the
allocator's state. -/
theorem internalFree_header_eq (hhdr : g.headerEnabled) (s : Heap σ) (pointer : ℕ) :
    ∃ es q alloc, internalFree d g s pointer = { s with
      alloc, freePointers := q
      headers := Function.update s.headers (g.getHeader pointer)
        { s.headers (g.getHeader pointer) with tag := debugFreeTag }
      mem := if g.config.has fillOnFree then
          memset s.mem pointer g.config.fillFreeValue
            (min (s.headers (g.getHeader pointer)).usableSize g.config.fillOnFreeBytes)
        else s.mem
      pointers := if g.trackPointers then s.pointers.filter (fun e ↦ e.1 != pointer)
        else s.pointers
      log := (checkGuards g s (g.getHeader pointer)).log ++ es } := by
  obtain ⟨es₁, hc⟩ := checkGuards_eq g s (g.getHeader pointer)
  unfold internalFree
  dsimp only
  rw [freeHeader_of_header d g hhdr]
  dsimp only
  obtain ⟨es₂, hu⟩ := untrack_eq g (fillFreed g { checkGuards g s (g.getHeader pointer) with
      headers := Function.update s.headers (g.getHeader pointer)
        { s.headers (g.getHeader pointer) with tag := debugFreeTag } } pointer
    (s.headers (g.getHeader pointer)).usableSize) pointer
  rw [hu]
  obtain ⟨es₃, q, alloc, hr⟩ := release_eq d g _ pointer (s.headers (g.getHeader pointer)).origPointer
  rw [hr]
  refine ⟨es₂ ++ es₃, q, alloc, ?_⟩
  unfold fillFreed
  rw [hc]
  split <;> simp

theorem internalFree_headers_of_ne (hhdr : g.headerEnabled) {pointer x : ℕ}
    (hx : x ≠ g.getHeader pointer) : (internalFree d g s pointer).headers x = s.headers x := by
  obtain ⟨es, q, alloc, he⟩ := internalFree_header_eq d g hhdr s pointer
  rw [he]
  exact Function.update_of_ne hx _ _

theorem internalFree_mem_of_not_mem (hhdr : g.headerEnabled) {pointer a : ℕ}
    (ha : a < pointer ∨ pointer + (s.headers (g.getHeader pointer)).usableSize ≤ a) :
    (internalFree d g s pointer).mem a = s.mem a := by
  obtain ⟨es, q, alloc, he⟩ := internalFree_header_eq d g hhdr s pointer
  rw [he]
  dsimp only
  split
  · exact memset_of_not_mem (by omega)
  · rfl

theorem contains_internalFree (hhdr : g.headerEnabled) {pointer q : ℕ} (hq : pointer ≠ q)
    (hc : PointerData.contains s.pointers q) :
    PointerData.contains (internalFree d g s pointer).pointers q := by
  obtain ⟨es, q', alloc, he⟩ := internalFree_header_eq d g hhdr s pointer
  rw [he]
  dsimp only
  split
  · rwa [PointerData.contains_filter hq]
  · exact hc

theorem corruptedGuard_mem_internalFree (hrear : g.config.has rearGuard) {pointer : ℕ}
    (hbad : ¬Filled s.mem (g.getRearGuard (g.getHeader pointer) (s.headers (g.getHeader pointer)).size)
      g.config.rearGuardBytes g.config.rearGuardValue) :
    .corruptedGuard (g.getPointer (g.getHeader pointer)) (s.headers (g.getHeader pointer)).size .rear ∈
      (internalFree d g s pointer).log := by
  have hhdr : g.headerEnabled := g.config.has_headerOptions_of_rearGuard hrear
  obtain ⟨es, q, alloc, he⟩ := internalFree_header_eq d g hhdr s pointer
  rw [he]
  exact List.mem_append_left _ (corruptedGuard_mem_checkGuards g hrear hbad)

end Free

/-! ## Realloc -/

section Realloc

variable {s : Heap σ}

/-- The `FILL_ON_ALLOC` step of `debug_realloc` stores nothing when the new block is no larger
than the bytes copied. -/
theorem reallocFill_of_le {newPointer prevSize : ℕ}
    (hle : internalMallocUsableSize d g s newPointer ≤ prevSize) :
    reallocFill d g s newPointer prevSize = s := by
  unfold reallocFill
  split
  · have hnot : ¬prevSize < min (internalMallocUsableSize d g s newPointer)
        g.config.fillOnAllocBytes := by omega
    simp only [hnot, if_false]
  · rfl

/-- **The allocate, copy and free path of `debug_realloc`.** With a header, a verified pointer
whose new `real_size` is neither its size nor below its usable size gets a new block of `bytes`,
into which the old usable size is copied before the old block is freed. -/
theorem debugRealloc_of_grow {pointer bytes : ℕ} (hhdr : g.headerEnabled) (hp0 : pointer ≠ 0)
    (hv : verifyPointer g s pointer "realloc" = (true, s)) (hb : 0 < bytes)
    (hmax : bytes ≤ maxSize) (hwrap : bytes + g.config.expandAllocBytes < 2 ^ 64)
    (hsize : reallocRealSize g bytes ≠ (s.headers (g.getHeader pointer)).size)
    (hgrow : (s.headers (g.getHeader pointer)).usableSize ≤ reallocRealSize g bytes) :
    debugRealloc d g s pointer bytes =
      let r := internalMalloc d g s bytes
      if r.1 = 0 then (0, { r.2 with errno := enomem })
      else
        let prevSize := (r.2.headers (g.getHeader pointer)).usableSize
        (r.1, reallocFill d g (internalFree d g { r.2 with mem := memcpy r.2.mem r.1 pointer prevSize }
          pointer) r.1 prevSize) := by
  have hnowrap : bytes ≤ reallocRealSize g bytes := by
    unfold reallocRealSize
    split
    · rw [Nat.mod_eq_of_lt hwrap]
      omega
    · exact le_refl _
  have hshrink : ¬reallocRealSize g bytes < (s.headers (g.getHeader pointer)).usableSize := by
    omega
  simp only [debugRealloc, hp0, hv, if_false, Bool.not_true, Bool.false_eq_true,
    Nat.pos_iff_ne_zero.mp hb, Nat.not_lt.mpr hnowrap, decide_false, Bool.and_false,
    Nat.not_lt.mpr hmax, hhdr, if_true, hsize, hshrink]

end Realloc

end Bionic.MallocDebug
