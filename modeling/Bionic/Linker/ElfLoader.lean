import Bionic.Lib.Align
import Mathlib.Tactic.Ring

/-!
# Loading the segments of an ELF file

`ElfReader::Load` reserves an address range for a library (`ReserveAddressSpace`), sized by
`phdr_table_get_load_size` from the `PT_LOAD` entries of its program header table, and then maps
each `PT_LOAD` segment into it (`ElfReader::LoadSegments`): the file pages holding the segment with
`MAP_FIXED`, a `memset` of the rest of the last file page of a writable segment, and anonymous
`MAP_FIXED` pages for the rest of the segment's memory. `loadSegments` returns these effects in
order, with whether the loop went through.

Nothing in `LoadSegments` compares a segment's mappings with the reservation: the file mapping's
length comes from `p_offset` and `p_filesz`, the reservation from `p_vaddr` and `p_memsz`.
`loadSegments_maps_past_reservation` loads a table whose segment has `p_filesz > p_memsz`: the
file is mapped with `MAP_FIXED` over pages past the reserved range, and the load goes on.

Page size is `page_size()`, any power of two (`Pow2Align`); `mmap` may fail at any call
(`mapSucceeds`), which stops the loop.
-/

set_option autoImplicit false
set_option relaxedAutoImplicit false

namespace Bionic.Linker.ElfLoader

open Bionic.Lib.Align

open scoped UInt64.CommRing

/-! ### Program headers -/

/-- `ElfW(Phdr)`, the fields the loader reads. -/
structure Phdr where
  pType : UInt32
  pFlags : UInt32
  pOffset : UInt64
  pVaddr : UInt64
  pFilesz : UInt64
  pMemsz : UInt64
  pAlign : UInt64
  deriving DecidableEq, Repr

def ptLoad : UInt32 := 1

def pfX : UInt32 := 0x1

def pfW : UInt32 := 0x2

def pfR : UInt32 := 0x4

def protRead : UInt32 := 0x1

def protWrite : UInt32 := 0x2

def protExec : UInt32 := 0x4

/-- `PFLAGS_TO_PROT`. -/
def pflagsToProt (x : UInt32) : UInt32 :=
  (if x &&& pfX ≠ 0 then protExec else 0) ||| (if x &&& pfR ≠ 0 then protRead else 0) |||
    (if x &&& pfW ≠ 0 then protWrite else 0)

section Pages

variable (pageSize : Pow2Align)

/-- `page_start`. -/
def pageStart (x : UInt64) : UInt64 := pageSize.down x

/-- `page_offset`. -/
def pageOffset (x : UInt64) : UInt64 := pageSize.offset x

/-- `page_end`. -/
def pageEnd (x : UInt64) : UInt64 := pageSize.up x

/-- One entry of the loop of `phdr_table_get_load_size`: the least `p_vaddr` and the greatest
`p_vaddr + p_memsz` of the `PT_LOAD` entries so far, and whether there was one. The sum wraps as
`ElfW(Addr)` does. -/
def loadBoundsStep (bounds : UInt64 × UInt64 × Bool) (phdr : Phdr) : UInt64 × UInt64 × Bool :=
  let (minVaddr, maxVaddr, _) := bounds
  if phdr.pType ≠ ptLoad then bounds
  else
    (if phdr.pVaddr < minVaddr then phdr.pVaddr else minVaddr,
      if phdr.pVaddr + phdr.pMemsz > maxVaddr then phdr.pVaddr + phdr.pMemsz else maxVaddr, true)

/-- `phdr_table_get_load_size`: the size of the page-aligned span of the `PT_LOAD` segments, with
its start and end. -/
def phdrTableGetLoadSize (phdrs : List Phdr) : UInt64 × UInt64 × UInt64 :=
  let (minVaddr, maxVaddr, foundPtLoad) := phdrs.foldl loadBoundsStep (0xFFFFFFFFFFFFFFFF, 0, false)
  let minVaddr := pageStart pageSize (if foundPtLoad then minVaddr else 0)
  let maxVaddr := pageEnd pageSize maxVaddr
  (maxVaddr - minVaddr, minVaddr, maxVaddr)

/-- The range `ReserveAddressSpace` hands the segments: `load_start_`, `load_size_` and
`load_bias_`. -/
structure Reservation where
  loadStart : UInt64
  loadSize : UInt64
  loadBias : UInt64
  deriving DecidableEq, Repr

/-- `ElfReader::ReserveAddressSpace` once `start` is known: the address `mmap` returned for a fresh
reservation, or the caller's `start_addr`. A table without loadable bytes is refused. -/
def reserveAddressSpace (phdrs : List Phdr) (start : UInt64) : Option Reservation :=
  let (loadSize, minVaddr, _) := phdrTableGetLoadSize pageSize phdrs
  if loadSize = 0 then none
  else some { loadStart := start, loadSize, loadBias := start - minVaddr }

/-- `_extend_load_segment_vma`: with padded segments, a segment whose memory is all file is
extended up to the page where the next `PT_LOAD` entry of the table starts. -/
def extendLoadSegmentVma (phdrs : List Phdr) (phdrIdx : ℕ) (pMemsz pFilesz : UInt64)
    (shouldPadSegments : Bool) : UInt64 × UInt64 :=
  match phdrs[phdrIdx]? with
  | none => (pMemsz, pFilesz)
  | some phdr =>
    if phdr.pAlign = pageSize.size ∨ !shouldPadSegments then (pMemsz, pFilesz)
    else
      match phdrs[phdrIdx + 1]? with
      | none => (pMemsz, pFilesz)
      | some next =>
        if next.pType ≠ ptLoad ∨ pMemsz ≠ pFilesz then (pMemsz, pFilesz)
        else
          let nextStart := pageStart pageSize next.pVaddr
          let currEnd := pageEnd pageSize (phdr.pVaddr + pMemsz)
          if currEnd ≥ nextStart then (pMemsz, pFilesz)
          else
            let extend := nextStart - currEnd
            (pMemsz + extend, pFilesz + extend)

/-- What `LoadSegments` does to memory: a `MAP_FIXED` mapping of file pages, a `memset` to zero,
or a `MAP_FIXED` anonymous mapping, each at an address with a length in bytes. -/
inductive Effect
  | mapFile (addr length : UInt64)
  | zeroFill (addr length : UInt64)
  | mapAnon (addr length : UInt64)
  deriving DecidableEq, Repr

/-- What `ElfReader` holds while it loads segments. `fileSize` is `file_size_` (an `off64_t`),
`targetSdkVersion` is `get_application_target_sdk_version()`, and `mapSucceeds` says which calls
to `mmap` succeed. -/
structure LoadContext where
  loadBias : UInt64
  fileSize : ℤ
  shouldPadSegments : Bool
  targetSdkVersion : ℕ
  mapSucceeds : Effect → Bool

/-- The body of the loop of `ElfReader::LoadSegments` for the `PT_LOAD` entry `phdr` at index
`phdrIdx`: the effects made, and whether the loop goes on. -/
def loadSegment (ctx : LoadContext) (phdrs : List Phdr) (phdrIdx : ℕ) (phdr : Phdr) :
    List Effect × Bool :=
  let (pMemsz, pFilesz) :=
    extendLoadSegmentVma pageSize phdrs phdrIdx phdr.pMemsz phdr.pFilesz ctx.shouldPadSegments
  let segStart := phdr.pVaddr + ctx.loadBias
  let segEnd := segStart + pMemsz
  let segPageEnd := pageEnd pageSize segEnd
  let segFileEnd := segStart + pFilesz
  let fileStart := phdr.pOffset
  let fileEnd := fileStart + pFilesz
  let fileLength := fileEnd - pageStart pageSize fileStart
  if ctx.fileSize ≤ 0 then ([], false)
  else if fileStart + phdr.pFilesz > UInt64.ofInt ctx.fileSize then ([], false)
  else
    -- the file pages, unless there are none
    let (mapped, ok) : List Effect × Bool :=
      if fileLength ≠ 0 then
        let prot := pflagsToProt phdr.pFlags
        if prot &&& (protExec ||| protWrite) = protExec ||| protWrite ∧
            26 ≤ ctx.targetSdkVersion then ([], false)
        else
          let effect := Effect.mapFile (pageStart pageSize segStart) fileLength
          ([effect], ctx.mapSucceeds effect)
      else ([], true)
    if !ok then (mapped, false)
    else
      -- the rest of the last file page of a writable segment, before any padding
      let unextendedSegFileEnd := segStart + phdr.pFilesz
      let zeroed :=
        if phdr.pFlags &&& pfW ≠ 0 ∧ pageOffset pageSize unextendedSegFileEnd > 0 then
          [Effect.zeroFill unextendedSegFileEnd
            (pageSize.size - pageOffset pageSize unextendedSegFileEnd)]
        else []
      let segFileEnd := pageEnd pageSize segFileEnd
      if segPageEnd > segFileEnd then
        let effect := Effect.mapAnon segFileEnd (segPageEnd - segFileEnd)
        (mapped ++ zeroed ++ [effect], ctx.mapSucceeds effect)
      else (mapped ++ zeroed, true)

/-- The loop of `ElfReader::LoadSegments` from the entry at index `phdrIdx` on. -/
def loadSegmentsFrom (ctx : LoadContext) (phdrs : List Phdr) :
    ℕ → List Phdr → List Effect × Bool
  | _, [] => ([], true)
  | phdrIdx, phdr :: rest =>
    if phdr.pType ≠ ptLoad then loadSegmentsFrom ctx phdrs (phdrIdx + 1) rest
    else
      let (effects, ok) := loadSegment pageSize ctx phdrs phdrIdx phdr
      if ok then
        let (more, ok) := loadSegmentsFrom ctx phdrs (phdrIdx + 1) rest
        (effects ++ more, ok)
      else (effects, false)

/-- `ElfReader::LoadSegments`: every effect made, in order, and its result. -/
def loadSegments (ctx : LoadContext) (phdrs : List Phdr) : List Effect × Bool :=
  loadSegmentsFrom pageSize ctx phdrs 0 phdrs

end Pages

/-! ### The span of the loadable segments

`phdr_table_get_load_size` rounds out the least `p_vaddr` and the greatest `p_vaddr + p_memsz` of
the `PT_LOAD` entries. For a table whose entries fit, nothing wraps, and the span it returns holds
the memory of every entry (`phdrTableGetLoadSize_covers`). -/

theorem loadBoundsStep_of_not_load (bounds : UInt64 × UInt64 × Bool) {phdr : Phdr}
    (hload : phdr.pType ≠ ptLoad) : loadBoundsStep bounds phdr = bounds := by
  obtain ⟨minVaddr, maxVaddr, found⟩ := bounds
  exact if_pos hload

theorem loadBoundsStep_of_load (minVaddr maxVaddr : UInt64) (found : Bool) {phdr : Phdr}
    (hload : phdr.pType = ptLoad) :
    loadBoundsStep (minVaddr, maxVaddr, found) phdr =
      (if phdr.pVaddr < minVaddr then phdr.pVaddr else minVaddr,
        if phdr.pVaddr + phdr.pMemsz > maxVaddr then phdr.pVaddr + phdr.pMemsz else maxVaddr,
        true) :=
  if_neg (not_not_intro hload)

theorem loadBoundsStep_mono (bounds : UInt64 × UInt64 × Bool) (phdr : Phdr) :
    (loadBoundsStep bounds phdr).1 ≤ bounds.1 ∧ bounds.2.1 ≤ (loadBoundsStep bounds phdr).2.1 ∧
      (bounds.2.2 = true → (loadBoundsStep bounds phdr).2.2 = true) := by
  by_cases hload : phdr.pType = ptLoad
  · obtain ⟨minVaddr, maxVaddr, found⟩ := bounds
    rw [loadBoundsStep_of_load minVaddr maxVaddr found hload]
    dsimp only
    refine ⟨?_, ?_, fun _ ↦ rfl⟩
    · split
      · exact UInt64.le_of_lt ‹_›
      · exact UInt64.le_refl _
    · split
      · exact UInt64.le_of_lt ‹_›
      · exact UInt64.le_refl _
  · rw [loadBoundsStep_of_not_load bounds hload]
    exact ⟨UInt64.le_refl _, UInt64.le_refl _, id⟩

theorem loadBoundsStep_bounds (bounds : UInt64 × UInt64 × Bool) {phdr : Phdr}
    (hload : phdr.pType = ptLoad) :
    (loadBoundsStep bounds phdr).1 ≤ phdr.pVaddr ∧
      phdr.pVaddr + phdr.pMemsz ≤ (loadBoundsStep bounds phdr).2.1 ∧
      (loadBoundsStep bounds phdr).2.2 = true := by
  obtain ⟨minVaddr, maxVaddr, found⟩ := bounds
  rw [loadBoundsStep_of_load minVaddr maxVaddr found hload]
  dsimp only
  refine ⟨?_, ?_, rfl⟩
  · split
    · exact UInt64.le_refl _
    · exact UInt64.not_lt.mp ‹_›
  · split
    · exact UInt64.le_refl _
    · exact UInt64.not_lt.mp ‹_›

theorem foldl_loadBoundsStep_mono (phdrs : List Phdr) (bounds : UInt64 × UInt64 × Bool) :
    (phdrs.foldl loadBoundsStep bounds).1 ≤ bounds.1 ∧
      bounds.2.1 ≤ (phdrs.foldl loadBoundsStep bounds).2.1 ∧
      (bounds.2.2 = true → (phdrs.foldl loadBoundsStep bounds).2.2 = true) := by
  induction phdrs generalizing bounds with
  | nil => exact ⟨UInt64.le_refl _, UInt64.le_refl _, id⟩
  | cons phdr rest ih =>
    obtain ⟨hmin, hmax, hfound⟩ := loadBoundsStep_mono bounds phdr
    obtain ⟨hmin', hmax', hfound'⟩ := ih (loadBoundsStep bounds phdr)
    exact ⟨UInt64.le_trans hmin' hmin, UInt64.le_trans hmax hmax', hfound' ∘ hfound⟩

theorem foldl_loadBoundsStep_bounds (phdrs : List Phdr) (bounds : UInt64 × UInt64 × Bool)
    {phdr : Phdr} (hmem : phdr ∈ phdrs) (hload : phdr.pType = ptLoad) :
    (phdrs.foldl loadBoundsStep bounds).1 ≤ phdr.pVaddr ∧
      phdr.pVaddr + phdr.pMemsz ≤ (phdrs.foldl loadBoundsStep bounds).2.1 ∧
      (phdrs.foldl loadBoundsStep bounds).2.2 = true := by
  induction phdrs generalizing bounds with
  | nil => simp at hmem
  | cons first rest ih =>
    rw [List.foldl_cons]
    rcases List.mem_cons.mp hmem with rfl | hrest
    · obtain ⟨hmin, hmax, hfound⟩ := loadBoundsStep_bounds bounds hload
      obtain ⟨hmin', hmax', hfound'⟩ := foldl_loadBoundsStep_mono rest (loadBoundsStep bounds phdr)
      exact ⟨UInt64.le_trans hmin' hmin, UInt64.le_trans hmax hmax', hfound' hfound⟩
    · exact ih _ hrest

/-- The greatest end the loop of `phdr_table_get_load_size` finds is where it started or the end
of a `PT_LOAD` entry. -/
theorem foldl_loadBoundsStep_max (phdrs : List Phdr) (bounds : UInt64 × UInt64 × Bool) :
    (phdrs.foldl loadBoundsStep bounds).2.1 = bounds.2.1 ∨
      ∃ phdr ∈ phdrs, phdr.pType = ptLoad ∧
        (phdrs.foldl loadBoundsStep bounds).2.1 = phdr.pVaddr + phdr.pMemsz := by
  induction phdrs generalizing bounds with
  | nil => exact Or.inl rfl
  | cons first rest ih =>
    rw [List.foldl_cons]
    rcases ih (loadBoundsStep bounds first) with hstep | ⟨phdr, hmem, hload, hmax⟩
    · -- nothing after `first` ends later: the end is the one `first` leaves
      rw [hstep]
      by_cases hload : first.pType = ptLoad
      · obtain ⟨minVaddr, maxVaddr, found⟩ := bounds
        rw [loadBoundsStep_of_load minVaddr maxVaddr found hload]
        dsimp only
        split
        · exact Or.inr ⟨first, List.mem_cons_self, hload, rfl⟩
        · exact Or.inl rfl
      · rw [loadBoundsStep_of_not_load bounds hload]
        exact Or.inl rfl
    · exact Or.inr ⟨phdr, List.mem_cons_of_mem _ hmem, hload, hmax⟩

section Span

variable (pageSize : Pow2Align)

/-- A `PT_LOAD` entry whose file part is no longer than its memory and starts at the same offset
in its page, and whose memory ends at least a page below `2 ^ 64`. -/
structure SegmentFits (phdr : Phdr) : Prop where
  filesz_le_memsz : phdr.pFilesz ≤ phdr.pMemsz
  pageOffset_eq : pageOffset pageSize phdr.pVaddr = pageOffset pageSize phdr.pOffset
  end_le : phdr.pVaddr.toNat + phdr.pMemsz.toNat + 2 ^ pageSize.bits ≤ 2 ^ 64

instance (phdr : Phdr) : Decidable (SegmentFits pageSize phdr) :=
  decidable_of_iff (_ ∧ _ ∧ _)
    ⟨fun ⟨h₁, h₂, h₃⟩ ↦ ⟨h₁, h₂, h₃⟩, fun ⟨h₁, h₂, h₃⟩ ↦ ⟨h₁, h₂, h₃⟩⟩

/-- The page-aligned range `[lo, hi)` holds the memory of every `PT_LOAD` entry. -/
structure SpanCovers (phdrs : List Phdr) (lo hi : UInt64) : Prop where
  lo_aligned : pageSize.Aligned lo
  hi_aligned : pageSize.Aligned hi
  lo_le : ∀ phdr ∈ phdrs, phdr.pType = ptLoad → lo.toNat ≤ phdr.pVaddr.toNat
  le_hi : ∀ phdr ∈ phdrs, phdr.pType = ptLoad →
    phdr.pVaddr.toNat + phdr.pMemsz.toNat ≤ hi.toNat

variable {pageSize} in
theorem SegmentFits.toNat_end {phdr : Phdr} (hfits : SegmentFits pageSize phdr) :
    (phdr.pVaddr + phdr.pMemsz).toNat = phdr.pVaddr.toNat + phdr.pMemsz.toNat :=
  toNat_add_of_lt (by have := hfits.end_le; have := Nat.two_pow_pos pageSize.bits; omega)

theorem phdrTableGetLoadSize_covers (phdrs : List Phdr)
    (hfits : ∀ phdr ∈ phdrs, phdr.pType = ptLoad → SegmentFits pageSize phdr) :
    SpanCovers pageSize phdrs (phdrTableGetLoadSize pageSize phdrs).2.1
      (phdrTableGetLoadSize pageSize phdrs).2.2 := by
  rcases hbounds : phdrs.foldl loadBoundsStep (0xFFFFFFFFFFFFFFFF, 0, false) with
    ⟨minVaddr, maxVaddr, found⟩
  simp only [phdrTableGetLoadSize, hbounds]
  -- the end found is `0` or the end of an entry, so rounding it up does not wrap
  have hmax : maxVaddr.toNat + 2 ^ pageSize.bits - 1 < 2 ^ 64 := by
    have hpos := Nat.two_pow_pos pageSize.bits
    rcases foldl_loadBoundsStep_max phdrs (0xFFFFFFFFFFFFFFFF, 0, false) with
      hzero | ⟨phdr, hmem, hload, hend⟩
    · rw [hbounds] at hzero
      have hlt := pageSize.two_pow_bits_lt
      simp only at hzero
      rw [hzero, UInt64.toNat_zero]
      omega
    · rw [hbounds] at hend
      have hfit := hfits phdr hmem hload
      simp only at hend
      rw [hend, hfit.toNat_end]
      have := hfit.end_le
      omega
  refine ⟨pageSize.aligned_down _, pageSize.aligned_up _, ?_, ?_⟩
  · intro phdr hmem hload
    obtain ⟨hmin, -, hfound⟩ := foldl_loadBoundsStep_bounds phdrs _ hmem hload
    rw [hbounds] at hmin hfound
    simp only at hmin hfound
    rw [hfound, if_pos rfl]
    exact (pageSize.toNat_down_le _).trans (UInt64.le_iff_toNat_le.mp hmin)
  · intro phdr hmem hload
    obtain ⟨-, hend, -⟩ := foldl_loadBoundsStep_bounds phdrs _ hmem hload
    rw [hbounds] at hend
    simp only at hend
    rw [← (hfits phdr hmem hload).toNat_end]
    exact (UInt64.le_iff_toNat_le.mp hend).trans (pageSize.le_toNat_up hmax)

theorem phdrTableGetLoadSize_size (phdrs : List Phdr) :
    (phdrTableGetLoadSize pageSize phdrs).1 =
      (phdrTableGetLoadSize pageSize phdrs).2.2 - (phdrTableGetLoadSize pageSize phdrs).2.1 := by
  unfold phdrTableGetLoadSize
  rcases phdrs.foldl loadBoundsStep (0xFFFFFFFFFFFFFFFF, 0, false) with ⟨_, _, _⟩
  rfl

/-- A reservation starts at `start`, is as long as the span of the segments and carries the
lowest segment page to `start`. -/
theorem reserveAddressSpace_covers {phdrs : List Phdr} {start : UInt64} {r : Reservation}
    (hfits : ∀ phdr ∈ phdrs, phdr.pType = ptLoad → SegmentFits pageSize phdr)
    (hr : reserveAddressSpace pageSize phdrs start = some r) :
    ∃ lo hi, SpanCovers pageSize phdrs lo hi ∧ r = ⟨start, hi - lo, start - lo⟩ := by
  have hspan := phdrTableGetLoadSize_covers pageSize phdrs hfits
  have hsize := phdrTableGetLoadSize_size pageSize phdrs
  rcases hload : phdrTableGetLoadSize pageSize phdrs with ⟨loadSize, lo, hi⟩
  rw [hload] at hspan hsize
  dsimp only at hspan hsize
  simp only [reserveAddressSpace, hload] at hr
  split_ifs at hr
  refine ⟨lo, hi, hspan, ?_⟩
  rw [← Option.some.inj hr, hsize]

end Span

/-! ### One segment -/

section Segment

variable (pageSize : Pow2Align)

/-- `_extend_load_segment_vma` leaves the sizes alone, or extends a segment whose memory is all
file up to the page of the next entry, a `PT_LOAD` starting past the segment's last page. -/
theorem extendLoadSegmentVma_cases {phdrs : List Phdr} {phdrIdx : ℕ} {phdr : Phdr}
    (hidx : phdrs[phdrIdx]? = some phdr) (pMemsz pFilesz : UInt64) (shouldPadSegments : Bool) :
    extendLoadSegmentVma pageSize phdrs phdrIdx pMemsz pFilesz shouldPadSegments =
        (pMemsz, pFilesz) ∨
      ∃ next, phdrs[phdrIdx + 1]? = some next ∧ next.pType = ptLoad ∧ pMemsz = pFilesz ∧
        pageEnd pageSize (phdr.pVaddr + pMemsz) < pageStart pageSize next.pVaddr ∧
        extendLoadSegmentVma pageSize phdrs phdrIdx pMemsz pFilesz shouldPadSegments =
          (pMemsz + (pageStart pageSize next.pVaddr - pageEnd pageSize (phdr.pVaddr + pMemsz)),
            pFilesz + (pageStart pageSize next.pVaddr - pageEnd pageSize (phdr.pVaddr + pMemsz))) := by
  unfold extendLoadSegmentVma
  simp only [hidx]
  split_ifs with hskip
  · exact Or.inl rfl
  · split
    · exact Or.inl rfl
    · rename_i next hnext
      split_ifs with hkeep hoverlap
      · exact Or.inl rfl
      · exact Or.inl rfl
      · obtain ⟨hload, hall⟩ := not_or.mp hkeep
        exact Or.inr ⟨next, hnext, not_not.mp hload, not_not.mp hall, UInt64.not_le.mp hoverlap,
          rfl⟩

/-- The effects of one segment: the file pages, the rest of the last file page, and the
anonymous pages after the file, the sizes being those `_extend_load_segment_vma` left. -/
theorem mem_loadSegment {ctx : LoadContext} {phdrs : List Phdr} {phdrIdx : ℕ} {phdr : Phdr}
    {pMemsz pFilesz : UInt64}
    (hext : extendLoadSegmentVma pageSize phdrs phdrIdx phdr.pMemsz phdr.pFilesz
      ctx.shouldPadSegments = (pMemsz, pFilesz))
    {effect : Effect} (heffect : effect ∈ (loadSegment pageSize ctx phdrs phdrIdx phdr).1) :
    effect = .mapFile (pageStart pageSize (phdr.pVaddr + ctx.loadBias))
        (phdr.pOffset + pFilesz - pageStart pageSize phdr.pOffset) ∨
      (effect = .zeroFill (phdr.pVaddr + ctx.loadBias + phdr.pFilesz)
          (pageSize.size - pageOffset pageSize (phdr.pVaddr + ctx.loadBias + phdr.pFilesz)) ∧
        pageOffset pageSize (phdr.pVaddr + ctx.loadBias + phdr.pFilesz) > 0) ∨
      (effect = .mapAnon (pageEnd pageSize (phdr.pVaddr + ctx.loadBias + pFilesz))
          (pageEnd pageSize (phdr.pVaddr + ctx.loadBias + pMemsz) -
            pageEnd pageSize (phdr.pVaddr + ctx.loadBias + pFilesz)) ∧
        pageEnd pageSize (phdr.pVaddr + ctx.loadBias + pFilesz) <
          pageEnd pageSize (phdr.pVaddr + ctx.loadBias + pMemsz)) := by
  simp only [loadSegment, hext] at heffect
  -- every branch leaves a list of at most three effects; each is one of the three forms
  split_ifs at heffect <;> simp only [List.mem_append, List.mem_cons, List.not_mem_nil,
    or_false, List.nil_append, List.append_nil, or_assoc] at heffect <;>
    rcases heffect with rfl | rfl | rfl <;>
    first
      | exact Or.inl rfl
      | exact Or.inr (Or.inl ⟨rfl, ‹_ ∧ _›.2⟩)
      | exact Or.inr (Or.inr ⟨rfl, ‹_ > _›⟩)

/-- Padding keeps a fitting segment's file part within its memory, and its memory within the
span: the extension stops at the first page of the next `PT_LOAD` entry. -/
theorem extendLoadSegmentVma_le_span {phdrs : List Phdr} {phdrIdx : ℕ} {phdr : Phdr}
    {lo hi : UInt64} (hspan : SpanCovers pageSize phdrs lo hi)
    (hfits : ∀ phdr ∈ phdrs, phdr.pType = ptLoad → SegmentFits pageSize phdr)
    (hidx : phdrs[phdrIdx]? = some phdr) (hload : phdr.pType = ptLoad) (shouldPadSegments : Bool)
    {pMemsz pFilesz : UInt64}
    (hext : extendLoadSegmentVma pageSize phdrs phdrIdx phdr.pMemsz phdr.pFilesz
      shouldPadSegments = (pMemsz, pFilesz)) :
    phdr.pMemsz.toNat ≤ pMemsz.toNat ∧ pFilesz.toNat ≤ pMemsz.toNat ∧
      phdr.pVaddr.toNat + pMemsz.toNat ≤ hi.toNat := by
  have hmem : phdr ∈ phdrs := List.mem_of_getElem? hidx
  have hfit := hfits phdr hmem hload
  rcases extendLoadSegmentVma_cases pageSize hidx phdr.pMemsz phdr.pFilesz shouldPadSegments with
    hkeep | ⟨next, hnext, hnextLoad, hall, hgap, hextend⟩
  · obtain ⟨rfl, rfl⟩ := Prod.mk.inj (hkeep.symm.trans hext)
    exact ⟨le_rfl, UInt64.le_iff_toNat_le.mp hfit.filesz_le_memsz, hspan.le_hi phdr hmem hload⟩
  · obtain ⟨rfl, rfl⟩ := Prod.mk.inj (hextend.symm.trans hext)
    rw [← hall]
    -- the extension runs from the end of the segment's last page to the next segment's first
    set currEnd := pageEnd pageSize (phdr.pVaddr + phdr.pMemsz)
    set nextStart := pageStart pageSize next.pVaddr
    have hcurr : phdr.pVaddr.toNat + phdr.pMemsz.toNat ≤ currEnd.toNat := by
      rw [← hfit.toNat_end]
      exact pageSize.le_toNat_up (by rw [hfit.toNat_end]; have := hfit.end_le; omega)
    have hnextStart : nextStart.toNat ≤ hi.toNat :=
      (pageSize.toNat_down_le _).trans
        ((Nat.le_add_right _ _).trans (hspan.le_hi next (List.mem_of_getElem? hnext) hnextLoad))
    have hgapNat := UInt64.lt_iff_toNat_lt.mp hgap
    have hextendNat : (nextStart - currEnd).toNat = nextStart.toNat - currEnd.toNat :=
      UInt64.toNat_sub_of_le _ _ (UInt64.le_of_lt hgap)
    have hsum : (phdr.pMemsz + (nextStart - currEnd)).toNat =
        phdr.pMemsz.toNat + (nextStart - currEnd).toNat :=
      toNat_add_of_lt (by have := nextStart.toNat_lt; omega)
    rw [hsum, hextendNat]
    omega

end Segment

/-! ### Effects inside the reservation

An effect touches whole pages (`mmap`) or the bytes asked for (`memset`). A reservation whose
start is aligned ends at a page boundary; an effect computed from addresses of the reservation
stays in it (`within_mapFile`, `within_zeroFill`, `within_mapAnon`), and so every effect of a table
whose entries fit does (`loadSegments_within_reservation`). -/

/-- The bytes an effect touches: `mmap` maps whole pages, `memset` the bytes asked for. -/
def Effect.extent (pageSize : Pow2Align) : Effect → ℕ × ℕ
  | .mapFile addr length => (addr.toNat, addr.toNat + (pageEnd pageSize length).toNat)
  | .zeroFill addr length => (addr.toNat, addr.toNat + length.toNat)
  | .mapAnon addr length => (addr.toNat, addr.toNat + (pageEnd pageSize length).toNat)

/-- An effect touches only bytes of the reserved range. -/
def Effect.Within (pageSize : Pow2Align) (reservation : Reservation) (effect : Effect) : Prop :=
  reservation.loadStart.toNat ≤ (effect.extent pageSize).1 ∧
    (effect.extent pageSize).2 ≤ reservation.loadStart.toNat + reservation.loadSize.toNat

instance (pageSize : Pow2Align) (reservation : Reservation) (effect : Effect) :
    Decidable (effect.Within pageSize reservation) :=
  inferInstanceAs (Decidable (_ ∧ _))

section Reservation

variable (pageSize : Pow2Align)

variable {r : Reservation}

theorem within_mapFile (hstart : pageSize.Aligned r.loadStart)
    (hend : 2 ^ pageSize.bits ∣ r.loadStart.toNat + r.loadSize.toNat)
    (hroom : r.loadStart.toNat + r.loadSize.toNat + 2 ^ pageSize.bits ≤ 2 ^ 64)
    {addr length : UInt64} {n : ℕ} (haddr : r.loadStart.toNat ≤ addr.toNat)
    (hlength : length.toNat = addr.toNat % 2 ^ pageSize.bits + n)
    (hn : addr.toNat + n ≤ r.loadStart.toNat + r.loadSize.toNat) :
    (Effect.mapFile (pageStart pageSize addr) length).Within pageSize r := by
  have hsplit : (pageStart pageSize addr).toNat + addr.toNat % 2 ^ pageSize.bits = addr.toNat := by
    rw [← pageSize.toNat_offset]
    exact pageSize.toNat_down_add_toNat_offset addr
  have hpos := Nat.two_pow_pos pageSize.bits
  -- the pages mapped end at the first page boundary past `addr + n`, which the end bounds
  have hpages : (pageEnd pageSize length).toNat ≤
      r.loadStart.toNat + r.loadSize.toNat - (pageStart pageSize addr).toNat :=
    pageSize.toNat_up_le (by omega) (Nat.dvd_sub hend (pageSize.aligned_down addr)) (by omega)
  refine ⟨pageSize.le_toNat_down hstart haddr, ?_⟩
  show (pageStart pageSize addr).toNat + (pageEnd pageSize length).toNat ≤ _
  omega

theorem within_zeroFill (hend : 2 ^ pageSize.bits ∣ r.loadStart.toNat + r.loadSize.toNat)
    {addr : UInt64} (haddr : r.loadStart.toNat ≤ addr.toNat)
    (hle : addr.toNat ≤ r.loadStart.toNat + r.loadSize.toNat)
    (hoffset : pageOffset pageSize addr > 0) :
    (Effect.zeroFill addr (pageSize.size - pageOffset pageSize addr)).Within pageSize r := by
  have hsplit := pageSize.toNat_down_add_toNat_offset addr
  have hoffsetNat : 0 < (pageOffset pageSize addr).toNat := UInt64.lt_iff_toNat_lt.mp hoffset
  have hoffsetLt : (pageOffset pageSize addr).toNat < 2 ^ pageSize.bits := by
    show (pageSize.offset addr).toNat < _
    rw [pageSize.toNat_offset]
    exact Nat.mod_lt _ (Nat.two_pow_pos _)
  have hlength : (pageSize.size - pageOffset pageSize addr).toNat =
      2 ^ pageSize.bits - (pageOffset pageSize addr).toNat := by
    rw [UInt64.toNat_sub_of_le _ _ (UInt64.le_iff_toNat_le.mpr (by rw [pageSize.toNat_size]; omega)),
      pageSize.toNat_size]
  -- `addr` is past its page's start, so that page ends at or before the reservation does
  have hpage : (pageSize.down addr).toNat + 2 ^ pageSize.bits ≤
      r.loadStart.toNat + r.loadSize.toNat :=
    add_le_of_dvd_of_lt (pageSize.aligned_down addr) hend (by
      show (pageSize.down addr).toNat < _
      have : (pageSize.offset addr).toNat = (pageOffset pageSize addr).toNat := rfl
      omega)
  refine ⟨haddr, ?_⟩
  show addr.toNat + (pageSize.size - pageOffset pageSize addr).toNat ≤ _
  have : (pageSize.offset addr).toNat = (pageOffset pageSize addr).toNat := rfl
  omega

theorem within_mapAnon (hend : 2 ^ pageSize.bits ∣ r.loadStart.toNat + r.loadSize.toNat)
    (hroom : r.loadStart.toNat + r.loadSize.toNat + 2 ^ pageSize.bits ≤ 2 ^ 64)
    {low high : UInt64} (hlow : r.loadStart.toNat ≤ low.toNat)
    (hle : low.toNat ≤ high.toNat) (hhigh : high.toNat ≤ r.loadStart.toNat + r.loadSize.toNat)
    (hlt : pageEnd pageSize low < pageEnd pageSize high) :
    (Effect.mapAnon (pageEnd pageSize low)
      (pageEnd pageSize high - pageEnd pageSize low)).Within pageSize r := by
  have hhighUp : (pageEnd pageSize high).toNat ≤ r.loadStart.toNat + r.loadSize.toNat :=
    pageSize.toNat_up_le (by omega) hend hhigh
  have hlowUp : low.toNat ≤ (pageEnd pageSize low).toNat := pageSize.le_toNat_up (by omega)
  have hltNat := UInt64.lt_iff_toNat_lt.mp hlt
  have hlength : (pageEnd pageSize high - pageEnd pageSize low).toNat =
      (pageEnd pageSize high).toNat - (pageEnd pageSize low).toNat :=
    UInt64.toNat_sub_of_le _ _ (UInt64.le_of_lt hlt)
  -- the length is a whole number of pages, so mapping it maps exactly up to `pageEnd high`
  have haligned : pageSize.Aligned (pageEnd pageSize high - pageEnd pageSize low) := by
    rw [Pow2Align.Aligned, hlength]
    exact Nat.dvd_sub (pageSize.aligned_up high) (pageSize.aligned_up low)
  have hpages := pageSize.toNat_up_of_aligned (by omega) haligned
  refine ⟨hlow.trans hlowUp, ?_⟩
  show (pageEnd pageSize low).toNat +
    (pageEnd pageSize (pageEnd pageSize high - pageEnd pageSize low)).toNat ≤ _
  rw [show pageEnd pageSize (pageEnd pageSize high - pageEnd pageSize low) =
    pageSize.up (pageEnd pageSize high - pageEnd pageSize low) from rfl, hpages, hlength]
  omega

/-- One `PT_LOAD` entry of a fitting table, loaded at the bias of its reservation, makes its
effects inside the reservation. -/
theorem loadSegment_within {ctx : LoadContext} {phdrs : List Phdr} {phdrIdx : ℕ} {phdr : Phdr}
    {start lo hi : UInt64} (hspan : SpanCovers pageSize phdrs lo hi)
    (hfits : ∀ phdr ∈ phdrs, phdr.pType = ptLoad → SegmentFits pageSize phdr)
    (hidx : phdrs[phdrIdx]? = some phdr) (hload : phdr.pType = ptLoad)
    (hbias : ctx.loadBias = start - lo) (hstart : pageSize.Aligned start)
    (hroom : start.toNat + (hi - lo).toNat + 2 ^ pageSize.bits ≤ 2 ^ 64) :
    ∀ effect ∈ (loadSegment pageSize ctx phdrs phdrIdx phdr).1,
      effect.Within pageSize ⟨start, hi - lo, start - lo⟩ := by
  intro effect heffect
  rcases hext : extendLoadSegmentVma pageSize phdrs phdrIdx phdr.pMemsz phdr.pFilesz
    ctx.shouldPadSegments with ⟨pMemsz, pFilesz⟩
  obtain ⟨hmemsz, hfilesz, hspanEnd⟩ :=
    extendLoadSegmentVma_le_span pageSize hspan hfits hidx hload _ hext
  have hmem : phdr ∈ phdrs := List.mem_of_getElem? hidx
  have hfit := hfits phdr hmem hload
  have hfileMem := UInt64.le_iff_toNat_le.mp hfit.filesz_le_memsz
  have hlo := hspan.lo_le phdr hmem hload
  have hsize : (hi - lo).toNat = hi.toNat - lo.toNat :=
    UInt64.toNat_sub_of_le _ _ (UInt64.le_iff_toNat_le.mpr (by omega))
  have hend : 2 ^ pageSize.bits ∣ start.toNat + (hi - lo).toNat := by
    rw [hsize]
    exact Nat.dvd_add hstart (Nat.dvd_sub hspan.hi_aligned hspan.lo_aligned)
  -- the segment starts `p_vaddr - lo` into the reservation
  have hseg : (phdr.pVaddr + ctx.loadBias).toNat =
      start.toNat + (phdr.pVaddr.toNat - lo.toNat) := by
    have hdiff : (phdr.pVaddr - lo).toNat = phdr.pVaddr.toNat - lo.toNat :=
      UInt64.toNat_sub_of_le _ _ (UInt64.le_iff_toNat_le.mpr hlo)
    rw [hbias, show phdr.pVaddr + (start - lo) = start + (phdr.pVaddr - lo) by ring,
      toNat_add_of_lt (by omega), hdiff]
  rcases mem_loadSegment pageSize hext heffect with rfl | ⟨rfl, hoffset⟩ | ⟨rfl, hgap⟩
  · -- `file_length` is the offset of `p_offset` in its page, that of the segment, plus the file
    have hword : phdr.pOffset + pFilesz - pageStart pageSize phdr.pOffset =
        pageOffset pageSize phdr.pOffset + pFilesz := by
      have hsplit : pageStart pageSize phdr.pOffset + pageOffset pageSize phdr.pOffset =
          phdr.pOffset :=
        pageSize.down_add_offset phdr.pOffset
      calc phdr.pOffset + pFilesz - pageStart pageSize phdr.pOffset
          = pageStart pageSize phdr.pOffset + pageOffset pageSize phdr.pOffset + pFilesz -
              pageStart pageSize phdr.pOffset := by rw [hsplit]
        _ = pageOffset pageSize phdr.pOffset + pFilesz := by ring
    have hoffsetNat : (pageOffset pageSize phdr.pOffset).toNat =
        (phdr.pVaddr + ctx.loadBias).toNat % 2 ^ pageSize.bits := by
      rw [← hfit.pageOffset_eq, hseg, add_sub_mod_of_dvd hstart hspan.lo_aligned hlo]
      exact pageSize.toNat_offset _
    have hmod := Nat.mod_le (phdr.pVaddr + ctx.loadBias).toNat (2 ^ pageSize.bits)
    have hlength : (phdr.pOffset + pFilesz - pageStart pageSize phdr.pOffset).toNat =
        (phdr.pVaddr + ctx.loadBias).toNat % 2 ^ pageSize.bits + pFilesz.toNat := by
      rw [hword, toNat_add_of_lt (by omega), hoffsetNat]
    exact within_mapFile pageSize hstart hend hroom (by dsimp only; omega) hlength
      (by dsimp only; omega)
  · have haddr : (phdr.pVaddr + ctx.loadBias + phdr.pFilesz).toNat =
        (phdr.pVaddr + ctx.loadBias).toNat + phdr.pFilesz.toNat :=
      toNat_add_of_lt (by omega)
    exact within_zeroFill pageSize hend (by dsimp only; omega) (by dsimp only; omega) hoffset
  · have hlow : (phdr.pVaddr + ctx.loadBias + pFilesz).toNat =
        (phdr.pVaddr + ctx.loadBias).toNat + pFilesz.toNat :=
      toNat_add_of_lt (by omega)
    have hhigh : (phdr.pVaddr + ctx.loadBias + pMemsz).toNat =
        (phdr.pVaddr + ctx.loadBias).toNat + pMemsz.toNat :=
      toNat_add_of_lt (by omega)
    exact within_mapAnon pageSize hend hroom (by dsimp only; omega) (by omega)
      (by dsimp only; omega) hgap

/-- Every effect of the loop of `LoadSegments` from index `phdrIdx` on is an effect of one of
the `PT_LOAD` entries of the table. -/
theorem mem_loadSegmentsFrom {ctx : LoadContext} {phdrs : List Phdr} (phdrIdx : ℕ)
    (rest : List Phdr) (hrest : phdrs.drop phdrIdx = rest) {effect : Effect}
    (heffect : effect ∈ (loadSegmentsFrom pageSize ctx phdrs phdrIdx rest).1) :
    ∃ j phdr, phdrs[j]? = some phdr ∧ phdr.pType = ptLoad ∧
      effect ∈ (loadSegment pageSize ctx phdrs j phdr).1 := by
  induction rest generalizing phdrIdx with
  | nil => simp [loadSegmentsFrom] at heffect
  | cons phdr rest ih =>
    have hidx : phdrs[phdrIdx]? = some phdr := by
      rw [← List.head?_drop, hrest]
      rfl
    have hnext : phdrs.drop (phdrIdx + 1) = rest := by
      rw [← List.tail_drop, hrest]
      rfl
    unfold loadSegmentsFrom at heffect
    split_ifs at heffect with hload
    · exact ih (phdrIdx + 1) hnext heffect
    · rcases hseg : loadSegment pageSize ctx phdrs phdrIdx phdr with ⟨effects, ok⟩
      have hthis : ∀ e ∈ effects, ∃ j phdr, phdrs[j]? = some phdr ∧ phdr.pType = ptLoad ∧
          e ∈ (loadSegment pageSize ctx phdrs j phdr).1 :=
        fun e he ↦ ⟨phdrIdx, phdr, hidx, not_not.mp hload, by rw [hseg]; exact he⟩
      simp only [hseg] at heffect
      -- the loop goes on after this segment only when it went through
      cases ok
      · exact hthis effect heffect
      · rcases List.mem_append.mp heffect with hmine | hmore
        · exact hthis effect hmine
        · exact ih (phdrIdx + 1) hnext hmore

/-- `LoadSegments` maps and writes only inside the reservation, for a table whose `PT_LOAD`
entries fit (file part within memory at the same page offset, nothing within a page of
`2 ^ 64`), loaded at an aligned start whose reservation ends a page below `2 ^ 64`. -/
theorem loadSegments_within_reservation {phdrs : List Phdr} (start : UInt64) {r : Reservation}
    {ctx : LoadContext} (hfits : ∀ phdr ∈ phdrs, phdr.pType = ptLoad → SegmentFits pageSize phdr)
    (hr : reserveAddressSpace pageSize phdrs start = some r) (hbias : ctx.loadBias = r.loadBias)
    (hstart : pageSize.Aligned start)
    (hroom : start.toNat + r.loadSize.toNat + 2 ^ pageSize.bits ≤ 2 ^ 64) :
    ∀ effect ∈ (loadSegments pageSize ctx phdrs).1, effect.Within pageSize r := by
  obtain ⟨lo, hi, hspan, rfl⟩ := reserveAddressSpace_covers pageSize hfits hr
  intro effect heffect
  obtain ⟨j, phdr, hidx, hload, hmem⟩ := mem_loadSegmentsFrom pageSize 0 phdrs rfl heffect
  exact loadSegment_within pageSize hspan hfits hidx hload hbias hstart hroom effect hmem

end Reservation

/-- 4 KiB pages. -/
def pageSize4k : Pow2Align := ⟨12, by decide⟩

/-- Text of `0x1800` bytes aligned to 64 KiB, and data of `0x2000` bytes of which `0x200` come
from the file, at the same offset in its page as in the file. -/
def paddedTable : List Phdr :=
  [⟨ptLoad, pfR ||| pfX, 0, 0, 0x1800, 0x1800, 0x10000⟩,
    ⟨ptLoad, pfR ||| pfW, 0x3100, 0x5100, 0x200, 0x2000, 0x10000⟩]

/-- A padded load of `paddedTable` at `0x70000000`, with every `mmap` succeeding. -/
def paddedContext : LoadContext :=
  { loadBias := 0x70000000, fileSize := 0x4000, shouldPadSegments := true,
    targetSdkVersion := 34, mapSucceeds := fun _ ↦ true }

/-- The text is padded up to the data's first page, and the data's file page, the rest of that
page and its anonymous page all stay in the eight reserved pages. -/
theorem loadSegments_within_reservation_paddedTable :
    loadSegments pageSize4k paddedContext paddedTable =
        ([.mapFile 0x70000000 0x4800, .mapFile 0x70005000 0x300, .zeroFill 0x70005300 0xd00,
          .mapAnon 0x70006000 0x2000], true) ∧
      ∀ effect ∈ (loadSegments pageSize4k paddedContext paddedTable).1,
        effect.Within pageSize4k ⟨0x70000000, 0x8000, 0x70000000⟩ :=
  ⟨by decide,
    loadSegments_within_reservation pageSize4k 0x70000000 (by decide) (by decide) rfl
      (by decide) (by decide)⟩

/-! ### Mappings past the reservation -/

/-- One readable `PT_LOAD` segment of one page of memory whose file part is three pages long. -/
def longFileSegment : List Phdr := [⟨ptLoad, pfR, 0, 0, 0x3000, 0x1000, 0x1000⟩]

/-- The context of a load of `longFileSegment` from a file of three pages at `0x70000000`, with
every `mmap` succeeding. -/
def longFileContext : LoadContext :=
  { loadBias := 0x70000000, fileSize := 0x3000, shouldPadSegments := false,
    targetSdkVersion := 34, mapSucceeds := fun _ ↦ true }

/-- `LoadSegments` maps a segment whose `p_filesz` exceeds its `p_memsz` with `MAP_FIXED` over
pages past the reserved range, and goes on: the reservation is one page, the mapping three. -/
theorem loadSegments_maps_past_reservation :
    reserveAddressSpace pageSize4k longFileSegment 0x70000000 =
        some ⟨0x70000000, 0x1000, 0x70000000⟩ ∧
      loadSegments pageSize4k longFileContext longFileSegment =
        ([.mapFile 0x70000000 0x3000], true) ∧
      ¬(Effect.mapFile 0x70000000 0x3000).Within pageSize4k ⟨0x70000000, 0x1000, 0x70000000⟩ := by
  decide

end Bionic.Linker.ElfLoader
