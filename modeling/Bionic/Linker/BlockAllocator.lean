import Mathlib.Data.List.Nodup
import Mathlib.Data.List.Pairwise
import Mathlib.Logic.Function.Basic
import Mathlib.Algebra.Order.Ring.Nat

/-!
# The linker's block allocator

`LinkerBlockAllocator` hands out blocks of `block_size_` bytes from pages of `kAllocateSize`
bytes that it maps one at a time. A page is a `next` pointer and then its `bytes`, aligned to
16. Free space is a list of runs threaded through memory: the first block of a run holds a
`FreeBlockInfo` (the next run and the number of blocks in this one). `alloc` takes the first
block of the first run and writes a shorter run into the block after it; `free` pushes the
block as a run of one.

Memory is modelled as a word at each address, a word being a pointer (`ptrSize` bytes); every
store the allocator makes is to the first two words of a block, and `memset` clears the words
of a block. The page list is the list of the pages from `page_list_` along `page->next`; those
words lie before every page's bytes and only `create_new_page` writes them. `mmap` is a
parameter of `alloc`: the address of the page it maps, apart from the allocator's pages.

The invariant `Inv` ties the allocator to the blocks its client holds and to the runs read from
memory: the blocks of the runs and the held blocks are a permutation of the blocks of all pages
(`Inv.perm`), which gives at once that no block is lost and none is both free and held, or free
twice. Distinct blocks of pages that lie apart do not overlap (`blocks_separated`), so a store
into one block keeps the runs' headers in every other block (`FreeRuns.frame`).

Main results: `alloc_inv`, `free_inv` and `purge_inv` keep the invariant; `run_inv` carries it
along every run of calls that frees only held blocks; `run_init` states the claim for an
allocator constructed with a block size that a page holds, and `alloc_overruns_page` shows
that a larger block size breaks it.
-/

set_option autoImplicit false
set_option relaxedAutoImplicit false

namespace Bionic.Linker.BlockAllocator

/-- `kMaxPageSize`. -/
def kMaxPageSize : ℕ := 65536

/-- `kAllocateSize`, the size of a page of the allocator. -/
def kAllocateSize : ℕ := kMaxPageSize * 6

/-- `offsetof(LinkerBlockAllocatorPage, bytes)`: `bytes` is aligned to 16. -/
def bytesOffset : ℕ := 16

/-- `sizeof(LinkerBlockAllocatorPage::bytes)`. -/
def bytesSize : ℕ := kAllocateSize - 16

section Model

variable (ptrSize : ℕ)

/-- `kBlockSizeAlign`, `sizeof(void*)`. -/
def kBlockSizeAlign : ℕ := ptrSize

/-- `kBlockSizeMin`, `sizeof(FreeBlockInfo)`. -/
def kBlockSizeMin : ℕ := ptrSize * 2

/-- `FreeBlockInfo`. -/
structure FreeBlockInfo where
  nextBlock : ℕ
  numFreeBlocks : ℕ

/-- The `FreeBlockInfo` at `a`: `next_block`, then `num_free_blocks` one word on. -/
def readInfo (mem : ℕ → ℕ) (a : ℕ) : FreeBlockInfo := ⟨mem a, mem (a + ptrSize)⟩

/-- Store a `FreeBlockInfo` at `a`. -/
def writeInfo (mem : ℕ → ℕ) (a : ℕ) (info : FreeBlockInfo) : ℕ → ℕ :=
  Function.update (Function.update mem a info.nextBlock) (a + ptrSize) info.numFreeBlocks

/-- `memset(p, 0, n)`. -/
def memsetZero (mem : ℕ → ℕ) (p n : ℕ) : ℕ → ℕ := fun x ↦ if p ≤ x ∧ x < p + n then 0 else mem x

/-- A `LinkerBlockAllocator` and the memory it keeps its free list in. -/
structure LinkerBlockAllocator where
  blockSize : ℕ
  pageList : List ℕ
  freeBlockList : ℕ
  allocated : ℕ
  mem : ℕ → ℕ

namespace LinkerBlockAllocator

/-- The constructor: `block_size_` is `__BIONIC_ALIGN(MAX(block_size, kBlockSizeMin),
kBlockSizeAlign)`, the sum taken in `size_t`; masking with `~(kBlockSizeAlign - 1)` rounds down
to a multiple of the power of two `kBlockSizeAlign`. -/
def init (blockSize : ℕ) (mem : ℕ → ℕ) : LinkerBlockAllocator :=
  ⟨(max blockSize (kBlockSizeMin ptrSize) + kBlockSizeAlign ptrSize - 1) % 2 ^ (8 * ptrSize) /
    kBlockSizeAlign ptrSize * kBlockSizeAlign ptrSize, [], 0, 0, mem⟩

/-- `create_new_page()`, `mmap` returning `page`. -/
def createNewPage (page : ℕ) (s : LinkerBlockAllocator) : LinkerBlockAllocator :=
  let firstBlock := page + bytesOffset
  { s with
    mem := writeInfo ptrSize s.mem firstBlock ⟨s.freeBlockList, bytesSize / s.blockSize⟩
    freeBlockList := firstBlock
    pageList := page :: s.pageList }

/-- The body of `alloc()` once `free_block_list_` is not null: the first block of the first
run, the rest of the run written into the block after it. -/
def takeFreeBlock (s : LinkerBlockAllocator) : ℕ × LinkerBlockAllocator :=
  let blockInfo := s.freeBlockList
  let info := readInfo ptrSize s.mem blockInfo
  let s :=
    if info.numFreeBlocks > 1 then
      let nextBlockInfo := blockInfo + s.blockSize
      { s with
        mem := writeInfo ptrSize s.mem nextBlockInfo ⟨info.nextBlock, info.numFreeBlocks - 1⟩
        freeBlockList := nextBlockInfo }
    else { s with freeBlockList := info.nextBlock }
  (blockInfo, { s with mem := memsetZero s.mem blockInfo s.blockSize, allocated := s.allocated + 1 })

/-- `alloc()`; `page` is where `mmap` maps a new page if one is needed. -/
def alloc (page : ℕ) (s : LinkerBlockAllocator) : ℕ × LinkerBlockAllocator :=
  takeFreeBlock ptrSize (if s.freeBlockList = 0 then createNewPage ptrSize page s else s)

/-- `find_page(block)`. -/
def findPage (block : ℕ) : List ℕ → Option ℕ
  | [] => none
  | page :: pages =>
    if page + ptrSize ≤ block ∧ block < page + kAllocateSize then some page
    else findPage block pages

/-- `free(block)`; `none` where `find_page` or a `CHECK` aborts. The `ssize_t` offset is taken
modulo the `size_t` block size, so it is converted to `size_t` first. -/
def free (block : ℕ) (s : LinkerBlockAllocator) : Option LinkerBlockAllocator :=
  if block = 0 then some s
  else
    match findPage ptrSize block s.pageList with
    | none => none
    | some page =>
      let offset := (block + 2 ^ (8 * ptrSize) - (page + bytesOffset)) % 2 ^ (8 * ptrSize)
      if offset % s.blockSize ≠ 0 then none
      else
        some { s with
          mem := writeInfo ptrSize (memsetZero s.mem block s.blockSize) block ⟨s.freeBlockList, 1⟩
          freeBlockList := block
          allocated := s.allocated - 1 }

/-- `purge()`: the pages are unmapped once no block is allocated. -/
def purge (s : LinkerBlockAllocator) : LinkerBlockAllocator :=
  if s.allocated ≠ 0 then s else { s with pageList := [], freeBlockList := 0 }

end LinkerBlockAllocator

end Model

/-! ## The blocks of the pages -/

section Grid

variable (bs : ℕ)

/-- The `j`-th block of the page at `page`. -/
def blockAt (page j : ℕ) : ℕ := page + bytesOffset + j * bs

/-- The number of blocks of a page, the count `create_new_page` gives its run. -/
def numBlocks : ℕ := bytesSize / bs

/-- The blocks of the pages. -/
def pageBlocks (pages : List ℕ) : List ℕ :=
  pages.flatMap fun page ↦ (List.range (numBlocks bs)).map (blockAt bs page)

/-- The blocks the runs cover, a run being its first block and its count. -/
def runBlocks (runs : List (ℕ × ℕ)) : List ℕ :=
  runs.flatMap fun r ↦ (List.range r.2).map fun i ↦ r.1 + i * bs

/-- Two pages whose regions do not meet. -/
def Apart (p q : ℕ) : Prop := p + kAllocateSize ≤ q ∨ q + kAllocateSize ≤ p

instance : Std.Symm Apart := ⟨fun _ _ h ↦ h.symm⟩

variable {bs}

theorem mem_pageBlocks {pages : List ℕ} {x : ℕ} :
    x ∈ pageBlocks bs pages ↔ ∃ p ∈ pages, ∃ j < numBlocks bs, blockAt bs p j = x := by
  simp [pageBlocks]

theorem pageBlocks_cons (page : ℕ) (pages : List ℕ) :
    pageBlocks bs (page :: pages) =
      (List.range (numBlocks bs)).map (blockAt bs page) ++ pageBlocks bs pages :=
  List.flatMap_cons

theorem runBlocks_cons (a n : ℕ) (runs : List (ℕ × ℕ)) :
    runBlocks bs ((a, n) :: runs) = (List.range n).map (fun i ↦ a + i * bs) ++ runBlocks bs runs :=
  List.flatMap_cons

theorem runBlocks_take {a n : ℕ} (hn : 0 < n) (runs : List (ℕ × ℕ)) :
    runBlocks bs ((a, n) :: runs) =
      a :: runBlocks bs (if 1 < n then (a + bs, n - 1) :: runs else runs) := by
  obtain ⟨m, rfl⟩ : ∃ m, n = m + 1 := ⟨n - 1, by omega⟩
  rw [runBlocks_cons, List.range_succ_eq_map, List.map_cons, List.map_map]
  split
  case isTrue =>
    rw [runBlocks_cons, Nat.add_sub_cancel]
    simp only [Nat.zero_mul, Nat.add_zero, List.cons_append, List.cons.injEq, true_and]
    congr 2
    funext i
    simp only [Function.comp, Nat.succ_mul]
    omega
  case isFalse h =>
    obtain rfl : m = 0 := by omega
    simp

theorem blockAt_add_le (hbs : 0 < bs) {p j : ℕ} (hj : j < numBlocks bs) :
    blockAt bs p j + bs ≤ p + kAllocateSize := by
  have h : (j + 1) * bs ≤ bytesSize := (Nat.le_div_iff_mul_le hbs).mp hj
  rw [Nat.succ_mul] at h
  simp only [blockAt, bytesOffset, kAllocateSize, kMaxPageSize, bytesSize] at h ⊢
  omega

theorem blocks_separated (hbs : 0 < bs) {pages : List ℕ} (hpages : pages.Pairwise Apart)
    {x y : ℕ} (hx : x ∈ pageBlocks bs pages) (hy : y ∈ pageBlocks bs pages) (hxy : x ≠ y) :
    x + bs ≤ y ∨ y + bs ≤ x := by
  obtain ⟨p, hp, j, hj, rfl⟩ := mem_pageBlocks.mp hx
  obtain ⟨q, hq, k, hk, rfl⟩ := mem_pageBlocks.mp hy
  by_cases hpq : p = q
  · -- the blocks of one page lie whole blocks apart
    subst hpq
    have hjk : j ≠ k := fun h ↦ hxy (by rw [h])
    rcases Nat.lt_or_gt_of_ne hjk with h | h
    · have := Nat.mul_le_mul_right bs (Nat.succ_le_of_lt h)
      rw [Nat.succ_mul] at this
      left
      simp only [blockAt]
      omega
    · have := Nat.mul_le_mul_right bs (Nat.succ_le_of_lt h)
      rw [Nat.succ_mul] at this
      right
      simp only [blockAt]
      omega
  · -- the blocks of two pages lie in the pages' regions
    have hend := blockAt_add_le hbs (p := p) hj
    have hend' := blockAt_add_le hbs (p := q) hk
    simp only [blockAt] at hend hend' ⊢
    rcases hpages.forall hp hq hpq with h | h
    · left
      omega
    · right
      omega

theorem nodup_pageBlocks (hbs : 0 < bs) {pages : List ℕ} (hpages : pages.Pairwise Apart) :
    (pageBlocks bs pages).Nodup := by
  refine List.nodup_flatMap.mpr ⟨fun p _ ↦ List.nodup_range.map fun j k h ↦ ?_, ?_⟩
  · simp only [blockAt] at h
    exact Nat.eq_of_mul_eq_mul_right hbs (by omega)
  · -- the blocks of pages apart lie in disjoint regions
    refine hpages.imp fun {p q} hpq x hx hx' ↦ ?_
    obtain ⟨j, hj, rfl⟩ := List.mem_map.mp hx
    obtain ⟨k, hk, hjk⟩ := List.mem_map.mp hx'
    have hend := blockAt_add_le hbs (p := p) (List.mem_range.mp hj)
    have hend' := blockAt_add_le hbs (p := q) (List.mem_range.mp hk)
    simp only [blockAt] at hend hend' hjk
    rcases hpq with h | h <;> omega

end Grid

/-! ## The free list in memory and the invariant -/

section Invariant

variable (ptrSize : ℕ)

/-- The runs of the free list from `a`, read from memory: each is the address of its first
block and the count stored one word after the link to the next run. -/
inductive FreeRuns (mem : ℕ → ℕ) : ℕ → List (ℕ × ℕ) → Prop
  | nil : FreeRuns mem 0 []
  | cons {a : ℕ} {runs : List (ℕ × ℕ)} : a ≠ 0 → FreeRuns mem (mem a) runs →
      FreeRuns mem a ((a, mem (a + ptrSize)) :: runs)

open LinkerBlockAllocator in
/-- The invariant of an allocator whose client holds the blocks `held` and whose free list
reads as `runs`. -/
structure Inv (s : LinkerBlockAllocator) (held : List ℕ) (runs : List (ℕ × ℕ)) : Prop where
  word_pos : 0 < ptrSize
  word_le : ptrSize ≤ bytesOffset
  offset_lt : bytesSize < 2 ^ (8 * ptrSize)
  blockSize_ge : kBlockSizeMin ptrSize ≤ s.blockSize
  blockSize_le : s.blockSize ≤ bytesSize
  pages_apart : s.pageList.Pairwise Apart
  freeRuns : FreeRuns ptrSize s.mem s.freeBlockList runs
  run_in_page : ∀ r ∈ runs, 0 < r.2 ∧
    ∃ p ∈ s.pageList, ∃ j, r.1 = blockAt s.blockSize p j ∧ j + r.2 ≤ numBlocks s.blockSize
  perm : (runBlocks s.blockSize runs ++ held).Perm (pageBlocks s.blockSize s.pageList)
  allocated_eq : s.allocated = held.length

variable {ptrSize}

namespace FreeRuns

variable {mem mem' : ℕ → ℕ} {a : ℕ} {runs : List (ℕ × ℕ)}

theorem eq_nil_of_zero (h : FreeRuns ptrSize mem 0 runs) : runs = [] := by
  cases h with
  | nil => rfl
  | cons ha _ => exact absurd rfl ha

theorem eq_zero_of_nil (h : FreeRuns ptrSize mem a []) : a = 0 := by
  cases h
  rfl

theorem cons_inv {b n : ℕ} (h : FreeRuns ptrSize mem a ((b, n) :: runs)) :
    a = b ∧ b ≠ 0 ∧ mem (b + ptrSize) = n ∧ FreeRuns ptrSize mem (mem b) runs := by
  cases h with
  | cons hb h => exact ⟨rfl, hb, rfl, h⟩

theorem frame (h : FreeRuns ptrSize mem a runs)
    (hag : ∀ r ∈ runs, mem' r.1 = mem r.1 ∧ mem' (r.1 + ptrSize) = mem (r.1 + ptrSize)) :
    FreeRuns ptrSize mem' a runs := by
  induction h with
  | nil => exact .nil
  | @cons a runs ha _ ih =>
    obtain ⟨h₁, h₂⟩ := hag _ List.mem_cons_self
    have hrest : FreeRuns ptrSize mem' (mem' a) runs := by
      rw [h₁]
      exact ih fun r hr ↦ hag r (List.mem_cons_of_mem _ hr)
    simpa [h₂] using FreeRuns.cons ha hrest

theorem frame_block {bs b : ℕ} (h : FreeRuns ptrSize mem a runs) (hw : ptrSize < bs)
    (hsep : ∀ r ∈ runs, r.1 + bs ≤ b ∨ b + bs ≤ r.1)
    (hmem : ∀ x, ¬(b ≤ x ∧ x < b + bs) → mem' x = mem x) : FreeRuns ptrSize mem' a runs :=
  h.frame fun r hr ↦ by
    have := hsep r hr
    exact ⟨hmem _ (by omega), hmem _ (by omega)⟩

end FreeRuns

theorem memsetZero_of_not_mem {mem : ℕ → ℕ} {p n x : ℕ} (h : ¬(p ≤ x ∧ x < p + n)) :
    memsetZero mem p n x = mem x :=
  if_neg h

theorem writeInfo_of_ne {mem : ℕ → ℕ} {a x : ℕ} (info : FreeBlockInfo) (h₁ : x ≠ a)
    (h₂ : x ≠ a + ptrSize) : writeInfo ptrSize mem a info x = mem x := by
  simp [writeInfo, Function.update_of_ne h₁, Function.update_of_ne h₂]

theorem writeInfo_self {mem : ℕ → ℕ} (hw : 0 < ptrSize) (a : ℕ) (info : FreeBlockInfo) :
    writeInfo ptrSize mem a info a = info.nextBlock := by
  simp [writeInfo, Function.update_of_ne (show a ≠ a + ptrSize by omega)]

theorem writeInfo_add {mem : ℕ → ℕ} (a : ℕ) (info : FreeBlockInfo) :
    writeInfo ptrSize mem a info (a + ptrSize) = info.numFreeBlocks := by
  simp [writeInfo]

namespace Inv

variable {s : LinkerBlockAllocator} {held : List ℕ} {runs : List (ℕ × ℕ)}

theorem word_lt (hinv : Inv ptrSize s held runs) : ptrSize < s.blockSize := by
  have := hinv.blockSize_ge
  have := hinv.word_pos
  simp only [kBlockSizeMin] at *
  omega

theorem blockSize_pos (hinv : Inv ptrSize s held runs) : 0 < s.blockSize :=
  Nat.lt_of_le_of_lt (Nat.zero_le _) hinv.word_lt

theorem nodup (hinv : Inv ptrSize s held runs) : (runBlocks s.blockSize runs ++ held).Nodup :=
  hinv.perm.nodup_iff.mpr (nodup_pageBlocks hinv.blockSize_pos hinv.pages_apart)

theorem mem_pageBlocks_of_held (hinv : Inv ptrSize s held runs) {b : ℕ} (hb : b ∈ held) :
    b ∈ pageBlocks s.blockSize s.pageList :=
  hinv.perm.subset (List.mem_append_right _ hb)

theorem mem_pageBlocks_of_run (hinv : Inv ptrSize s held runs) {x : ℕ}
    (hx : x ∈ runBlocks s.blockSize runs) : x ∈ pageBlocks s.blockSize s.pageList :=
  hinv.perm.subset (List.mem_append_left _ hx)

theorem separated (hinv : Inv ptrSize s held runs) {x y : ℕ}
    (hx : x ∈ pageBlocks s.blockSize s.pageList) (hy : y ∈ pageBlocks s.blockSize s.pageList)
    (hxy : x ≠ y) : x + s.blockSize ≤ y ∨ y + s.blockSize ≤ x :=
  blocks_separated hinv.blockSize_pos hinv.pages_apart hx hy hxy

end Inv

theorem start_mem_runBlocks {bs : ℕ} {runs : List (ℕ × ℕ)} {r : ℕ × ℕ} (hr : r ∈ runs)
    (hpos : 0 < r.2) : r.1 ∈ runBlocks bs runs :=
  List.mem_flatMap.mpr ⟨r, hr, List.mem_map.mpr ⟨0, List.mem_range.mpr hpos, by simp⟩⟩

end Invariant

/-! ## The operations keep the invariant -/

section Ops

variable {ptrSize : ℕ}

namespace LinkerBlockAllocator

variable {s : LinkerBlockAllocator} {held : List ℕ} {runs : List (ℕ × ℕ)}

theorem takeFreeBlock_of_lt (h : 1 < s.mem (s.freeBlockList + ptrSize)) :
    takeFreeBlock ptrSize s = (s.freeBlockList,
      { s with
        mem := memsetZero (writeInfo ptrSize s.mem (s.freeBlockList + s.blockSize)
          ⟨s.mem s.freeBlockList, s.mem (s.freeBlockList + ptrSize) - 1⟩) s.freeBlockList s.blockSize
        freeBlockList := s.freeBlockList + s.blockSize
        allocated := s.allocated + 1 }) := by
  simp [takeFreeBlock, readInfo, h]

theorem takeFreeBlock_of_not_lt (h : ¬1 < s.mem (s.freeBlockList + ptrSize)) :
    takeFreeBlock ptrSize s = (s.freeBlockList,
      { s with
        mem := memsetZero s.mem s.freeBlockList s.blockSize
        freeBlockList := s.mem s.freeBlockList
        allocated := s.allocated + 1 }) := by
  simp [takeFreeBlock, readInfo, h]

/-- Taking the first block of the first run `(a, n)`: the client holds `a`, and the free list
reads as the rest of the run, if any, and the other runs. -/
theorem takeFreeBlock_inv {a n : ℕ} {rest : List (ℕ × ℕ)} (hinv : Inv ptrSize s held ((a, n) :: rest)) :
    (takeFreeBlock ptrSize s).1 = a ∧
      Inv ptrSize (takeFreeBlock ptrSize s).2 (a :: held)
        (if 1 < n then (a + s.blockSize, n - 1) :: rest else rest) := by
  obtain ⟨hfree, ha0, hcount, hrest⟩ := hinv.freeRuns.cons_inv
  obtain ⟨hn, p, hp, j, hja, hjn⟩ : 0 < n ∧ ∃ p ∈ s.pageList, ∃ j,
      a = blockAt s.blockSize p j ∧ j + n ≤ numBlocks s.blockSize :=
    hinv.run_in_page (a, n) List.mem_cons_self
  have hw := hinv.word_lt
  have hblocks : runBlocks s.blockSize ((a, n) :: rest) = a :: runBlocks s.blockSize
      (if 1 < n then (a + s.blockSize, n - 1) :: rest else rest) := runBlocks_take hn rest
  have hnd := hinv.nodup
  rw [hblocks, List.cons_append, List.nodup_cons] at hnd
  have hrun_page : ∀ x ∈ runBlocks s.blockSize ((a, n) :: rest),
      x ∈ pageBlocks s.blockSize s.pageList := fun x hx ↦ hinv.mem_pageBlocks_of_run hx
  -- every other run starts in a block of a page other than `a`
  have hrest_start : ∀ r ∈ rest, r.1 ∈ runBlocks s.blockSize rest := fun r hr ↦
    start_mem_runBlocks hr (hinv.run_in_page r (List.mem_cons_of_mem _ hr)).1
  have hrest_mem : ∀ r ∈ rest, r.1 ∈ runBlocks s.blockSize
      (if 1 < n then (a + s.blockSize, n - 1) :: rest else rest) := fun r hr ↦ by
    split
    · rw [runBlocks_cons]
      exact List.mem_append_right _ (hrest_start r hr)
    · exact hrest_start r hr
  have hrest_page : ∀ r ∈ rest, r.1 ∈ pageBlocks s.blockSize s.pageList := fun r hr ↦
    hrun_page _ (by rw [hblocks]; exact List.mem_cons_of_mem _ (hrest_mem r hr))
  have ha : a ∈ pageBlocks s.blockSize s.pageList :=
    hrun_page _ (by rw [hblocks]; exact List.mem_cons_self)
  have hsep_a : ∀ r ∈ rest, r.1 + s.blockSize ≤ a ∨ a + s.blockSize ≤ r.1 := fun r hr ↦
    hinv.separated (hrest_page r hr) ha fun h ↦ hnd.1 (List.mem_append_left _ (h ▸ hrest_mem r hr))
  have hperm : (runBlocks s.blockSize (if 1 < n then (a + s.blockSize, n - 1) :: rest else rest) ++
      a :: held).Perm (pageBlocks s.blockSize s.pageList) :=
    List.perm_middle.trans (by rw [← List.cons_append, ← hblocks]; exact hinv.perm)
  by_cases h1 : 1 < n
  · -- the rest of the run moves to the next block
    rw [if_pos h1] at hnd hperm hblocks
    rw [takeFreeBlock_of_lt (by rw [hfree, hcount]; exact h1), hfree, hcount, if_pos h1]
    refine ⟨rfl, ?_⟩
    dsimp only
    have hnext_first : a + s.blockSize ∈ (List.range (n - 1)).map
        (fun i ↦ a + s.blockSize + i * s.blockSize) :=
      List.mem_map.mpr ⟨0, List.mem_range.mpr (by omega), by simp⟩
    have hnext : a + s.blockSize ∈ pageBlocks s.blockSize s.pageList :=
      hrun_page _ (by rw [hblocks, runBlocks_cons]
                      exact List.mem_cons_of_mem _ (List.mem_append_left _ hnext_first))
    have hsep_next : ∀ r ∈ rest, r.1 + s.blockSize ≤ a + s.blockSize ∨
        a + s.blockSize + s.blockSize ≤ r.1 := fun r hr ↦ by
      have hdis := hnd.2
      rw [runBlocks_cons, List.append_assoc, List.nodup_append] at hdis
      have hne : r.1 ≠ a + s.blockSize := fun h ↦
        hdis.2.2 _ hnext_first _ (List.mem_append_left _ (hrest_start r hr)) h.symm
      exact hinv.separated (hrest_page r hr) hnext hne
    -- the stores: the next block's header, then the first block cleared
    have hmem₁ : FreeRuns ptrSize (writeInfo ptrSize s.mem (a + s.blockSize) ⟨s.mem a, n - 1⟩)
        (s.mem a) rest :=
      hrest.frame_block hw hsep_next fun x hx ↦ writeInfo_of_ne _ (by omega) (by omega)
    have hmem₂ := hmem₁.frame_block (b := a) hw hsep_a fun x hx ↦ memsetZero_of_not_mem hx
    have hhead : memsetZero (writeInfo ptrSize s.mem (a + s.blockSize) ⟨s.mem a, n - 1⟩) a
        s.blockSize (a + s.blockSize) = s.mem a := by
      rw [memsetZero_of_not_mem (by omega), writeInfo_self hinv.word_pos]
    have hcount' : memsetZero (writeInfo ptrSize s.mem (a + s.blockSize) ⟨s.mem a, n - 1⟩) a
        s.blockSize (a + s.blockSize + ptrSize) = n - 1 := by
      rw [memsetZero_of_not_mem (by omega), writeInfo_add]
    refine ⟨hinv.word_pos, hinv.word_le, hinv.offset_lt, hinv.blockSize_ge, hinv.blockSize_le,
      hinv.pages_apart, ?_, ?_, hperm, by simp [hinv.allocated_eq]⟩
    · have hrest₂ : FreeRuns ptrSize (memsetZero (writeInfo ptrSize s.mem (a + s.blockSize)
          ⟨s.mem a, n - 1⟩) a s.blockSize) (memsetZero (writeInfo ptrSize s.mem (a + s.blockSize)
          ⟨s.mem a, n - 1⟩) a s.blockSize (a + s.blockSize)) rest := by
        rw [hhead]
        exact hmem₂
      have := FreeRuns.cons (by omega) hrest₂
      rwa [hcount'] at this
    · rintro r (_ | ⟨_, hr⟩)
      · dsimp only
        refine ⟨by omega, p, hp, j + 1, ?_, by omega⟩
        simp only [hja, blockAt, Nat.succ_mul]
        omega
      · exact hinv.run_in_page r (List.mem_cons_of_mem _ hr)
  · -- the run is used up
    rw [if_neg h1] at hperm
    rw [takeFreeBlock_of_not_lt (by rw [hfree, hcount]; exact h1), hfree, if_neg h1]
    refine ⟨rfl, hinv.word_pos, hinv.word_le, hinv.offset_lt, hinv.blockSize_ge,
      hinv.blockSize_le, hinv.pages_apart, ?_, fun r hr ↦ hinv.run_in_page r
        (List.mem_cons_of_mem _ hr), hperm, by simp [hinv.allocated_eq]⟩
    exact hrest.frame_block (b := a) hw hsep_a fun x hx ↦ memsetZero_of_not_mem hx

theorem createNewPage_inv (hinv : Inv ptrSize s held []) {page : ℕ}
    (hpage : ∀ q ∈ s.pageList, Apart page q) :
    Inv ptrSize (createNewPage ptrSize page s) held
      [(page + bytesOffset, numBlocks s.blockSize)] := by
  have hfree : s.freeBlockList = 0 := hinv.freeRuns.eq_zero_of_nil
  have hnum : 0 < numBlocks s.blockSize :=
    Nat.div_pos hinv.blockSize_le hinv.blockSize_pos
  refine ⟨hinv.word_pos, hinv.word_le, hinv.offset_lt, hinv.blockSize_ge, hinv.blockSize_le,
    List.Pairwise.cons hpage hinv.pages_apart, ?_, ?_, ?_, hinv.allocated_eq⟩
  · -- the header of the run, linking to the empty list
    have hnext : writeInfo ptrSize s.mem (page + bytesOffset) ⟨s.freeBlockList, numBlocks s.blockSize⟩
        (page + bytesOffset) = 0 := by
      rw [writeInfo_self hinv.word_pos, hfree]
    have hnil : FreeRuns ptrSize (writeInfo ptrSize s.mem (page + bytesOffset)
        ⟨s.freeBlockList, numBlocks s.blockSize⟩)
        (writeInfo ptrSize s.mem (page + bytesOffset) ⟨s.freeBlockList, numBlocks s.blockSize⟩
          (page + bytesOffset)) [] := by
      rw [hnext]
      exact FreeRuns.nil
    have hrun := FreeRuns.cons (by simp [bytesOffset]) hnil
    rwa [writeInfo_add] at hrun
  · rintro r (_ | ⟨_, hr⟩)
    · exact ⟨hnum, page, List.mem_cons_self, 0, by simp [blockAt], by simp [createNewPage]⟩
    · exact absurd hr List.not_mem_nil
  · -- the new run covers exactly the new page's blocks
    have hheld : held.Perm (pageBlocks s.blockSize s.pageList) := by
      simpa [runBlocks] using hinv.perm
    have hfirst : runBlocks s.blockSize [(page + bytesOffset, numBlocks s.blockSize)] =
        (List.range (numBlocks s.blockSize)).map (blockAt s.blockSize page) := by
      simp [runBlocks, blockAt]
    show (runBlocks s.blockSize [(page + bytesOffset, numBlocks s.blockSize)] ++ held).Perm
      (pageBlocks s.blockSize (page :: s.pageList))
    rw [hfirst, pageBlocks_cons]
    exact hheld.append_left _

theorem alloc_inv (hinv : Inv ptrSize s held runs) (page : ℕ)
    (hpage : s.freeBlockList = 0 → ∀ q ∈ s.pageList, Apart page q) :
    ∃ runs', Inv ptrSize (alloc ptrSize page s).2 ((alloc ptrSize page s).1 :: held) runs' := by
  by_cases h0 : s.freeBlockList = 0
  · -- `create_new_page` first, then its run's first block
    have hnil : runs = [] := by
      have := hinv.freeRuns
      rw [h0] at this
      exact this.eq_nil_of_zero
    subst hnil
    obtain ⟨hblock, hinv'⟩ := takeFreeBlock_inv (createNewPage_inv hinv (hpage h0))
    rw [alloc, if_pos h0, hblock]
    exact ⟨_, hinv'⟩
  · obtain ⟨⟨a, n⟩, rest, rfl⟩ : ∃ r rest, runs = r :: rest := by
      cases runs with
      | nil => exact absurd hinv.freeRuns.eq_zero_of_nil h0
      | cons r rest => exact ⟨r, rest, rfl⟩
    obtain ⟨hblock, hinv'⟩ := takeFreeBlock_inv hinv
    rw [alloc, if_neg h0, hblock]
    exact ⟨_, hinv'⟩

theorem findPage_eq {pages : List ℕ} {block p : ℕ} (hp : p ∈ pages)
    (hcond : ∀ q ∈ pages, (q + ptrSize ≤ block ∧ block < q + kAllocateSize) ↔ q = p) :
    findPage ptrSize block pages = some p := by
  induction pages with
  | nil => exact absurd hp List.not_mem_nil
  | cons q pages ih =>
    rw [findPage]
    by_cases hq : q = p
    · rw [if_pos ((hcond q List.mem_cons_self).mpr hq), hq]
    · rw [if_neg fun h ↦ hq ((hcond q List.mem_cons_self).mp h)]
      exact ih ((List.mem_cons.mp hp).resolve_left (Ne.symm hq))
        fun q' hq' ↦ hcond q' (List.mem_cons_of_mem _ hq')

theorem free_inv (hinv : Inv ptrSize s held runs) {block : ℕ} (hb : block ∈ held) :
    ∃ s', free ptrSize block s = some s' ∧ Inv ptrSize s' (held.erase block) ((block, 1) :: runs) := by
  have hpb := hinv.mem_pageBlocks_of_held hb
  obtain ⟨p, hp, j, hj, rfl⟩ := mem_pageBlocks.mp hpb
  have hend := blockAt_add_le hinv.blockSize_pos (p := p) hj
  have hw := hinv.word_lt
  have hle : ptrSize ≤ 16 := hinv.word_le
  have hne0 : blockAt s.blockSize p j ≠ 0 := by simp [blockAt, bytesOffset]
  -- the block's page is the only one whose range holds it
  have hfind : findPage ptrSize (blockAt s.blockSize p j) s.pageList = some p := by
    refine findPage_eq hp fun q hq ↦ ⟨fun hin ↦ ?_, fun h ↦ ?_⟩
    · by_contra hqp
      rcases hinv.pages_apart.forall hp hq (Ne.symm hqp) with h | h <;>
        simp only [blockAt, bytesOffset] at hend hin <;> omega
    · subst h
      simp only [blockAt, bytesOffset] at hend ⊢
      omega
  -- its offset is `j` blocks, below the word size's modulus
  have hoff : (blockAt s.blockSize p j + 2 ^ (8 * ptrSize) - (p + bytesOffset)) % 2 ^ (8 * ptrSize)
      % s.blockSize = 0 := by
    have hlt : j * s.blockSize < 2 ^ (8 * ptrSize) := by
      have := hinv.offset_lt
      have : (j + 1) * s.blockSize ≤ bytesSize := (Nat.le_div_iff_mul_le hinv.blockSize_pos).mp hj
      rw [Nat.succ_mul] at this
      omega
    have : blockAt s.blockSize p j + 2 ^ (8 * ptrSize) - (p + bytesOffset) =
        j * s.blockSize + 2 ^ (8 * ptrSize) := by
      simp only [blockAt]
      omega
    rw [this, Nat.add_mod_right, Nat.mod_eq_of_lt hlt, Nat.mul_mod_left]
  refine ⟨{ s with
      mem := writeInfo ptrSize (memsetZero s.mem (blockAt s.blockSize p j) s.blockSize)
        (blockAt s.blockSize p j) ⟨s.freeBlockList, 1⟩
      freeBlockList := blockAt s.blockSize p j
      allocated := s.allocated - 1 }, by simp [free, hne0, hfind, hoff], ?_⟩
  -- the runs start in blocks other than the freed one
  have hnd := hinv.nodup
  have hsep : ∀ r ∈ runs, r.1 + s.blockSize ≤ blockAt s.blockSize p j ∨
      blockAt s.blockSize p j + s.blockSize ≤ r.1 := fun r hr ↦ by
    have hr' : r.1 ∈ runBlocks s.blockSize runs := start_mem_runBlocks hr (hinv.run_in_page r hr).1
    refine hinv.separated (hinv.mem_pageBlocks_of_run hr') hpb fun h ↦ ?_
    exact (List.nodup_append.mp hnd).2.2 _ hr' _ hb h
  have hrest : FreeRuns ptrSize (writeInfo ptrSize (memsetZero s.mem (blockAt s.blockSize p j)
      s.blockSize) (blockAt s.blockSize p j) ⟨s.freeBlockList, 1⟩) s.freeBlockList runs :=
    hinv.freeRuns.frame_block hw hsep fun x hx ↦ by
      rw [writeInfo_of_ne _ (by omega) (by omega), memsetZero_of_not_mem hx]
  refine ⟨hinv.word_pos, hinv.word_le, hinv.offset_lt, hinv.blockSize_ge, hinv.blockSize_le,
    hinv.pages_apart, ?_, ?_, ?_, ?_⟩
  · have hrest' : FreeRuns ptrSize (writeInfo ptrSize (memsetZero s.mem (blockAt s.blockSize p j)
        s.blockSize) (blockAt s.blockSize p j) ⟨s.freeBlockList, 1⟩)
        (writeInfo ptrSize (memsetZero s.mem (blockAt s.blockSize p j) s.blockSize)
          (blockAt s.blockSize p j) ⟨s.freeBlockList, 1⟩ (blockAt s.blockSize p j)) runs := by
      rw [writeInfo_self hinv.word_pos]
      exact hrest
    have hrun := FreeRuns.cons hne0 hrest'
    rwa [writeInfo_add] at hrun
  · rintro r (_ | ⟨_, hr⟩)
    · exact ⟨Nat.one_pos, p, hp, j, rfl, hj⟩
    · exact hinv.run_in_page r hr
  · -- the freed block moves from the held blocks to the runs
    have hcons : runBlocks s.blockSize ((blockAt s.blockSize p j, 1) :: runs) =
        blockAt s.blockSize p j :: runBlocks s.blockSize runs := by
      simp [runBlocks_cons]
    rw [hcons, List.cons_append]
    exact (List.perm_middle.symm.trans ((List.perm_cons_erase hb).symm.append_left _)).trans
      hinv.perm
  · simp [hinv.allocated_eq, List.length_erase_of_mem hb]

theorem purge_inv (hinv : Inv ptrSize s held runs) : ∃ runs', Inv ptrSize (purge s) held runs' := by
  by_cases h0 : s.allocated ≠ 0
  · exact ⟨runs, by simpa [purge, h0] using hinv⟩
  · have hlen : held.length = 0 := by
      have := hinv.allocated_eq
      omega
    obtain rfl : held = [] := List.eq_nil_of_length_eq_zero hlen
    have h0' : s.allocated = 0 := by omega
    refine ⟨[], hinv.word_pos, hinv.word_le, hinv.offset_lt, ?_, ?_, ?_, ?_, ?_, ?_, ?_⟩ <;>
      simp [purge, h0', hinv.blockSize_ge, hinv.blockSize_le, runBlocks, pageBlocks, FreeRuns.nil]

end LinkerBlockAllocator

end Ops

/-! ## Runs of calls -/

/-- A call to the allocator; `alloc` carries the address `mmap` maps a new page at if it needs
one. -/
inductive Op
  | alloc (page : ℕ)
  | free (block : ℕ)
  | purge

open LinkerBlockAllocator

/-- The calls the claim allows: `free` of a held block only, and `mmap` mapping a page apart
from the allocator's pages. -/
def Op.allowed : Op → LinkerBlockAllocator × List ℕ → Bool
  | .alloc page, (s, _) =>
    s.freeBlockList != 0 ||
      s.pageList.all fun q ↦ decide (page + kAllocateSize ≤ q ∨ q + kAllocateSize ≤ page)
  | .free block, (_, held) => decide (block ∈ held)
  | .purge, _ => true

section Runs

variable (ptrSize : ℕ)

/-- A call, with the blocks the client holds: `alloc` adds the block it returns, `free` takes
away its block. -/
def step : Op → LinkerBlockAllocator × List ℕ → Option (LinkerBlockAllocator × List ℕ)
  | .alloc page, (s, held) => some ((alloc ptrSize page s).2, (alloc ptrSize page s).1 :: held)
  | .free block, (s, held) => (free ptrSize block s).map fun s' ↦ (s', held.erase block)
  | .purge, (s, held) => some (purge s, held)

/-- The calls one after another. -/
def run : List Op → LinkerBlockAllocator × List ℕ → Option (LinkerBlockAllocator × List ℕ)
  | [], st => some st
  | op :: ops, st => (step ptrSize op st).bind (run ops)

/-- Every call of the run is allowed when it is made. -/
def allowedRun : List Op → LinkerBlockAllocator × List ℕ → Bool
  | [], _ => true
  | op :: ops, st => op.allowed st && (step ptrSize op st).all (allowedRun ops)

variable {ptrSize}

theorem step_inv {s : LinkerBlockAllocator} {held : List ℕ} {runs : List (ℕ × ℕ)}
    (hinv : Inv ptrSize s held runs) (op : Op) (hok : op.allowed (s, held) = true) :
    ∃ s' held' runs', step ptrSize op (s, held) = some (s', held') ∧ Inv ptrSize s' held' runs' := by
  cases op with
  | alloc page =>
    have hpage : s.freeBlockList = 0 → ∀ q ∈ s.pageList, Apart page q := by
      intro h0 q hq
      simp only [Op.allowed, h0, bne_self_eq_false, Bool.false_or, List.all_eq_true,
        decide_eq_true_eq] at hok
      exact hok q hq
    obtain ⟨runs', hinv'⟩ := alloc_inv hinv page hpage
    exact ⟨_, _, runs', rfl, hinv'⟩
  | free block =>
    obtain ⟨s', hfree, hinv'⟩ := free_inv hinv (by simpa [Op.allowed] using hok)
    exact ⟨s', _, _, by simp [step, hfree], hinv'⟩
  | purge =>
    obtain ⟨runs', hinv'⟩ := purge_inv hinv
    exact ⟨_, _, runs', rfl, hinv'⟩

theorem run_inv {s : LinkerBlockAllocator} {held : List ℕ} {runs : List (ℕ × ℕ)}
    (hinv : Inv ptrSize s held runs) (ops : List Op) (hok : allowedRun ptrSize ops (s, held) = true) :
    ∃ s' held' runs', run ptrSize ops (s, held) = some (s', held') ∧ Inv ptrSize s' held' runs' := by
  induction ops generalizing s held runs with
  | nil => exact ⟨s, held, runs, rfl, hinv⟩
  | cons op ops ih =>
    simp only [allowedRun, Bool.and_eq_true] at hok
    obtain ⟨s₁, held₁, runs₁, hstep, hinv₁⟩ := step_inv hinv op hok.1
    rw [hstep, Option.all_some] at hok
    obtain ⟨s', held', runs', hrun, hinv'⟩ := ih hinv₁ hok.2
    exact ⟨s', held', runs', by simp [run, hstep, hrun], hinv'⟩

theorem init_inv (hptr : ptrSize = 4 ∨ ptrSize = 8) {blockSize : ℕ} (hbs : blockSize ≤ bytesSize)
    (mem : ℕ → ℕ) : Inv ptrSize (init ptrSize blockSize mem) [] [] := by
  -- rounding up to a multiple of the word keeps the size within the page's bytes
  have hsize : kBlockSizeMin ptrSize ≤ (init ptrSize blockSize mem).blockSize ∧
      (init ptrSize blockSize mem).blockSize ≤ bytesSize := by
    simp only [init, kBlockSizeMin, kBlockSizeAlign, bytesSize, kAllocateSize, kMaxPageSize] at hbs ⊢
    rcases hptr with rfl | rfl <;> simp only [Nat.reducePow, Nat.reduceMul] <;> omega
  refine ⟨by omega, by simp only [bytesOffset]; omega, ?_, hsize.1, hsize.2, List.Pairwise.nil,
    FreeRuns.nil, by simp, by simp [runBlocks, pageBlocks, init], rfl⟩
  rcases hptr with rfl | rfl <;> decide

/-- The claim, for an allocator constructed with a block size a page holds: after every run
of calls that frees only held blocks, each held block lies in a page's bytes at a multiple of
the block size, no two held blocks overlap, every run of the free list covers blocks of one
page that the client does not hold, and `allocated_` counts the held blocks. -/
theorem run_init (hptr : ptrSize = 4 ∨ ptrSize = 8) {blockSize : ℕ} (hbs : blockSize ≤ bytesSize)
    (mem : ℕ → ℕ) (ops : List Op) (hok : allowedRun ptrSize ops (init ptrSize blockSize mem, []) = true) :
    ∃ s held runs, run ptrSize ops (init ptrSize blockSize mem, []) = some (s, held) ∧
      (∀ b ∈ held, ∃ p ∈ s.pageList, ∃ j, b = p + bytesOffset + j * s.blockSize ∧
        (j + 1) * s.blockSize ≤ bytesSize) ∧
      held.Pairwise (fun a b ↦ a + s.blockSize ≤ b ∨ b + s.blockSize ≤ a) ∧
      FreeRuns ptrSize s.mem s.freeBlockList runs ∧
      (∀ r ∈ runs, ∃ p ∈ s.pageList, ∃ j, r.1 = p + bytesOffset + j * s.blockSize ∧
        (j + r.2) * s.blockSize ≤ bytesSize ∧ ∀ i < r.2, r.1 + i * s.blockSize ∉ held) ∧
      s.allocated = held.length := by
  obtain ⟨s, held, runs, hrun, hinv⟩ := run_inv (init_inv hptr hbs mem) ops hok
  have hnd := hinv.nodup
  refine ⟨s, held, runs, hrun, fun b hb ↦ ?_, ?_, hinv.freeRuns, fun r hr ↦ ?_, hinv.allocated_eq⟩
  · obtain ⟨p, hp, j, hj, rfl⟩ := mem_pageBlocks.mp (hinv.mem_pageBlocks_of_held hb)
    exact ⟨p, hp, j, rfl, (Nat.le_div_iff_mul_le hinv.blockSize_pos).mp hj⟩
  · -- held blocks are distinct blocks of the pages
    refine (List.nodup_append.mp hnd).2.1.imp_of_mem fun {a b} ha hb hab ↦ ?_
    exact hinv.separated (hinv.mem_pageBlocks_of_held ha) (hinv.mem_pageBlocks_of_held hb) hab
  · obtain ⟨hpos, p, hp, j, hj, hjn⟩ := hinv.run_in_page r hr
    refine ⟨p, hp, j, hj, (Nat.le_div_iff_mul_le hinv.blockSize_pos).mp hjn, fun i hi hheld ↦ ?_⟩
    have hmem : r.1 + i * s.blockSize ∈ runBlocks s.blockSize runs :=
      List.mem_flatMap.mpr ⟨r, hr, List.mem_map.mpr ⟨i, List.mem_range.mpr hi, rfl⟩⟩
    exact (List.nodup_append.mp hnd).2.2 _ hmem _ hheld rfl

/-- The source's `linker_allocator_test_helper` for a 1009-byte element on LP64: two blocks
of 1016 bytes next to each other, both freed, and the last one freed handed out again. -/
theorem run_init_testLarger :
    ((8 : ℕ) = 4 ∨ (8 : ℕ) = 8) ∧ 1009 ≤ bytesSize ∧
      allowedRun 8 [.alloc 65536, .alloc 65536, .free 65552, .free 66568, .alloc 65536] (init 8 1009 fun _ ↦ 0, []) = true ∧
      ∃ s held runs, run 8 [.alloc 65536, .alloc 65536, .free 65552, .free 66568, .alloc 65536] (init 8 1009 fun _ ↦ 0, []) = some (s, held) ∧
        (∀ b ∈ held, ∃ p ∈ s.pageList, ∃ j, b = p + bytesOffset + j * s.blockSize ∧
          (j + 1) * s.blockSize ≤ bytesSize) ∧
        held.Pairwise (fun a b ↦ a + s.blockSize ≤ b ∨ b + s.blockSize ≤ a) ∧
        FreeRuns 8 s.mem s.freeBlockList runs ∧
        (∀ r ∈ runs, ∃ p ∈ s.pageList, ∃ j, r.1 = p + bytesOffset + j * s.blockSize ∧
          (j + r.2) * s.blockSize ≤ bytesSize ∧ ∀ i < r.2, r.1 + i * s.blockSize ∉ held) ∧
        s.allocated = held.length :=
  ⟨Or.inr rfl, by decide, by decide, run_init (Or.inr rfl) (by decide) _ _ (by decide)⟩

example : (run 8 [.alloc 65536, .alloc 65536] (init 8 1009 fun _ ↦ 0, [])).map Prod.snd =
    some [65536 + 16 + 1016, 65536 + 16] := by
  decide

end Runs

/-- A block size beyond a page's bytes: `create_new_page` gives the page a run of no block, and
`alloc` still returns the page's first block, which runs past the end of the page. -/
theorem alloc_overruns_page :
    (init 8 (bytesSize + 8) fun _ ↦ 0).blockSize = bytesSize + 8 ∧
      (alloc 8 65536 (init 8 (bytesSize + 8) fun _ ↦ 0)).1 = 65536 + bytesOffset ∧
      65536 + kAllocateSize < (alloc 8 65536 (init 8 (bytesSize + 8) fun _ ↦ 0)).1 +
        (init 8 (bytesSize + 8) fun _ ↦ 0).blockSize := by
  have hsize : (init 8 (bytesSize + 8) fun _ ↦ 0).blockSize = bytesSize + 8 := rfl
  have hblock : (alloc 8 65536 (init 8 (bytesSize + 8) fun _ ↦ 0)).1 = 65536 + bytesOffset := rfl
  refine ⟨hsize, hblock, ?_⟩
  rw [hsize, hblock]
  simp only [bytesSize, kAllocateSize, kMaxPageSize, bytesOffset]
  omega

end Bionic.Linker.BlockAllocator
