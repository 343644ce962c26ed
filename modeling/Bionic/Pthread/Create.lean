import Bionic.Tls.StaticLayout
import Bionic.Errno

/-!
# The mapping of a new thread

`__allocate_thread_mapping` maps, in one `PROT_NONE` mapping, a stack guard, the stack, the
static TLS block and a guard page of `PTHREAD_GUARD_SIZE` bytes, with every size addition checked
and the total rounded up to the page size; it then makes everything between the two guards
readable and writable, and places the static TLS block right below the top guard.

When the sizes fit, the two guards stay `PROT_NONE`, the writable region is exactly what lies
between them, the stack below the static TLS block holds at least the requested size, and the
block ends `PTHREAD_GUARD_SIZE` bytes below the end of the mapping (`allocateThreadMapping_spec`);
when they do not fit, the mapping is empty (`allocateThreadMapping_of_overflow`). The block starts
at a multiple of the layout's alignment when that alignment is at most the page size. A larger
alignment, which `__bionic_check_tls_align` accepts, is not honoured: the mapping is only
page-aligned, and of two placements a page apart at least one misaligns the block
(`allocateThreadMapping_misaligns_staticTls`).

`__allocate_thread` carves its `pthread_internal_t` out of the top of the stack, 16-byte aligned,
inside the stack it allocated or inside a stack the caller gave to `pthread_attr_setstack`
(`allocateThread_thread_mem`).

`size_t` and pointers are `w`-bit words. What `mmap` and `mprotect` do is an input of the model
(`Kernel`); the initialization of the TLS block and the logs are not modelled.
-/

set_option autoImplicit false
set_option relaxedAutoImplicit false

namespace Bionic.Pthread.Create

open Bionic.Lib.SkewAlign Bionic.Tls.StaticLayout

variable {w : ℕ}

/-! ## The model -/

/-- `page_size()` and `max_page_size()`, which is `PTHREAD_GUARD_SIZE`: a power of two, and a
multiple of it. -/
structure PageSizes (w : ℕ) where
  pageSize : BitVec w
  maxPageSize : BitVec w
  pageSize_pow : pageSize.toNat.isPowerOfTwo
  pageSize_dvd : pageSize.toNat ∣ maxPageSize.toNat

/-- 4 KiB pages, with `PTHREAD_GUARD_SIZE` one page. -/
def fourKiBPages : PageSizes 64 := ⟨4096, 4096, ⟨12, rfl⟩, dvd_refl _⟩

/-- The protection of a mapped byte; `readWrite true` adds `PROT_MTE`. -/
inductive Prot where
  | none
  | readWrite (mte : Bool)
  deriving DecidableEq, Repr

/-- The protection of every address, `Option.none` where nothing is mapped. -/
abbrev AddressSpace := ℕ → Option Prot

/-- Give the addresses `[start, start + len)` the protection `p`. -/
def AddressSpace.set (as : AddressSpace) (start len : ℕ) (p : Option Prot) : AddressSpace :=
  fun a ↦ if start ≤ a ∧ a < start + len then p else as a

/-- `ThreadMapping`; the empty one, `{}`, is all zero. -/
structure ThreadMapping (w : ℕ) where
  mmapBase : BitVec w
  mmapSize : BitVec w
  mmapBaseUnguarded : BitVec w
  mmapSizeUnguarded : BitVec w
  staticTls : BitVec w
  stackBase : BitVec w
  stackTop : BitVec w
  deriving DecidableEq, Repr

/-- `{}`. -/
def ThreadMapping.empty : ThreadMapping w := ⟨0, 0, 0, 0, 0, 0, 0⟩

/-- What the kernel does in the call: where `mmap` places the mapping (`none` for `MAP_FAILED`),
and whether `mprotect` succeeds. -/
structure Kernel (w : ℕ) where
  mmap : Option (BitVec w)
  mprotectOk : Bool

/-- `__BIONIC_ALIGN(value, alignment)` for a power-of-two alignment. -/
def bionicAlign (value alignment : BitVec w) : BitVec w :=
  (value + alignment - 1) &&& ~~~(alignment - 1)

/-- `__builtin_add_overflow` on `size_t`: whether `a + b` does not fit in the word. -/
def addOverflow (a b : BitVec w) : Bool := decide (2 ^ w ≤ a.toNat + b.toNat)

variable (ps : PageSizes w) (layoutSize : BitVec w) (memtagStack : Bool) (k : Kernel w)

/-- `__allocate_thread_mapping(stack_size, stack_guard_size)` with `layout.size()` and whether the
stack is tagged (`__libc_memtag_stack` on arm64): the mapping, and the address space after it. -/
def allocateThreadMapping (stackSize stackGuardSize : BitVec w) (as : AddressSpace) :
    ThreadMapping w × AddressSpace :=
  -- in order: stack guard, stack, static TLS, guard page
  if addOverflow stackSize stackGuardSize then (.empty, as)
  else if addOverflow (stackSize + stackGuardSize) layoutSize then (.empty, as)
  else if addOverflow (stackSize + stackGuardSize + layoutSize) ps.maxPageSize then (.empty, as)
  else
    let unalignedSize := stackSize + stackGuardSize + layoutSize + ps.maxPageSize
    let mmapSize := bionicAlign unalignedSize ps.pageSize
    if mmapSize < unalignedSize then (.empty, as)
    else
      match k.mmap with
      | none => (.empty, as)
      | some space =>
        let as := as.set space.toNat mmapSize.toNat (some .none)
        let writableSize := mmapSize - stackGuardSize - ps.maxPageSize
        -- a failed `mprotect` unmaps the whole mapping
        if !k.mprotectOk then (.empty, as.set space.toNat mmapSize.toNat none)
        else
          let staticTls := space + mmapSize - ps.maxPageSize - layoutSize
          (⟨space, mmapSize, space + stackGuardSize, writableSize, staticTls, space, staticTls⟩,
            as.set (space + stackGuardSize).toNat writableSize.toNat
              (some (.readWrite memtagStack)))

/-! ## The size computation -/

theorem bionicAlign_eq (value alignment : BitVec w) :
    bionicAlign value alignment = ((value - 0 + alignment - 1) &&& ~~~(alignment - 1)) + 0 := by
  simp [bionicAlign]

theorem toNat_bionicAlign {value : BitVec w} {p : BitVec w} {k : ℕ} (hp : p.toNat = 2 ^ k)
    (hfit : roundUp (2 ^ k) 0 value.toNat < 2 ^ w) :
    (bionicAlign value p).toNat = roundUp (2 ^ k) 0 value.toNat := by
  have hs : (0 : BitVec w).toNat < p.toNat := by simpa [hp] using Nat.two_pow_pos k
  have hfit' : roundUp (2 ^ k) (0 : BitVec w).toNat value.toNat < 2 ^ w := by simpa using hfit
  have := toNat_maskRoundUp_of_lt hp hs hfit'
  rwa [← bionicAlign_eq, show (0 : BitVec w).toNat = 0 by simp] at this

theorem bionicAlign_lt {value : BitVec w} {p : BitVec w} {k : ℕ} (hp : p.toNat = 2 ^ k)
    (hover : 2 ^ w ≤ roundUp (2 ^ k) 0 value.toNat) : bionicAlign value p < value := by
  have hs : (0 : BitVec w).toNat < p.toNat := by simpa [hp] using Nat.two_pow_pos k
  have hover' : 2 ^ w ≤ roundUp (2 ^ k) (0 : BitVec w).toNat value.toNat := by simpa using hover
  rw [bionicAlign_eq]
  exact maskRoundUp_lt_of_le hp hs hover'

theorem toNat_add_of_not_addOverflow {a b : BitVec w} (h : addOverflow a b = false) :
    (a + b).toNat = a.toNat + b.toNat := by
  simp only [addOverflow, decide_eq_false_iff_not, not_le] at h
  rw [BitVec.toNat_add, Nat.mod_eq_of_lt h]

/-- The size of the mapping when nothing wraps: the four parts, rounded up to the page size. -/
def mappingSize (stackSize stackGuardSize : ℕ) : ℕ :=
  roundUp ps.pageSize.toNat 0
    (stackSize + stackGuardSize + layoutSize.toNat + ps.maxPageSize.toNat)

theorem le_mappingSize (stackSize stackGuardSize : ℕ) :
    stackSize + stackGuardSize + layoutSize.toNat + ps.maxPageSize.toNat ≤
      mappingSize ps layoutSize stackSize stackGuardSize := by
  obtain ⟨j, hj⟩ := ps.pageSize_pow
  rw [mappingSize, hj]
  exact le_roundUp (Nat.two_pow_pos j) _

variable {layoutSize} {memtagStack} {k} {stackSize stackGuardSize : BitVec w} {as : AddressSpace}

/-- **When the sizes do not fit, the mapping is empty**: either an addition wraps, or the
rounding up to the page size does. -/
theorem allocateThreadMapping_of_overflow
    (hover : 2 ^ w ≤ mappingSize ps layoutSize stackSize.toNat stackGuardSize.toNat) :
    (allocateThreadMapping ps layoutSize memtagStack k stackSize stackGuardSize as).1 = .empty := by
  obtain ⟨j, hj⟩ := ps.pageSize_pow
  unfold allocateThreadMapping
  by_cases h₁ : addOverflow stackSize stackGuardSize
  · rw [if_pos h₁]
  by_cases h₂ : addOverflow (stackSize + stackGuardSize) layoutSize
  · rw [if_neg h₁, if_pos h₂]
  by_cases h₃ : addOverflow (stackSize + stackGuardSize + layoutSize) ps.maxPageSize
  · rw [if_neg h₁, if_neg h₂, if_pos h₃]
  -- no addition wrapped, so the rounding did
  have hsum := toNat_add_of_not_addOverflow (Bool.eq_false_iff.2 h₃)
  rw [toNat_add_of_not_addOverflow (Bool.eq_false_iff.2 h₂),
    toNat_add_of_not_addOverflow (Bool.eq_false_iff.2 h₁)] at hsum
  rw [mappingSize, hj, ← hsum] at hover
  rw [if_neg h₁, if_neg h₂, if_neg h₃]
  dsimp only
  rw [if_pos (bionicAlign_lt hj hover)]

theorem allocateThreadMapping_of_fit
    (hfit : mappingSize ps layoutSize stackSize.toNat stackGuardSize.toNat < 2 ^ w) :
    allocateThreadMapping ps layoutSize memtagStack k stackSize stackGuardSize as =
      let N := BitVec.ofNat w (mappingSize ps layoutSize stackSize.toNat stackGuardSize.toNat)
      match k.mmap with
      | none => (.empty, as)
      | some space =>
        if !k.mprotectOk then (.empty, (as.set space.toNat N.toNat (some .none)).set space.toNat
          N.toNat none)
        else
          let staticTls := space + N - ps.maxPageSize - layoutSize
          (⟨space, N, space + stackGuardSize, N - stackGuardSize - ps.maxPageSize, staticTls,
              space, staticTls⟩,
            (as.set space.toNat N.toNat (some .none)).set (space + stackGuardSize).toNat
              (N - stackGuardSize - ps.maxPageSize).toNat (some (.readWrite memtagStack))) := by
  obtain ⟨j, hj⟩ := ps.pageSize_pow
  have hle := le_mappingSize ps layoutSize stackSize.toNat stackGuardSize.toNat
  -- no addition wraps
  have h₁ : addOverflow stackSize stackGuardSize = false := by
    simp only [addOverflow, decide_eq_false_iff_not, not_le]; omega
  have h₂ : addOverflow (stackSize + stackGuardSize) layoutSize = false := by
    simp only [addOverflow, decide_eq_false_iff_not, not_le, toNat_add_of_not_addOverflow h₁]; omega
  have h₃ : addOverflow (stackSize + stackGuardSize + layoutSize) ps.maxPageSize = false := by
    simp only [addOverflow, decide_eq_false_iff_not, not_le, toNat_add_of_not_addOverflow h₂,
      toNat_add_of_not_addOverflow h₁]
    omega
  have hsum : (stackSize + stackGuardSize + layoutSize + ps.maxPageSize).toNat =
      stackSize.toNat + stackGuardSize.toNat + layoutSize.toNat + ps.maxPageSize.toNat := by
    rw [toNat_add_of_not_addOverflow h₃, toNat_add_of_not_addOverflow h₂,
      toNat_add_of_not_addOverflow h₁]
  -- and the rounding is the rounded sum
  have hround : bionicAlign (stackSize + stackGuardSize + layoutSize + ps.maxPageSize) ps.pageSize =
      BitVec.ofNat w (mappingSize ps layoutSize stackSize.toNat stackGuardSize.toNat) := by
    apply BitVec.eq_of_toNat_eq
    rw [toNat_bionicAlign hj (by rwa [hsum, ← hj]), BitVec.toNat_ofNat, Nat.mod_eq_of_lt hfit,
      hsum, mappingSize, hj]
  have hnot : ¬ bionicAlign (stackSize + stackGuardSize + layoutSize + ps.maxPageSize) ps.pageSize <
      stackSize + stackGuardSize + layoutSize + ps.maxPageSize := by
    rw [hround, BitVec.lt_def, BitVec.toNat_ofNat, Nat.mod_eq_of_lt hfit, hsum]
    omega
  unfold allocateThreadMapping
  rw [if_neg (by simp [h₁]), if_neg (by simp [h₂]), if_neg (by simp [h₃])]
  dsimp only
  rw [if_neg hnot, hround]

/-- When the sizes fit and the kernel maps and protects the mapping, the mapping is `PROT_NONE`
and then writable between its guards. -/
theorem allocateThreadMapping_eq {space : BitVec w}
    (hfit : mappingSize ps layoutSize stackSize.toNat stackGuardSize.toNat < 2 ^ w)
    (hmmap : k.mmap = some space) (hprot : k.mprotectOk = true) :
    allocateThreadMapping ps layoutSize memtagStack k stackSize stackGuardSize as =
      let N := BitVec.ofNat w (mappingSize ps layoutSize stackSize.toNat stackGuardSize.toNat)
      let staticTls := space + N - ps.maxPageSize - layoutSize
      (⟨space, N, space + stackGuardSize, N - stackGuardSize - ps.maxPageSize, staticTls, space,
          staticTls⟩,
        (as.set space.toNat N.toNat (some .none)).set (space + stackGuardSize).toNat
          (N - stackGuardSize - ps.maxPageSize).toNat (some (.readWrite memtagStack))) := by
  rw [allocateThreadMapping_of_fit ps hfit, hmmap]
  simp [hprot]

theorem exists_of_mmapBase_ne_zero
    (h : (allocateThreadMapping ps layoutSize memtagStack k stackSize stackGuardSize
      as).1.mmapBase ≠ 0) :
    ∃ space, k.mmap = some space ∧ k.mprotectOk = true ∧ space ≠ 0 ∧
      mappingSize ps layoutSize stackSize.toNat stackGuardSize.toNat < 2 ^ w := by
  by_cases hfit : mappingSize ps layoutSize stackSize.toNat stackGuardSize.toNat < 2 ^ w
  · rw [allocateThreadMapping_of_fit ps hfit] at h
    cases hmmap : k.mmap with
    | none => simp [hmmap, ThreadMapping.empty] at h
    | some space =>
      cases hprot : k.mprotectOk with
      | false => simp [hmmap, hprot, ThreadMapping.empty] at h
      | true =>
        simp only [hmmap, hprot, Bool.not_true, Bool.false_eq_true, if_false] at h
        exact ⟨space, rfl, rfl, h, hfit⟩
  · rw [allocateThreadMapping_of_overflow ps (by omega)] at h
    exact absurd rfl h

theorem toNat_sub_of_toNat_le {a b : BitVec w} (h : b.toNat ≤ a.toNat) :
    (a - b).toNat = a.toNat - b.toNat :=
  BitVec.toNat_sub_of_le (BitVec.le_def.2 h)

/-- **The mapping of a thread.** When the kernel maps it below the top of the address space and
protects it: its size is the rounded sum of the parts, its two guards stay `PROT_NONE` and all
between them is writable, nothing outside it changes, the stack below the static TLS block holds
the stack size, and the block ends `PTHREAD_GUARD_SIZE` bytes below the end of the mapping. -/
theorem allocateThreadMapping_spec {space : BitVec w}
    (hmmap : k.mmap = some space) (hprot : k.mprotectOk = true)
    (hend : space.toNat + mappingSize ps layoutSize stackSize.toNat stackGuardSize.toNat < 2 ^ w) :
    let N := mappingSize ps layoutSize stackSize.toNat stackGuardSize.toNat
    let r := allocateThreadMapping ps layoutSize memtagStack k stackSize stackGuardSize as
    r.1.mmapBase = space ∧ r.1.mmapSize.toNat = N ∧ r.1.stackBase = space ∧
      r.1.stackTop = r.1.staticTls ∧
      r.1.mmapBaseUnguarded.toNat = space.toNat + stackGuardSize.toNat ∧
      r.1.mmapBaseUnguarded.toNat + r.1.mmapSizeUnguarded.toNat + ps.maxPageSize.toNat =
        space.toNat + N ∧
      (∀ a, space.toNat ≤ a → a < space.toNat + N →
        r.2 a = if space.toNat + stackGuardSize.toNat ≤ a ∧
            a + ps.maxPageSize.toNat < space.toNat + N then some (.readWrite memtagStack)
          else some .none) ∧
      (∀ a, a < space.toNat ∨ space.toNat + N ≤ a → r.2 a = as a) ∧
      space.toNat + stackGuardSize.toNat + stackSize.toNat ≤ r.1.staticTls.toNat ∧
      r.1.staticTls.toNat + layoutSize.toNat + ps.maxPageSize.toNat = space.toNat + N := by
  dsimp only
  have hfit : mappingSize ps layoutSize stackSize.toNat stackGuardSize.toNat < 2 ^ w := by omega
  rw [allocateThreadMapping_eq ps hfit hmmap hprot]
  dsimp only
  have hle := le_mappingSize ps layoutSize stackSize.toNat stackGuardSize.toNat
  set N := mappingSize ps layoutSize stackSize.toNat stackGuardSize.toNat with hNdef
  -- every word of the result is the number it stands for
  have hN : (BitVec.ofNat w N).toNat = N := by rw [BitVec.toNat_ofNat, Nat.mod_eq_of_lt hfit]
  have hbase : (space + stackGuardSize).toNat = space.toNat + stackGuardSize.toNat :=
    BitVec.toNat_add_of_lt (by omega)
  have hsub : (BitVec.ofNat w N - stackGuardSize).toNat = N - stackGuardSize.toNat := by
    rw [toNat_sub_of_toNat_le (by rw [hN]; omega), hN]
  have hwritable : (BitVec.ofNat w N - stackGuardSize - ps.maxPageSize).toNat =
      N - stackGuardSize.toNat - ps.maxPageSize.toNat := by
    rw [toNat_sub_of_toNat_le (by rw [hsub]; omega), hsub]
  have hend' : (space + BitVec.ofNat w N).toNat = space.toNat + N := by
    rw [BitVec.toNat_add_of_lt (by omega), hN]
  have hguard : (space + BitVec.ofNat w N - ps.maxPageSize).toNat =
      space.toNat + N - ps.maxPageSize.toNat := by
    rw [toNat_sub_of_toNat_le (by rw [hend']; omega), hend']
  have htls : (space + BitVec.ofNat w N - ps.maxPageSize - layoutSize).toNat =
      space.toNat + N - ps.maxPageSize.toNat - layoutSize.toNat := by
    rw [toNat_sub_of_toNat_le (by rw [hguard]; omega), hguard]
  refine ⟨rfl, hN, rfl, rfl, hbase, by simp only [hbase, hwritable]; omega, fun a ha ha' ↦ ?_,
    fun a ha ↦ ?_, by simp only [htls]; omega, by simp only [htls]; omega⟩
  · -- the writable region, then the `PROT_NONE` mapping under it
    simp only [AddressSpace.set, hbase, hwritable, hN]
    split_ifs <;> first | rfl | omega
  · simp only [AddressSpace.set, hbase, hwritable, hN]
    split_ifs <;> first | rfl | omega

/-! ## Where the static TLS block starts -/

theorem dvd_mappingSize {a : ℕ} (ha : a ∣ ps.pageSize.toNat) (stackSize stackGuardSize : ℕ) :
    a ∣ mappingSize ps layoutSize stackSize stackGuardSize :=
  ha.trans (dvd_roundUp_zero _)

/-- **A page-sized alignment is honoured**: in a page-aligned mapping, the static TLS block starts
at a multiple of any alignment that divides the page size and the size of the block. -/
theorem allocateThreadMapping_staticTls_dvd {space : BitVec w} (hmmap : k.mmap = some space)
    (hprot : k.mprotectOk = true)
    (hend : space.toNat + mappingSize ps layoutSize stackSize.toNat stackGuardSize.toNat < 2 ^ w)
    (hspace : ps.pageSize.toNat ∣ space.toNat) {a : ℕ} (ha : a ∣ ps.pageSize.toNat)
    (hlayout : a ∣ layoutSize.toNat) :
    a ∣ (allocateThreadMapping ps layoutSize memtagStack k stackSize stackGuardSize as).1.staticTls.toNat := by
  obtain ⟨-, -, -, -, -, -, -, -, -, htls⟩ := @allocateThreadMapping_spec w ps layoutSize
    memtagStack k stackSize stackGuardSize as space hmmap hprot hend
  -- the block ends where whole pages end
  have hends : a ∣ space.toNat + mappingSize ps layoutSize stackSize.toNat stackGuardSize.toNat :=
    Nat.dvd_add (ha.trans hspace) (dvd_mappingSize ps ha _ _)
  rw [← htls, Nat.add_assoc] at hends
  exact (Nat.dvd_add_left (Nat.dvd_add hlayout (ha.trans ps.pageSize_dvd))).1 hends

/-- **An alignment above the page size is not honoured.** `__bionic_check_tls_align` accepts any
power of two, but the mapping is only page-aligned. When the kernel may place the mapping at
`space` or a page above it, the static TLS block moves by a page; for an alignment above the page
size, at least one of the two blocks then starts at an address that is not a multiple of it. -/
theorem allocateThreadMapping_misaligns_staticTls {space : BitVec w} {k₁ k₂ : Kernel w}
    (h₁ : k₁.mmap = some space) (h₂ : k₂.mmap = some (space + ps.pageSize))
    (hprot₁ : k₁.mprotectOk = true) (hprot₂ : k₂.mprotectOk = true)
    (hend : space.toNat + ps.pageSize.toNat +
      mappingSize ps layoutSize stackSize.toNat stackGuardSize.toNat < 2 ^ w)
    {a : ℕ} (hbig : ps.pageSize.toNat < a) :
    ¬ (a ∣ (allocateThreadMapping ps layoutSize memtagStack k₁ stackSize stackGuardSize
          as).1.staticTls.toNat ∧
        a ∣ (allocateThreadMapping ps layoutSize memtagStack k₂ stackSize stackGuardSize
          as).1.staticTls.toNat) := by
  have hpage : (space + ps.pageSize).toNat = space.toNat + ps.pageSize.toNat :=
    BitVec.toNat_add_of_lt (by omega)
  obtain ⟨-, -, -, -, -, -, -, -, -, htls₁⟩ := @allocateThreadMapping_spec w ps layoutSize
    memtagStack k₁ stackSize stackGuardSize as space h₁ hprot₁ (by omega)
  obtain ⟨-, -, -, -, -, -, -, -, -, htls₂⟩ := @allocateThreadMapping_spec w ps layoutSize
    memtagStack k₂ stackSize stackGuardSize as _ h₂ hprot₂ (by rw [hpage]; omega)
  rw [hpage] at htls₂
  -- the second block starts a page above the first
  rintro ⟨hd₁, hd₂⟩
  have hshift : (allocateThreadMapping ps layoutSize memtagStack k₂ stackSize stackGuardSize
      as).1.staticTls.toNat = (allocateThreadMapping ps layoutSize memtagStack k₁ stackSize
        stackGuardSize as).1.staticTls.toNat + ps.pageSize.toNat := by omega
  rw [hshift] at hd₂
  have hdvd : a ∣ ps.pageSize.toNat := (Nat.dvd_add_right hd₁).1 hd₂
  obtain ⟨j, hj⟩ := ps.pageSize_pow
  have hpos : 0 < ps.pageSize.toNat := by rw [hj]; exact Nat.two_pow_pos j
  exact absurd (Nat.le_of_dvd hpos hdvd) (by omega)

/-- An 8 KiB aligned TLS layout of 8 KiB: with the mapping at 256 MiB or a page above, one of the
two static TLS blocks is not 8 KiB aligned. -/
theorem allocateThreadMapping_misaligns_staticTls_eightKiB :
    ¬ (8192 ∣ (allocateThreadMapping fourKiBPages 8192 false ⟨some 0x10000000, true⟩ 16384 4096
          (fun _ ↦ none)).1.staticTls.toNat ∧
        8192 ∣ (allocateThreadMapping fourKiBPages 8192 false ⟨some 0x10001000, true⟩ 16384 4096
          (fun _ ↦ none)).1.staticTls.toNat) :=
  allocateThreadMapping_misaligns_staticTls fourKiBPages rfl (by decide) rfl rfl (by decide)
    (by decide)

/-! ## `__allocate_thread` -/

/-- `align_down(p, align)` of `macros.h`. -/
def alignDown (p align : BitVec w) : BitVec w := p &&& ~~~(align - 1)

/-- `PTHREAD_STACK_MIN`: 16 KiB on LP64, 8 KiB on LP32. -/
def pthreadStackMin (w : ℕ) : ℕ := if w = 64 then 16384 else 8192

/-- `pthread_attr_t`, with the fields `__allocate_thread` reads and writes. -/
structure PthreadAttr (w : ℕ) where
  stackBase : BitVec w
  stackSize : BitVec w
  guardSize : BitVec w
  deriving DecidableEq, Repr

/-- `pthread_attr_setstack`: the stack's size must be whole pages and at least
`PTHREAD_STACK_MIN`, and its base page-aligned. -/
def pthreadAttrSetstack (attr : PthreadAttr w) (stackBase stackSize : BitVec w) :
    ℤ × PthreadAttr w :=
  if stackSize &&& (ps.pageSize - 1) ≠ 0 ∨ stackSize.toNat < pthreadStackMin w then (einval, attr)
  else if stackBase &&& (ps.pageSize - 1) ≠ 0 then (einval, attr)
  else (0, { attr with stackBase := stackBase, stackSize := stackSize })

variable (layoutSize) (memtagStack) (k) in
/-- `__allocate_thread` with `sizeof(pthread_internal_t)`: the address of the thread's
`pthread_internal_t`, the mapping, the attributes it leaves in the thread, and the address space;
`EAGAIN` when the mapping fails. -/
def allocateThread (sizeofPthreadInternal : ℕ) (attr : PthreadAttr w) (as : AddressSpace) :
    Except ℤ (BitVec w × ThreadMapping w × PthreadAttr w × AddressSpace) := do
  let (mapping, stackTop, attr, as) ←
    if attr.stackBase = 0 then
      -- the caller gave no stack: allocate one, its guard a whole number of pages
      let guardSize := bionicAlign attr.guardSize ps.pageSize
      if guardSize < attr.guardSize then throw eagain
      let (mapping, as) :=
        allocateThreadMapping ps layoutSize memtagStack k attr.stackSize guardSize as
      if mapping.mmapBase = 0 then throw eagain
      pure (mapping, mapping.stackTop,
        { attr with guardSize := guardSize, stackBase := mapping.stackBase }, as)
    else
      let (mapping, as) := allocateThreadMapping ps layoutSize memtagStack k 0 ps.maxPageSize as
      if mapping.mmapBase = 0 then throw eagain
      pure (mapping, attr.stackBase + attr.stackSize, attr, as)
  -- the pthread_internal_t, 16-byte aligned, from the top of the stack
  let stackTop := alignDown (stackTop - BitVec.ofNat w sizeofPthreadInternal) 16
  pure (stackTop, mapping, { attr with stackSize := stackTop - attr.stackBase }, as)

theorem toNat_alignDown_sixteen (hw : 5 ≤ w) (p : BitVec w) :
    (alignDown p 16).toNat = p.toNat / 16 * 16 := by
  have hlt : 16 < 2 ^ w := lt_of_lt_of_le (by decide) (Nat.pow_le_pow_right (by decide) hw)
  have h16 : (16 : BitVec w).toNat = 2 ^ 4 := by simp [Nat.mod_eq_of_lt hlt]
  exact toNat_and_not_sub_one 16 p h16

/-- What `pthread_attr_setstack` accepts: a page-aligned base, and a size of whole pages at least
`PTHREAD_STACK_MIN`, which it stores. -/
theorem pthreadAttrSetstack_eq_zero {attr₀ attr : PthreadAttr w} {stackBase stackSize : BitVec w}
    (h : pthreadAttrSetstack ps attr₀ stackBase stackSize = (0, attr)) :
    attr.stackBase = stackBase ∧ attr.stackSize = stackSize ∧
      pthreadStackMin w ≤ stackSize.toNat := by
  unfold pthreadAttrSetstack at h
  split_ifs at h with hsize hbase
  · simp [einval] at h
  · simp [einval] at h
  · obtain ⟨-, rfl⟩ := Prod.mk.inj h
    exact ⟨rfl, rfl, by omega⟩

/-- With a stack given, `__allocate_thread` maps static TLS alone and carves the thread's
`pthread_internal_t` out of the top of the given stack. -/
theorem allocateThread_of_stackBase_ne_zero {sizeofPthreadInternal : ℕ} {attr : PthreadAttr w}
    {as : AddressSpace} (hbase : attr.stackBase ≠ 0) :
    allocateThread ps layoutSize memtagStack k sizeofPthreadInternal attr as =
      let r := allocateThreadMapping ps layoutSize memtagStack k 0 ps.maxPageSize as
      if r.1.mmapBase = 0 then .error eagain
      else
        let stackTop := alignDown (attr.stackBase + attr.stackSize -
          BitVec.ofNat w sizeofPthreadInternal) 16
        .ok (stackTop, r.1, { attr with stackSize := stackTop - attr.stackBase }, r.2) := by
  simp only [allocateThread, if_neg hbase]
  split_ifs <;> rfl

/-- Without a stack, `__allocate_thread` maps one with a guard of whole pages, and carves the
thread's `pthread_internal_t` out of the top of it, below the static TLS block. -/
theorem allocateThread_of_stackBase_eq_zero {sizeofPthreadInternal : ℕ} {attr : PthreadAttr w}
    {as : AddressSpace} (hbase : attr.stackBase = 0) :
    allocateThread ps layoutSize memtagStack k sizeofPthreadInternal attr as =
      let guardSize := bionicAlign attr.guardSize ps.pageSize
      let r := allocateThreadMapping ps layoutSize memtagStack k attr.stackSize guardSize as
      if guardSize < attr.guardSize then .error eagain
      else if r.1.mmapBase = 0 then .error eagain
      else
        let stackTop := alignDown (r.1.stackTop - BitVec.ofNat w sizeofPthreadInternal) 16
        .ok (stackTop, r.1,
          { attr with
            guardSize := guardSize
            stackBase := r.1.stackBase
            stackSize := stackTop - r.1.stackBase }, r.2) := by
  simp only [allocateThread, if_pos hbase]
  split_ifs <;> rfl

/-- The 16-byte aligned start of `sizeofPthreadInternal` bytes below `top`, when at least that
many and 15 more lie between `bottom` and `top`. -/
theorem alignDown_sub_mem (hw : 5 ≤ w) {top : BitVec w} {bottom sizeofPthreadInternal : ℕ}
    (hroom : bottom + sizeofPthreadInternal + 15 ≤ top.toNat) :
    16 ∣ (alignDown (top - BitVec.ofNat w sizeofPthreadInternal) 16).toNat ∧
      bottom ≤ (alignDown (top - BitVec.ofNat w sizeofPthreadInternal) 16).toNat ∧
      (alignDown (top - BitVec.ofNat w sizeofPthreadInternal) 16).toNat + sizeofPthreadInternal ≤
        top.toNat := by
  have hsizeof : (BitVec.ofNat w sizeofPthreadInternal).toNat = sizeofPthreadInternal := by
    rw [BitVec.toNat_ofNat, Nat.mod_eq_of_lt (by have := top.isLt; omega)]
  have hsub : (top - BitVec.ofNat w sizeofPthreadInternal).toNat =
      top.toNat - sizeofPthreadInternal := by
    rw [toNat_sub_of_toNat_le (by omega), hsizeof]
  rw [toNat_alignDown_sixteen hw, hsub]
  -- rounding down to 16 bytes moves the start by less than 16
  have hdown := Nat.div_mul_le_self (top.toNat - sizeofPthreadInternal) 16
  have hup : top.toNat - sizeofPthreadInternal <
      (top.toNat - sizeofPthreadInternal) / 16 * 16 + 16 := Nat.lt_div_mul_add (by decide)
  exact ⟨Nat.dvd_mul_left _ _, by omega, by omega⟩

/-- **The thread's struct on a stack it allocated.** When the kernel maps the mapping below the
top of the address space, `__allocate_thread` puts the thread's `pthread_internal_t` at a 16-byte
aligned address inside the writable stack, between the stack guard and the static TLS block, when
the stack holds it and 15 bytes more. -/
theorem allocateThread_thread_mem_of_allocated (hw : 5 ≤ w) {sizeofPthreadInternal : ℕ}
    {attr attr' : PthreadAttr w} {as as' : AddressSpace} {thread : BitVec w}
    {mapping : ThreadMapping w} (hbase : attr.stackBase = 0)
    (hsize : sizeofPthreadInternal + 15 ≤ attr.stackSize.toNat)
    (hkernel : ∀ space, k.mmap = some space → space.toNat + mappingSize ps layoutSize
      attr.stackSize.toNat (bionicAlign attr.guardSize ps.pageSize).toNat < 2 ^ w)
    (h : allocateThread ps layoutSize memtagStack k sizeofPthreadInternal attr as =
      .ok (thread, mapping, attr', as')) :
    16 ∣ thread.toNat ∧ mapping.mmapBaseUnguarded.toNat ≤ thread.toNat ∧
      thread.toNat + sizeofPthreadInternal ≤ mapping.staticTls.toNat := by
  rw [allocateThread_of_stackBase_eq_zero ps hbase] at h
  dsimp only at h
  split_ifs at h with hguard hmap
  obtain ⟨rfl, rfl, -, -⟩ : _ = thread ∧ _ = mapping ∧ _ = attr' ∧ _ = as' := by
    simpa using h
  -- the mapping was made, so the kernel placed it and the spec applies
  obtain ⟨space, hmmap, hprot, -, -⟩ := exists_of_mmapBase_ne_zero ps hmap
  obtain ⟨-, -, -, htop, hunguarded, -, -, -, hstack, -⟩ := @allocateThreadMapping_spec w ps
    layoutSize memtagStack k attr.stackSize (bionicAlign attr.guardSize ps.pageSize) as space hmmap
    hprot (hkernel space hmmap)
  rw [htop]
  exact alignDown_sub_mem hw (by omega)

/-- An 800-byte `pthread_internal_t` on a 16 KiB stack mapped at 256 MiB lies just below the
static TLS block. -/
theorem allocateThread_thread_mem_of_allocated_fourKiB :
    16 ∣ (0x10004CE0 : BitVec 64).toNat ∧
      (allocateThreadMapping fourKiBPages 8192 false ⟨some 0x10000000, true⟩ 16384 4096
        (fun _ ↦ none)).1.mmapBaseUnguarded.toNat ≤ (0x10004CE0 : BitVec 64).toNat ∧
      (0x10004CE0 : BitVec 64).toNat + 800 ≤
        (allocateThreadMapping fourKiBPages 8192 false ⟨some 0x10000000, true⟩ 16384 4096
          (fun _ ↦ none)).1.staticTls.toNat :=
  allocateThread_thread_mem_of_allocated fourKiBPages (by decide) rfl (by decide)
    (by
      intro space h
      obtain rfl : (0x10000000 : BitVec 64) = space := Option.some.inj h
      decide)
    (show allocateThread fourKiBPages 8192 false ⟨some 0x10000000, true⟩ 800 ⟨0, 16384, 4096⟩
      (fun _ ↦ none) = _ from rfl)

/-- **The thread's struct on a caller's stack.** For a stack that `pthread_attr_setstack`
accepted, not at address zero and below the top of the address space, `__allocate_thread` puts the
thread's `pthread_internal_t` at a 16-byte aligned address inside the stack, when
`PTHREAD_STACK_MIN` bytes hold it and 15 bytes more. -/
theorem allocateThread_thread_mem_of_setstack (hw : 5 ≤ w) {sizeofPthreadInternal : ℕ}
    (hsizeof : sizeofPthreadInternal + 15 ≤ pthreadStackMin w)
    {attr₀ attr attr' : PthreadAttr w} {stackBase stackSize : BitVec w} {as as' : AddressSpace}
    {thread : BitVec w} {mapping : ThreadMapping w}
    (hset : pthreadAttrSetstack ps attr₀ stackBase stackSize = (0, attr)) (hbase : stackBase ≠ 0)
    (hend : stackBase.toNat + stackSize.toNat < 2 ^ w)
    (h : allocateThread ps layoutSize memtagStack k sizeofPthreadInternal attr as =
      .ok (thread, mapping, attr', as')) :
    16 ∣ thread.toNat ∧ stackBase.toNat ≤ thread.toNat ∧
      thread.toNat + sizeofPthreadInternal ≤ stackBase.toNat + stackSize.toNat := by
  obtain ⟨hb, hs, hmin⟩ := pthreadAttrSetstack_eq_zero ps hset
  rw [allocateThread_of_stackBase_ne_zero ps (hb ▸ hbase)] at h
  dsimp only at h
  split_ifs at h with hmap
  obtain ⟨rfl, -, -, -⟩ : _ = thread ∧ _ = mapping ∧ _ = attr' ∧ _ = as' := by
    simpa using h
  have htop : (attr.stackBase + attr.stackSize).toNat = stackBase.toNat + stackSize.toNat := by
    rw [hb, hs, BitVec.toNat_add_of_lt hend]
  rw [← htop]
  exact alignDown_sub_mem hw (by omega)

/-- An 800-byte `pthread_internal_t` on a 48 KiB stack given at 0x70000000 lies at its top. -/
theorem allocateThread_thread_mem_of_setstack_fourKiB :
    16 ∣ (0x7000BCE0 : BitVec 64).toNat ∧
      (0x70000000 : BitVec 64).toNat ≤ (0x7000BCE0 : BitVec 64).toNat ∧
      (0x7000BCE0 : BitVec 64).toNat + 800 ≤
        (0x70000000 : BitVec 64).toNat + (0xC000 : BitVec 64).toNat :=
  allocateThread_thread_mem_of_setstack fourKiBPages (by decide) (by decide)
    (show pthreadAttrSetstack fourKiBPages ⟨0, 0, 4096⟩ 0x70000000 0xC000 =
      (0, ⟨0x70000000, 0xC000, 4096⟩) by decide)
    (by decide) (by decide)
    (show allocateThread fourKiBPages 8192 false ⟨some 0x10000000, true⟩ 800
      ⟨0x70000000, 0xC000, 4096⟩ (fun _ ↦ none) = _ from rfl)

end Bionic.Pthread.Create
