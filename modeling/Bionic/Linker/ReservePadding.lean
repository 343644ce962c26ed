import Mathlib.Algebra.Order.Group.Nat
import Mathlib.Algebra.Order.Ring.Int

/-!
# `ReserveWithAlignmentPadding`

The linker reserves a library's address range with one `PROT_NONE` mapping larger than the
library (linker_phdr.cpp): large enough that a start aligned to `start_align` can be chosen
inside it, and, on LP64 when the library crosses a 2 MiB boundary, a random gap of
`kGapAlignment` units after it. The start is then drawn with `arc4random_uniform` among the
aligned places between `first` and `last`, and the rest of the mapping is unmapped.

Addresses and lengths are numbers; pointer arithmetic on `uint8_t*` is exact (`ℤ`), a `size_t`
expression is taken modulo `2 ^ w`, and the argument of `arc4random_uniform` is a `uint32_t`.
What `mmap` returns and what the random draws are come from outside (`Outcomes`); every result of
`arc4random_uniform(b)` is `r % b` for some draw `r`.

The start is always a multiple of `start_align` (`reserve_start_aligned`). When `mapping_align`
exceeds `kGapAlignment`, as `ReserveAddressSpace` makes it for a library aligned to `kPmdSize`
with pages of 16 KiB or more, the gap end is aligned only to 2 MiB, so
`align_down(gap_start, mapping_align) - size` can fall below `first`. Then
`(last - first) / start_align + 1` wraps around as a `size_t` and is cut to 32 bits
(`reserve_bound_wraps`).
-/

set_option autoImplicit false
set_option relaxedAutoImplicit false

namespace Bionic.Linker.ReservePadding

/-- The loader's setting: `page_size()`, whether the target is LP64, and whether this is first
stage init (no `arc4random` yet). -/
structure Config where
  pageSize : ℕ
  lp64 : Bool
  firstStageInit : Bool
  deriving DecidableEq, Repr

/-- The width of `size_t` and of a pointer. -/
def Config.wordBits (cfg : Config) : ℕ := if cfg.lp64 then 64 else 32

/-- `kGapAlignment`: 2 MiB on LP64, 0 (no gap) otherwise. -/
def Config.gapAlignment (cfg : Config) : ℕ := if cfg.lp64 then 2 ^ 21 else 0

/-- `kMaxGapUnits`. -/
def kMaxGapUnits : ℕ := 32

/-- `align_down(p, align)`: `p & ~(align - 1)` for a power of two. -/
def alignDown (p align : ℕ) : ℕ := p / align * align

/-- `align_up(p, align)`: `(p + align - 1) & ~(align - 1)` on a `w`-bit word. -/
def alignUp (w p align : ℕ) : ℕ := alignDown ((p + align - 1) % 2 ^ w) align

/-- A `ptrdiff_t` converted to `size_t`. -/
def toSize (w : ℕ) (x : ℤ) : ℕ := (x % 2 ^ w).toNat

/-- `arc4random_uniform(upper_bound)` for the `uint32_t` the bound becomes: 0 below 2, else the
draw reduced below the bound. -/
def arc4randomUniform (upperBound r : ℕ) : ℕ :=
  let b := upperBound % 2 ^ 32
  if b < 2 then 0 else r % b

/-- What comes from outside: the address each `mmap` returns (`none` for `MAP_FAILED`) and the
draws behind the two `arc4random_uniform` calls. -/
structure Outcomes where
  firstMap : Option ℕ
  secondMap : Option ℕ
  gapDraw : ℕ
  startDraw : ℕ
  deriving DecidableEq, Repr

/-- A reservation: the start returned, the final mapping, the gap written to `out_gap_start` and
`out_gap_size` (`none`: not written), the bound given to the start's `arc4random_uniform`, and the
`munmap` calls as `(address, length)` with the length as the pointer difference computed. -/
structure Reservation where
  start : ℤ
  mapBase : ℕ
  mapSize : ℕ
  gap : Option (ℤ × ℕ)
  startBound : ℕ
  unmaps : List (ℤ × ℤ)
  deriving DecidableEq, Repr

/-- The second part of the function, from the final mapping at `p` of `mmapSize` bytes on:
the gap's place, `first` and `last`, the draw of the start and the unmaps. `unmapped` holds the
`munmap` of the first mapping when a gap was inserted. -/
def placeStart (cfg : Config) (out : Outcomes) (size mappingAlign startAlign gapSize : ℕ)
    (p mmapSize : ℕ) (unmapped : List (ℤ × ℤ)) : Reservation :=
  let w := cfg.wordBits
  let (gapEnd, gapStart) : ℤ × ℤ :=
    if gapSize ≠ 0 then
      let gapEnd := alignDown (p + mmapSize) cfg.gapAlignment
      (gapEnd, gapEnd - gapSize)
    else (p + mmapSize, p + mmapSize)
  let first : ℤ := alignUp w p mappingAlign
  let last : ℤ := (alignDown (toSize w gapStart) mappingAlign : ℤ) - size
  let bound := (toSize w (last - first) / startAlign + 1) % 2 ^ w
  let n := if cfg.firstStageInit then 0 else arc4randomUniform bound out.startDraw
  let start := first + n * startAlign
  let tail := if gapEnd ≠ p + mmapSize then [(gapEnd, (p + mmapSize : ℤ) - gapEnd)] else []
  ⟨start, p, mmapSize, some (gapStart, gapSize), bound % 2 ^ 32,
    unmapped ++ [((p : ℤ), start - p), (start + size, gapStart - (start + size))] ++ tail⟩

/-- `ReserveWithAlignmentPadding(size, mapping_align, start_align, &gap_start, &gap_size)`. -/
def reserveWithAlignmentPadding (cfg : Config) (out : Outcomes) (size mappingAlign startAlign : ℕ) :
    Option Reservation :=
  let w := cfg.wordBits
  let mappingAlign := max mappingAlign startAlign
  if mappingAlign = cfg.pageSize then
    out.firstMap.map fun (p : ℕ) ↦ ⟨p, p, size, none, 0, []⟩
  else
    let mmapSize := (alignUp w size mappingAlign + mappingAlign - cfg.pageSize) % 2 ^ w
    match out.firstMap with
    | none => none
    | some p =>
      let firstByte := alignUp w p mappingAlign
      let lastByte := (alignDown ((p + mmapSize) % 2 ^ w) mappingAlign + 2 ^ w - 1) % 2 ^ w
      let kGap := cfg.gapAlignment
      if kGap ≠ 0 ∧ firstByte / kGap ≠ lastByte / kGap then
        -- the library crosses a 2 MiB boundary: map again with room for a random gap
        let mappingAlign := max mappingAlign kGap
        let units := if cfg.firstStageInit then 1 else arc4randomUniform (kMaxGapUnits - 1) out.gapDraw + 1
        let gapSize := kGap * units % 2 ^ w
        let mmapSize' :=
          (alignUp w ((size + gapSize) % 2 ^ w) mappingAlign + mappingAlign - cfg.pageSize) % 2 ^ w
        out.secondMap.map fun p' ↦
          placeStart cfg out size mappingAlign startAlign gapSize p' mmapSize' [((p : ℤ), mmapSize)]
      else some (placeStart cfg out size mappingAlign startAlign 0 p mmapSize [])

/-! ## The start is aligned -/

theorem dvd_alignUp (w p align : ℕ) : align ∣ alignUp w p align := Dvd.intro_left _ rfl

theorem placeStart_start (cfg : Config) (out : Outcomes) (size mappingAlign startAlign gapSize p
    mmapSize : ℕ) (unmapped : List (ℤ × ℤ)) : ∃ n : ℕ,
    (placeStart cfg out size mappingAlign startAlign gapSize p mmapSize unmapped).start =
      alignUp cfg.wordBits p mappingAlign + n * startAlign :=
  ⟨_, rfl⟩

theorem placeStart_start_dvd (cfg : Config) (out : Outcomes) {size mappingAlign startAlign : ℕ}
    (gapSize p mmapSize : ℕ) (unmapped : List (ℤ × ℤ)) (hdvd : startAlign ∣ mappingAlign) :
    (startAlign : ℤ) ∣
      (placeStart cfg out size mappingAlign startAlign gapSize p mmapSize unmapped).start := by
  obtain ⟨n, hn⟩ := placeStart_start cfg out size mappingAlign startAlign gapSize p mmapSize unmapped
  rw [hn]
  exact Int.dvd_add (Int.natCast_dvd_natCast.2 (hdvd.trans (dvd_alignUp _ _ _))) (Int.dvd_mul_left _ _)

/-- A power of two divides the larger of two numbers it is at most, when the other is 0 or a power
of two. -/
theorem pow_dvd_max {b m n : ℕ} (hm : 2 ^ b ∣ m) (hle : 2 ^ b ≤ m) (hn : n = 0 ∨ ∃ c, n = 2 ^ c) :
    2 ^ b ∣ max m n := by
  rcases le_total n m with h | h
  · rwa [max_eq_left h]
  · rw [max_eq_right h]
    rcases hn with rfl | ⟨c, rfl⟩
    · exact Nat.dvd_zero _
    · exact pow_dvd_pow 2 ((Nat.pow_le_pow_iff_right (by decide)).1 (hle.trans h))

/-- Whatever `mmap` returns (page-aligned) and whatever the draws are, the start returned is a
multiple of `start_align`, for powers of two `mapping_align` and `start_align` at least a page. -/
theorem reserve_start_aligned (cfg : Config) (out : Outcomes) (size a b k : ℕ)
    (hpage : cfg.pageSize = 2 ^ k) (hkb : k ≤ b) (hmap : ∀ p ∈ out.firstMap, cfg.pageSize ∣ p)
    (r : Reservation) (hr : reserveWithAlignmentPadding cfg out size (2 ^ a) (2 ^ b) = some r) :
    (2 ^ b : ℤ) ∣ r.start := by
  have hmax : 2 ^ b ∣ max (2 ^ a) (2 ^ b) := by
    rw [max_comm]
    exact pow_dvd_max (dvd_refl _) le_rfl (.inr ⟨a, rfl⟩)
  dsimp only [reserveWithAlignmentPadding] at hr
  by_cases hearly : max (2 ^ a) (2 ^ b) = cfg.pageSize
  · -- `mapping_align == page_size()`: the start is what `mmap` returned
    rw [if_pos hearly] at hr
    obtain ⟨p, hp, rfl⟩ := Option.map_eq_some_iff.1 hr
    have hb : 2 ^ b = cfg.pageSize := by
      have hle : 2 ^ b ≤ 2 ^ k := hpage ▸ hearly ▸ le_max_right _ _
      have := (Nat.pow_le_pow_iff_right (by decide : 1 < 2)).1 hle
      rw [hpage, show b = k by omega]
    show ((2 ^ b : ℕ) : ℤ) ∣ (p : ℤ)
    exact Int.natCast_dvd_natCast.2 (hb ▸ hmap p hp)
  rw [if_neg hearly] at hr
  cases hfirst : out.firstMap with
  | none => simp [hfirst] at hr
  | some p =>
    simp only [hfirst] at hr
    by_cases hgap : cfg.gapAlignment ≠ 0 ∧
        alignUp cfg.wordBits p (max (2 ^ a) (2 ^ b)) / cfg.gapAlignment ≠
          (alignDown ((p + (alignUp cfg.wordBits size (max (2 ^ a) (2 ^ b)) + max (2 ^ a) (2 ^ b) -
            cfg.pageSize) % 2 ^ cfg.wordBits) % 2 ^ cfg.wordBits) (max (2 ^ a) (2 ^ b)) +
              2 ^ cfg.wordBits - 1) % 2 ^ cfg.wordBits / cfg.gapAlignment
    · -- a gap: the mapping alignment is raised to `kGapAlignment`
      rw [if_pos hgap] at hr
      obtain ⟨p', -, rfl⟩ := Option.map_eq_some_iff.1 hr
      refine placeStart_start_dvd _ _ _ _ _ _ (pow_dvd_max hmax (le_max_right _ _) ?_)
      unfold Config.gapAlignment
      split_ifs
      · exact .inr ⟨21, rfl⟩
      · exact .inl rfl
    · rw [if_neg hgap] at hr
      cases hr
      exact placeStart_start_dvd _ _ _ _ _ _ hmax

/-- Even when the bound wraps (the input of `reserve_bound_wraps`), the start is a multiple of
`start_align`. -/
theorem reserve_start_aligned_of_wrap : (2 ^ 12 : ℤ) ∣ 0x140400000 :=
  reserve_start_aligned ⟨4096, true, false⟩ ⟨some 0x40000000, some 0x40001000, 0, 0x100000⟩
    0x100000 22 12 12 rfl le_rfl (fun p hp ↦ by cases hp; decide)
    ⟨0x140400000, 0x40001000, 0x7FF000, some (0x40600000, 0x200000), 0xFFFFFF01,
      [(0x40000000, 0x7FF000), (0x40001000, 0x1003FF000), (0x140500000, -0xFFF00000)]⟩ (by decide)

/-! ## At the alignments `ReserveAddressSpace` passes -/

/-- `kLibraryAlignment`: `1 << kLibraryAlignmentBits`, 256 KiB. -/
def kLibraryAlignment : ℕ := 2 ^ 18

/-- `kPmdSize`: a page table of 8-byte entries, each mapping one page. -/
def Config.pmdSize (cfg : Config) : ℕ := cfg.pageSize / 8 * cfg.pageSize

/-- The start alignment of `ElfReader::ReserveAddressSpace`: `kPmdSize` for a library whose
maximum alignment is `kPmdSize`, when transparent huge pages are supported and the app targets
API level 31 or later (`thp`), else a page. -/
def Config.startAlignment (cfg : Config) (thp : Bool) (maximumAlignment : ℕ) : ℕ :=
  if thp ∧ maximumAlignment = cfg.pmdSize then cfg.pmdSize else cfg.pageSize

/-- `ReserveAddressSpace` with 16 KiB pages, for a one-page library aligned to `kPmdSize`
(32 MiB): the first mapping at `0x800004000` crosses a 2 MiB boundary, the gap draw gives one
unit, and the second mapping comes back at `0x800184000`. `first` is `0x802000000` and `last`
`0x801FFC000`: `(last - first) / start_align + 1` wraps to `2 ^ 39`, which the `uint32_t`
argument of `arc4random_uniform` cuts to `0`. -/
theorem reserve_bound_wraps :
    reserveWithAlignmentPadding ⟨16384, true, false⟩ ⟨some 0x800004000, some 0x800184000, 0, 0x100000⟩
        0x4000 kLibraryAlignment
        (Config.startAlignment ⟨16384, true, false⟩ true (Config.pmdSize ⟨16384, true, false⟩)) =
      some ⟨0x802000000, 0x800184000, 0x3FFC000, some (0x803E00000, 0x200000), 0,
        [(0x800004000, 0x3FFC000), (0x800184000, 0x1E7C000), (0x802004000, 0x1DFC000),
          (0x804000000, 0x180000)]⟩ := by
  decide

end Bionic.Linker.ReservePadding
